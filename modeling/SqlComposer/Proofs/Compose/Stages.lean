import Mathlib.Data.List.Basic
import SqlComposer.Compose.Log
import SqlComposer.Proofs.Compose.Loading
import SqlComposer.Proofs.Compose.Unfolding

/-! The stages of a composition, as its log tells of them. Main statement: the passages that are
logged are the first ones of a fixed row, and all of them exactly if there is a text; a failure is
logged once and last, with the stage that its kind of error belongs to. -/
namespace SqlComposer

/-- The stage in which an error comes up. -/
def ComposeError.stage : ComposeError → Stage
  | .parse none _ => .unparsed
  | .parse (some _) _ => .parsed
  | .load _ _ => .parsed
  | .tooManyFragments _ => .parsed
  | .template (some _) _ => .resolved
  | .template none _ => .merged

theorem ComposeError.stage_eq_iff (e : ComposeError) :
    (e.stage = .unparsed ↔ ∃ y, e = .parse none y) ∧
    (e.stage = .parsed ↔ (∃ r y, e = .load r y) ∨ (∃ l, e = .tooManyFragments l) ∨
      ∃ r y, e = .parse (some r) y) ∧
    (e.stage = .resolved ↔ ∃ r y, e = .template (some r) y) ∧
    (e.stage = .merged ↔ ∃ y, e = .template none y) := by
  rcases e with ⟨_ | r, y⟩ | l | ⟨r, y⟩ | ⟨_ | r, y⟩ <;> simp [stage]

/-- Whether an event is about the stages. The others are about the work in one of them. -/
def Event.isProgress : Event → Bool
  | .advanced .. => true
  | .failed .. => true
  | _ => false

section
variable {α β : Type} {s : Stage}

/-- A step is work in a stage: it tells nothing about stages, and its errors belong to this one. -/
structure WorksIn (s : Stage) (x : Step α) : Prop where
  quiet : ∀ e ∈ x.events, e.isProgress = false
  errors : ∀ e, x.result = .error e → e.stage = s

namespace WorksIn

theorem pure (a : α) : WorksIn s (Pure.pure a : Step α) := ⟨by simp, fun _ h => by cases h⟩

theorem tell {e : Event} (h : e.isProgress = false) : WorksIn s (Traced.tell e) :=
  ⟨List.forall_mem_singleton.2 h, fun _ h => by cases h⟩

theorem tellAll {es : List Event} (h : ∀ e ∈ es, e.isProgress = false) :
    WorksIn s (Traced.tellAll es) := ⟨h, fun _ h => by cases h⟩

theorem fail {e : ComposeError} (h : e.stage = s) : WorksIn s (Traced.fail e : Step α) :=
  ⟨List.forall_mem_nil _, fun _ he => by cases he; exact h⟩

theorem lift {ε : Type} {r : Except ε α} {f : ε → ComposeError} (h : ∀ y, (f y).stage = s) :
    WorksIn s (Traced.lift (r.mapError f)) := by
  refine ⟨List.forall_mem_nil _, fun e he => ?_⟩
  cases r with
  | ok a => cases he
  | error y => cases he; exact h y

theorem bind {x : Step α} {f : α → Step β} (hx : WorksIn s x) (hf : ∀ a, WorksIn s (f a)) :
    WorksIn s (x >>= f) := by
  constructor
  · intro e he
    rw [Traced.events_bind, List.mem_append] at he
    obtain he | he := he
    · exact hx.quiet e he
    · cases hr : x.result with
      | error y => rw [hr] at he; cases he
      | ok a => rw [hr] at he; exact (hf a).quiet e he
  · intro e he
    rw [Traced.result_bind] at he
    cases hr : x.result with
    | error y => rw [hr] at he; cases he; exact hx.errors e hr
    | ok a => rw [hr] at he; exact (hf a).errors e he

end WorksIn

theorem worksIn_read (e : Environment) {origin : Origin}
    (h : ∀ y, (ComposeError.parse origin y).stage = s) (text : String) :
    WorksIn s (Fragment.read e origin text) := by
  refine .bind (.tellAll fun ev hev => ?_) fun _ => .bind (.lift h) fun _ => .pure _
  obtain ⟨r, -, rfl⟩ := List.mem_map.1 hev
  rfl

theorem worksIn_follow (loader : Loader) (e : Environment) (p : Pending) :
    WorksIn .parsed (p.follow loader e) := by
  refine .bind (.tell rfl) fun _ => .bind (.lift fun _ => rfl) fun text => ?_
  exact .bind (worksIn_read e (fun _ => rfl) text) fun _ => .bind (.tell rfl) fun _ => .pure _

theorem worksIn_discover (loader : Loader) (e : Environment) (limit room position : Nat)
    (ps : List Pending) : WorksIn .parsed (discover loader e limit room position ps) := by
  induction room generalizing position ps with
  | zero =>
    cases ps with
    | nil => exact .pure []
    | cons p ps => exact .bind (worksIn_follow loader e p) fun _ => .fail rfl
  | succ room ih =>
    cases ps with
    | nil => exact .pure []
    | cons p ps =>
      exact .bind (worksIn_follow loader e p) fun _ => .bind (ih _ _) fun _ => .pure _

theorem worksIn_resolve (loader : Loader) (e : Environment) (limit : Nat) (root : Fragment) :
    WorksIn .parsed (resolve loader e limit root) := by
  cases limit with
  | zero => exact .fail rfl
  | succ room => exact worksIn_discover loader e (room+1) room 1 _

theorem worksIn_render {origin : Origin} (h : ∀ y, (ComposeError.template origin y).stage = s)
    (engine : Template.Engine) (context : Bindings) (script : String) :
    WorksIn s (renderScript engine origin context script) :=
  .lift h

theorem worksIn_merge (engine : Template.Engine) (position : Nat) (ns : List Nested) :
    WorksIn .resolved (merge engine position ns) := by
  induction ns generalizing position with
  | nil => exact .pure []
  | cons n ns ih =>
    refine .bind (ih (position+1)) fun _ => .bind (worksIn_render (fun _ => rfl) _ _ _) fun _ => ?_
    exact .bind (.tell rfl) fun _ => .pure _

/-- What a step tells about the stages. -/
def progress (x : Step α) : List Event := x.events.filter Event.isProgress

theorem progress_bind (x : Step α) (f : α → Step β) :
    progress (x >>= f) = progress x ++
      match x.result with
      | .error _ => []
      | .ok a => progress (f a) := by
  unfold progress
  rw [Traced.events_bind, List.filter_append]
  cases x.result <;> rfl

theorem progress_tell_bind {e : Event} (h : e.isProgress = true) (f : Unit → Step β) :
    progress (Traced.tell e >>= f) = e :: progress (f ()) := by
  rw [progress_bind]
  simp [progress, Traced.tell, h]

/-- Of the work in a stage only its failure is told. -/
theorem progress_atStage_bind {x : Step α} (h : WorksIn s x) (f : α → Step β) :
    progress (atStage s x >>= f) =
      match x.result with
      | .error e => [.failed s e]
      | .ok a => progress (f a) := by
  have hquiet : x.events.filter Event.isProgress = [] := by
    simpa [List.filter_eq_nil_iff] using h.quiet
  rw [progress_bind, atStage, progress, Traced.events_onError, Traced.result_onError,
    List.filter_append, hquiet]
  cases x.result <;> rfl

/-- A failure is the last thing that is told, with the stage of its error. -/
def FailsLast (x : Step α) : Prop :=
  ∀ e, x.result = .error e → ∃ front, x.events = front ++ [.failed e.stage e]

theorem WorksIn.failsLast {x : Step α} (h : WorksIn s x) : FailsLast (atStage s x) := by
  intro e he
  rw [atStage, Traced.result_onError] at he
  refine ⟨x.events, ?_⟩
  rw [atStage, Traced.events_onError, he, h.errors e he]

theorem FailsLast.bind {x : Step α} {f : α → Step β} (hx : FailsLast x)
    (hf : ∀ a, FailsLast (f a)) : FailsLast (x >>= f) := by
  intro e he
  rw [Traced.result_bind] at he
  cases hr : x.result with
  | error y =>
    rw [hr] at he
    cases he
    obtain ⟨front, h⟩ := hx e hr
    exact ⟨front, by rw [Traced.events_bind, hr, h, List.append_nil]⟩
  | ok a =>
    rw [hr] at he
    obtain ⟨front, h⟩ := hf a e he
    exact ⟨x.events ++ front, by simp only [Traced.events_bind, hr, h, List.append_assoc]⟩

theorem FailsLast.tell (e : Event) : FailsLast (Traced.tell e) := fun _ h => by cases h

/-- Of a row of passages a step tells all if it ends well, and else those up to the stage that it
fails in, and the failure. -/
structure Advances (row : List Event) (x : Step α) : Prop where
  arrives : ∀ a, x.result = .ok a → progress x = row
  stops : ∀ e, x.result = .error e → ∃ n target count,
    row[n]? = some (.advanced e.stage target count) ∧
      progress x = row.take n ++ [.failed e.stage e]

theorem Advances.pure (a : α) : Advances [] (Pure.pure a : Step α) := 
  ⟨fun _ _ => rfl, fun _ h => by cases h⟩

theorem Advances.stage {target : Stage} {count : Nat} {row : List Event} {x : Step α}
    {passage : α → Event} {f : α → Step β} (hx : WorksIn s x)
    (hf : ∀ a, x.result = .ok a → passage a = .advanced s target count ∧ Advances row (f a)) :
    Advances (.advanced s target count :: row)
      (atStage s x >>= fun a => Traced.tell (passage a) >>= fun _ => f a) := by
  generalize hstep : (atStage s x >>= fun a => Traced.tell (passage a) >>= fun _ => f a) = step
  have hprogress : progress step = _ := hstep ▸ progress_atStage_bind hx _
  have hresult : step.result = _ := hstep ▸ Traced.result_bind _ _
  rw [atStage, Traced.result_onError] at hresult
  cases hr : x.result with
  | error y =>
    rw [hr] at hprogress hresult
    have hresult : step.result = .error y := hresult
    refine ⟨fun a ha => ?_, fun e he => ⟨0, target, count, ?_⟩⟩
    · rw [hresult] at ha
      cases ha
    · rw [hresult] at he
      cases he
      cases hx.errors y hr
      exact ⟨rfl, hprogress⟩
  | ok a =>
    obtain ⟨hpassage, hrow⟩ := hf a hr
    rw [hr] at hprogress hresult
    have hresult : step.result = (f a).result := hresult.trans (Traced.result_bind _ _)
    have hprogress : progress step = progress (Traced.tell (passage a) >>= fun _ => f a) := hprogress
    rw [hpassage, progress_tell_bind rfl] at hprogress
    refine ⟨fun b hb => ?_, fun e he => ?_⟩
    · rw [hprogress, hrow.arrives b (hresult ▸ hb)]
    · obtain ⟨n, target, count, hn, hstop⟩ := hrow.stops e (hresult ▸ he)
      exact ⟨n+1, target, count, hn, by rw [hprogress, hstop]; rfl⟩

end

section Compilation
variable {engine : Template.Engine} {loader : Loader} {limit : Nat} {o : Options} {script : String}

theorem failsLast_compile : FailsLast (compileTraced engine loader limit o script) := by
  unfold compileTraced
  refine .bind (worksIn_read _ (fun _ => rfl) script).failsLast fun root => .bind (.tell _) fun _ => ?_
  refine .bind (worksIn_resolve loader _ limit root).failsLast fun ns => .bind (.tell _) fun _ => ?_
  refine .bind (worksIn_merge engine 1 ns).failsLast fun ps => .bind (.tell _) fun _ => ?_
  refine .bind (worksIn_render (fun _ => rfl) engine _ script).failsLast fun text => .bind (.tell _) ?_
  exact fun _ _ h => by cases h

/-- All passages from one stage to the next, with the number of fragments there are. -/
def passages (count : Nat) : List Event :=
  [.advanced .unparsed .parsed 0, .advanced .parsed .resolved count,
    .advanced .resolved .merged count, .advanced .merged .finished count]

theorem exists_count (loader : Loader) (limit : Nat) (o : Options) (script : String) :
    ∃ count, ∀ root ns, Fragment.ofText o.environment none script = .ok root →
      (resolve loader o.environment limit root).result = .ok ns → count = ns.length+1 := by
  cases hroot : Fragment.ofText o.environment none script with
  | error e => exact ⟨0, fun _ _ h => by cases h⟩
  | ok root =>
    cases hns : (resolve loader o.environment limit root).result with
    | error e => exact ⟨0, fun _ _ h hr => by cases h; rw [hns] at hr; cases hr⟩
    | ok ns => exact ⟨ns.length+1, fun _ _ h hr => by cases h; rw [hns] at hr; cases hr; rfl⟩

theorem advances_compile {count : Nat}
    (hcount : ∀ root ns, Fragment.ofText o.environment none script = .ok root →
      (resolve loader o.environment limit root).result = .ok ns → count = ns.length+1) :
    Advances (passages count) (compileTraced engine loader limit o script) := by
  unfold compileTraced passages
  refine .stage (worksIn_read _ (fun _ => rfl) script) fun root hroot => ?_
  rw [result_read] at hroot
  refine ⟨rfl, .stage (worksIn_resolve loader _ limit root) fun ns hns => ?_⟩
  cases hcount root ns hroot hns
  refine ⟨rfl, .stage (worksIn_merge engine 1 ns) fun ps _ => ⟨rfl, ?_⟩⟩
  exact .stage (worksIn_render (fun _ => rfl) engine _ script) fun text _ => ⟨rfl, .pure text⟩

end Compilation

section Log

/-- The record of a passage. -/
def stageRecord (source target : String) (fragments : Nat) : LogRecord :=
  ⟨.debug, "stage", [("from", source), ("to", target), ("fragments", toString fragments)]⟩

/-- The records of all passages. -/
def stageRecords (count : Nat) : List LogRecord :=
  [stageRecord "unparsed" "directives parsed" 0,
    stageRecord "directives parsed" "fragments resolved" count,
    stageRecord "fragments resolved" "merged" count, stageRecord "merged" "finalized" count]

/-- The record of a failure. -/
def failureRecord (s : Stage) (e : ComposeError) : LogRecord :=
  ⟨.debug, "compile failed", [("stage", s.text), ("error", e.message)]⟩

def Event.stageRecord? : Event → Option LogRecord
  | .advanced source target fragments => some (stageRecord source.text target.text fragments)
  | _ => none

def Event.failureRecord? : Event → Option LogRecord
  | .failed s e => some (failureRecord s e)
  | _ => none

/-- What a compilation logs of itself; what the loader has to say of its work is left out. -/
def ownLog (loader : Loader) (es : List Event) : List LogRecord :=
  (es.filter (·.source? = none)).filterMap (Event.record? loader)

theorem filter_ownLog (loader : Loader) (message : String) {f : Event → Option LogRecord}
    (h : ∀ e : Event, e.source? = none → (e.record? loader).filter (·.message = message) = f e)
    (hload : ∀ s, f (.loading s) = none) (es : List Event) :
    (ownLog loader es).filter (·.message = message) = es.filterMap f := by
  rw [ownLog, List.filterMap_filter, List.filter_filterMap]
  refine List.filterMap_congr fun e _ => ?_
  cases hs : e.source? with
  | none => exact h e hs
  | some s =>
    cases e with
    | loading s => rw [hload]; rfl
    | _ => cases hs

/-- No remark on directives is taken for a passage or a failure. -/
theorem filter_remark (r : Remark) {message : String}
    (h : message = "stage" ∨ message = "compile failed") :
    r.record?.filter (·.message = message) = none := by
  obtain rfl | rfl := h
  all_goals
    cases r with
    | description d => cases d <;> rfl
    | _ => rfl

theorem filter_stage (loader : Loader) (es : List Event) :
    (ownLog loader es).filter (·.message = "stage") = es.filterMap Event.stageRecord? := by
  refine filter_ownLog loader _ (fun e hs => ?_) (fun _ => rfl) es
  cases e with
  | remark r => exact filter_remark r (.inl rfl)
  | loading s => cases hs
  | _ => rfl

theorem filter_failure (loader : Loader) (es : List Event) :
    (ownLog loader es).filter (·.message = "compile failed") =
      es.filterMap Event.failureRecord? := by
  refine filter_ownLog loader _ (fun e hs => ?_) (fun _ => rfl) es
  cases e with
  | remark r => exact filter_remark r (.inr rfl)
  | loading s => cases hs
  | _ => rfl

/-- Only events about the stages have these records. -/
theorem filterMap_progress {α : Type} (x : Step α) :
    x.events.filterMap Event.stageRecord? = (progress x).filterMap Event.stageRecord? ∧
      x.events.filterMap Event.failureRecord? = (progress x).filterMap Event.failureRecord? := by
  unfold progress
  rw [List.filterMap_filter, List.filterMap_filter]
  constructor <;> refine List.filterMap_congr fun e _ => ?_ <;> cases e <;> rfl

theorem filterMap_passages {count n : Nat} (h : n < (passages count).length) :
    ((passages count).take n).filterMap Event.stageRecord? = (stageRecords count).take n ∧
      ((passages count).take n).filterMap Event.failureRecord? = [] := by
  change n < 4 at h
  match n with
  | 0 | 1 | 2 | 3 => exact ⟨rfl, rfl⟩

theorem getElem?_stageRecords {count n fragments : Nat} {source target : Stage}
    (h : (passages count)[n]? = some (.advanced source target fragments)) :
    (stageRecords count)[n]? = some (stageRecord source.text target.text fragments) := by
  match n with
  | 0 | 1 | 2 | 3 => cases h; rfl
  | n+4 => cases h

end Log

/-- What the log tells of the stages. The passages are the first ones of the row, with the number
of fragments from the second one on, and all of them exactly if there is a text. A failure is
logged if there is one, once and last, with the stage that its kind of error belongs to, which is
the one that the next passage would have left. -/
theorem compile_logs_stages (engine : Template.Engine) (loader : Loader) (limit : Nat) (o : Options)
    (script : String) :
    let x := compileTraced engine loader limit o script
    let log := ownLog loader x.events
    ∃ count passed,
      (∀ root ns, Fragment.ofText o.environment none script = .ok root →
        (resolve loader o.environment limit root).result = .ok ns → count = ns.length+1) ∧
      log.filter (·.message = "stage") = (stageRecords count).take passed ∧
      (passed = 4 ↔ ∃ out, compile engine loader limit o script = .ok out) ∧
      (∀ out, compile engine loader limit o script = .ok out →
        log.filter (·.message = "compile failed") = []) ∧
      ∀ e, compile engine loader limit o script = .error e → ∃ stage : Stage,
        log.filter (·.message = "compile failed") = [failureRecord stage e] ∧
        (compileLog loader o x.events).getLast? = some (.record (failureRecord stage e)) ∧
        (∃ target fragments,
          (stageRecords count)[passed]? = some (stageRecord stage.text target fragments)) ∧
        (stage = .unparsed ↔ ∃ y, e = .parse none y) ∧
        (stage = .parsed ↔ (∃ r y, e = .load r y) ∨ (∃ l, e = .tooManyFragments l) ∨
          ∃ r y, e = .parse (some r) y) ∧
        (stage = .resolved ↔ ∃ r y, e = .template (some r) y) ∧
        (stage = .merged ↔ ∃ y, e = .template none y) := by
  intro x log
  obtain ⟨count, hcount⟩ := exists_count loader limit o script
  have hrow : Advances (passages count) x := advances_compile hcount
  have hstage := (filter_stage loader x.events).trans (filterMap_progress x).1
  have hfailure := (filter_failure loader x.events).trans (filterMap_progress x).2
  cases hr : compile engine loader limit o script with
  | ok out =>
    rw [hrow.arrives out hr] at hstage hfailure
    refine ⟨count, 4, hcount, hstage, iff_of_true rfl ⟨out, rfl⟩, fun _ _ => hfailure, fun _ h => ?_⟩
    cases h
  | error e =>
    obtain ⟨passed, target, fragments, hnext, hprogress⟩ := hrow.stops e hr
    have hlt := (List.getElem?_eq_some_iff.1 hnext).1
    obtain ⟨hpassages, hnone⟩ := filterMap_passages hlt
    rw [hprogress, List.filterMap_append] at hstage hfailure
    rw [hpassages] at hstage
    rw [hnone] at hfailure
    refine ⟨count, passed, hcount, hstage.trans (List.append_nil _),
      iff_of_false (Nat.ne_of_lt hlt) (fun ⟨_, h⟩ => by cases h), (fun _ h => by cases h), ?_⟩
    intro e' he
    cases he
    refine ⟨e.stage, hfailure, ?_, ⟨_, _, getElem?_stageRecords hnext⟩, e.stage_eq_iff⟩
    obtain ⟨front, hfront⟩ := failsLast_compile e hr
    rw [compileLog, hfront, List.filterMap_append, List.map_append, ← List.cons_append]
    exact List.getLast?_concat

end SqlComposer
