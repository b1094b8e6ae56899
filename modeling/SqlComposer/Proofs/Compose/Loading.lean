import SqlComposer.Compose.Compile

/-! All that a compilation learns from a loader is what it loads for the scripts that it asks for.
A loader that loads the same for those scripts leads to the same compilation. -/
namespace SqlComposer

def Event.source? : Event → Option Source
  | .loading s => some s
  | _ => none

section
variable {α β : Type}

theorem filterMap_bind {γ : Type} (p : Event → Option γ) (x : Step α) (f : α → Step β) :
    (x >>= f).events.filterMap p = x.events.filterMap p ++
      match x.result with
      | .error _ => []
      | .ok a => (f a).events.filterMap p := by
  rw [Traced.events_bind, List.filterMap_append]
  cases x.result <;> rfl

/-- What is asked of the loader, in the order of asking. -/
def asked (x : Step α) : List Source := x.events.filterMap Event.source?

theorem asked_bind (x : Step α) (f : α → Step β) :
    asked (x >>= f) = asked x ++
      match x.result with
      | .error _ => []
      | .ok a => asked (f a) := filterMap_bind Event.source? x f

theorem asked_atStage (s : Stage) (x : Step α) : asked (atStage s x) = asked x := by
  unfold asked atStage
  rw [Traced.events_onError, List.filterMap_append]
  cases x.result with
  | error e => exact List.append_nil _
  | ok a => exact List.append_nil _

theorem Traced.bind_congr {ω ε : Type} {x : Traced ω ε α} {f g : α → Traced ω ε β}
    (h : ∀ a, x.result = .ok a → f a = g a) : x >>= f = x >>= g := by
  show andThen x f = andThen x g
  unfold andThen
  cases hx : x.result with
  | error e => rfl
  | ok a => simp only [h a hx]

/-- Another loader loads the same for all that a step asks for. -/
def AgreeOn (x : Step α) (loader other : Loader) : Prop :=
  ∀ s ∈ asked x, other.load s = loader.load s

variable {loader other : Loader} {x : Step α} {f : α → Step β}

theorem AgreeOn.first (h : AgreeOn (x >>= f) loader other) : AgreeOn x loader other := by
  intro s hs
  exact h s (asked_bind x f ▸ List.mem_append_left _ hs)

theorem AgreeOn.second {a : α} (h : AgreeOn (x >>= f) loader other) (hx : x.result = .ok a) :
    AgreeOn (f a) loader other := by
  intro s hs
  refine h s ?_
  rw [asked_bind, hx]
  exact List.mem_append_right _ hs

end

section Discovery
variable {loader other : Loader} {e : Environment}

theorem follow_congr {p : Pending} (h : AgreeOn (p.follow loader e) loader other) :
    p.follow other e = p.follow loader e := by
  have hs : other.load p.reference.source = loader.load p.reference.source := by
    refine h _ ?_
    unfold Pending.follow
    rw [asked_bind]
    exact List.mem_append_left _ (List.mem_cons_self ..)
  unfold Pending.follow
  rw [hs]

theorem discover_congr {limit room position : Nat} {ps : List Pending}
    (h : AgreeOn (discover loader e limit room position ps) loader other) :
    discover other e limit room position ps = discover loader e limit room position ps := by
  induction room generalizing position ps with
  | zero =>
    cases ps with
    | nil => rfl
    | cons p ps =>
      rw [discover] at h
      rw [discover, discover, follow_congr h.first]
  | succ room ih =>
    cases ps with
    | nil => rfl
    | cons p ps =>
      rw [discover] at h
      rw [discover, discover, follow_congr h.first]
      refine Traced.bind_congr fun found hfound => ?_
      have hrest := (h.second hfound).first
      show discover other e limit room _ _ >>= _ = discover loader e limit room _ _ >>= _
      rw [ih hrest]

theorem resolve_congr {limit : Nat} {root : Fragment}
    (h : AgreeOn (resolve loader e limit root) loader other) :
    resolve other e limit root = resolve loader e limit root := by
  cases limit with
  | zero => rfl
  | succ room => exact discover_congr h

end Discovery

/-- What a loader loads for scripts that a compilation does not ask for is of no consequence. -/
theorem compileTraced_congr {engine : Template.Engine} {loader other : Loader} {limit : Nat}
    {o : Options} {script : String}
    (h : AgreeOn (compileTraced engine loader limit o script) loader other) :
    compileTraced engine other limit o script = compileTraced engine loader limit o script := by
  unfold compileTraced at h ⊢
  refine Traced.bind_congr fun root hroot => Traced.bind_congr fun _ htold => ?_
  have hresolve := ((h.second hroot).second htold).first
  unfold AgreeOn at hresolve
  rw [asked_atStage] at hresolve
  rw [resolve_congr hresolve]

end SqlComposer
