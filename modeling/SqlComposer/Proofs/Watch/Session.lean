import SqlComposer.Watch.Recompiler

/-! A recompiler at work beside those who write its input. Writers replace the input and signal
that they did; the recompiler takes a signal, reads the input, compiles it and stores the output.
Each of these is a step of its own, and steps of both sides follow one another in any order. -/
namespace SqlComposer

/-- How far the recompiler has come with the signal it has taken. -/
inductive Phase where
  | waiting
  | signalled
  | loaded (script : String)
  | compiled (text : String)
  | returned
  deriving DecidableEq, Repr

/-- The files, those who may signal, the signals, and the recompiler. -/
structure Session where
  files : FileTree
  senders : Nat
  channel : Channel := {}
  phase : Phase := .waiting
  succeeded : Nat := 0

/-- A writer writes or notifies; senders are joined by others and leave; all other actions are
those of the recompiler. -/
inductive Action where
  | write (content : String)
  | notify | join | leave
  | take | read | compile | store | stop
  deriving DecidableEq, Repr

def Action.isRecompiler : Action → Bool
  | .take | .read | .compile | .store | .stop => true
  | _ => false

namespace Session

def start (files : FileTree) (senders : Nat) : Session := { files := files, senders := senders }

/-- Takes a step, if it can be taken now. Only who can signal can let others signal; the recompiler
stops when all of these have left and no signal waits. -/
def step? (r : Recompiler) (s : Session) (a : Action) : Option Session :=
  match a, s.phase with
  | .write content, _ =>
    match s.files.write r.input content with
    | .ok files => some { s with files := files }
    | .error _ => none
  | .notify, _ => if 0 < s.senders then some { s with channel := s.channel.notify.2 } else none
  | .join, _ => if 0 < s.senders then some { s with senders := s.senders + 1 } else none
  | .leave, _ => if 0 < s.senders then some { s with senders := s.senders - 1 } else none
  | .take, .waiting => s.channel.receive?.map fun c => { s with channel := c, phase := .signalled }
  | .read, .signalled =>
    match s.files.read r.input with
    | .ok script => some { s with phase := .loaded script }
    | .error _ => some { s with phase := .waiting }
  | .compile, .loaded script =>
    match SqlComposer.compile r.engine (r.loader s.files.read) r.limit r.options script with
    | .ok text => some { s with phase := .compiled text }
    | .error _ => some { s with phase := .waiting }
  | .store, .compiled text =>
    match s.files.write r.output text with
    | .ok files => some { s with files := files, phase := .waiting, succeeded := s.succeeded + 1 }
    | .error _ => some { s with phase := .waiting }
  | .stop, .waiting =>
    if s.senders = 0 ∧ s.channel.queued = 0 then some { s with phase := .returned } else none
  | _, _ => none

def run? (r : Recompiler) (s : Session) (actions : List Action) : Option Session :=
  actions.foldlM (step? r) s

/-- What a step can do. -/
inductive Step (r : Recompiler) (s : Session) : Action → Session → Prop
  | write {content : String} {files : FileTree} : s.files.write r.input content = .ok files →
      Step r s (.write content) { s with files := files }
  | notify : 0 < s.senders → Step r s .notify { s with channel := s.channel.notify.2 }
  | join : 0 < s.senders → Step r s .join { s with senders := s.senders + 1 }
  | leave : 0 < s.senders → Step r s .leave { s with senders := s.senders - 1 }
  | take {c : Channel} : s.phase = .waiting → s.channel.receive? = some c →
      Step r s .take { s with channel := c, phase := .signalled }
  | read {script : String} : s.phase = .signalled → s.files.read r.input = .ok script →
      Step r s .read { s with phase := .loaded script }
  | unread {x : FileFault} : s.phase = .signalled → s.files.read r.input = .error x →
      Step r s .read { s with phase := .waiting }
  | compile {script text : String} : s.phase = .loaded script →
      SqlComposer.compile r.engine (r.loader s.files.read) r.limit r.options script = .ok text →
      Step r s .compile { s with phase := .compiled text }
  | uncompiled {script : String} {x : ComposeError} : s.phase = .loaded script →
      SqlComposer.compile r.engine (r.loader s.files.read) r.limit r.options script = .error x →
      Step r s .compile { s with phase := .waiting }
  | store {text : String} {files : FileTree} : s.phase = .compiled text →
      s.files.write r.output text = .ok files →
      Step r s .store
        { s with files := files, phase := .waiting, succeeded := s.succeeded + 1 }
  | unstored {text : String} {x : FileFault} : s.phase = .compiled text →
      s.files.write r.output text = .error x → Step r s .store { s with phase := .waiting }
  | stop : s.phase = .waiting → s.senders = 0 → s.channel.queued = 0 →
      Step r s .stop { s with phase := .returned }

variable {r : Recompiler} {s t : Session}

theorem step?_eq_some_iff {a : Action} : s.step? r a = some t ↔ Step r s a t := by
  constructor
  · intro h
    unfold step? at h
    split at h
    · split at h
      · next hw => cases h; exact .write hw
      · cases h
    · split at h
      · next hs => cases h; exact .notify hs
      · cases h
    · split at h
      · next hs => cases h; exact .join hs
      · cases h
    · split at h
      · next hs => cases h; exact .leave hs
      · cases h
    · next hp =>
      obtain ⟨c, hc, rfl⟩ := Option.map_eq_some_iff.mp h
      exact .take hp hc
    · next hp =>
      split at h
      · next hr => cases h; exact .read hp hr
      · next hr => cases h; exact .unread hp hr
    · next hp =>
      split at h
      · next hc => cases h; exact .compile hp hc
      · next hc => cases h; exact .uncompiled hp hc
    · next hp =>
      split at h
      · next hw => cases h; exact .store hp hw
      · next hw => cases h; exact .unstored hp hw
    · next hp =>
      split at h
      · next hd => cases h; exact .stop hp hd.1 hd.2
      · cases h
    · cases h
  · intro h
    unfold step?
    cases h with
    | write hw => simp only [hw]
    | notify hs | join hs | leave hs => simp only [hs, if_true]
    | take hp hc => simp only [hp, hc, Option.map_some]
    | read hp hr | unread hp hr => simp only [hp, hr]
    | compile hp hc | uncompiled hp hc => simp only [hp, hc]
    | store hp hw | unstored hp hw => simp only [hp, hw]
    | stop hp hs hq => simp only [hp, hs, hq, and_self, if_true]

theorem run?_nil : run? r s [] = some s := rfl

theorem run?_cons (a : Action) (actions : List Action) :
    run? r s (a :: actions) = (s.step? r a).bind fun t => run? r t actions := rfl

theorem run?_append (front back : List Action) :
    run? r s (front ++ back) = (run? r s front).bind fun t => run? r t back :=
  List.foldlM_append

theorem run?_concat {front : List Action} {a : Action} :
    run? r s (front ++ [a]) = some t ↔ ∃ u, run? r s front = some u ∧ Step r u a t := by
  rw [run?_append, Option.bind_eq_some_iff]
  simp only [run?_cons, run?_nil, Option.bind_fun_some, step?_eq_some_iff]

/-- What holds of no steps, and with every step also of one step more, holds of a run. -/
theorem run_induction {P : List Action → Session → Prop} {actions : List Action}
    (h : run? r s actions = some t) (start : P [] s)
    (next : ∀ done a u v, done ++ [a] <+: actions → run? r s done = some u → P done u →
      Step r u a v → P (done ++ [a]) v) : P actions t := by
  suffices hrest : ∀ rest done u, done ++ rest = actions → run? r s done = some u → P done u →
      run? r u rest = some t → P actions t from hrest actions [] s rfl rfl start h
  intro rest
  induction rest with
  | nil =>
    intro done u hdone _ hu ht
    cases ht
    rw [List.append_nil] at hdone
    exact hdone ▸ hu
  | cons a rest ih =>
    intro done u hdone hrun hu ht
    rw [run?_cons] at ht
    obtain ⟨v, hv, ht⟩ := Option.bind_eq_some_iff.mp ht
    have hdone' : (done ++ [a]) ++ rest = actions := by rw [← hdone]; simp
    have hstep := step?_eq_some_iff.mp hv
    exact ih (done ++ [a]) v hdone' (run?_concat.mpr ⟨u, hrun, hstep⟩)
      (next done a u v ⟨rest, hdone'⟩ hrun hu hstep) ht

end Session

theorem Recompiler.result_recompile (r : Recompiler) (files : FileTree) :
    (r.recompile files).result = (do
      let script ← (files.read r.input).mapError (.file r.input)
      let text ← (compile r.engine (r.loader files.read) r.limit r.options script).mapError .compile
      (files.write r.output text).mapError (.file r.output)) := by
  simp only [recompile, text, Traced.result_bind, Traced.lift, Traced.tell, Traced.tellAll,
    Traced.result_pure, compile]
  cases (files.read r.input).mapError (RecompileError.file r.input) with
  | error x => rfl
  | ok script =>
    simp only [bind, Except.bind]
    cases (compileTraced r.engine (r.loader files.read) r.limit r.options script).result.mapError
      RecompileError.compile with
    | error x => rfl
    | ok text =>
      dsimp only
      cases (files.write r.output text).mapError (RecompileError.file r.output) <;> rfl

end SqlComposer
