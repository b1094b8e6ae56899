/-! Computations that may fail and tell on the way what they do. What was told before a failure
is kept. A sequence of two tells what the first tells and then, if there is a second, what that
tells; its result is the sequence of the results. -/
namespace SqlComposer

/-- Events in the order in which they happen, and a result. -/
structure Traced (ω ε α : Type) where
  events : List ω
  result : Except ε α

namespace Traced
variable {ω ε α β : Type}

/-- Goes on with the result, if there is one. -/
def andThen (x : Traced ω ε α) (f : α → Traced ω ε β) : Traced ω ε β :=
  match x.result with
  | .error e => ⟨x.events, .error e⟩
  | .ok a => ⟨x.events ++ (f a).events, (f a).result⟩

instance : Monad (Traced ω ε) where
  pure a := ⟨[], .ok a⟩
  bind := andThen

def tell (e : ω) : Traced ω ε Unit := ⟨[e], .ok ()⟩

def tellAll (es : List ω) : Traced ω ε Unit := ⟨es, .ok ()⟩

def lift (r : Except ε α) : Traced ω ε α := ⟨[], r⟩

def fail (e : ε) : Traced ω ε α := ⟨[], .error e⟩

/-- Tells of a failure, if there is one. -/
def onError (x : Traced ω ε α) (event : ε → ω) : Traced ω ε α :=
  match x.result with
  | .error e => ⟨x.events ++ [event e], .error e⟩
  | .ok _ => x

@[simp] theorem result_pure (a : α) : (pure a : Traced ω ε α).result = .ok a := rfl

@[simp] theorem events_pure (a : α) : (pure a : Traced ω ε α).events = [] := rfl

@[simp] theorem result_bind (x : Traced ω ε α) (f : α → Traced ω ε β) :
    (x >>= f).result = x.result >>= fun a => (f a).result := by
  show (andThen x f).result = _
  unfold andThen
  cases x.result <;> rfl

@[simp] theorem events_bind (x : Traced ω ε α) (f : α → Traced ω ε β) :
    (x >>= f).events = x.events ++
      match x.result with
      | .error _ => []
      | .ok a => (f a).events := by
  show (andThen x f).events = _
  unfold andThen
  cases x.result <;> simp

@[simp] theorem result_onError (x : Traced ω ε α) (event : ε → ω) :
    (x.onError event).result = x.result := by
  unfold onError; split <;> simp_all

theorem events_onError (x : Traced ω ε α) (event : ε → ω) :
    (x.onError event).events = x.events ++
      match x.result with
      | .error e => [event e]
      | .ok _ => [] := by
  unfold onError; split <;> simp_all

end Traced
end SqlComposer
