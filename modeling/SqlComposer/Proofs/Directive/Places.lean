import Mathlib.Logic.Relation
import SqlComposer.Proofs.Directive.Acceptance

/-! The places in a directive block, each with the tokens that lead on from it. The reader goes from
place to place, and it complains where no way leads on, about the token that stands there. -/
namespace SqlComposer

/-- What may come next in a block. -/
inductive Place where
  /-- One token that is asked for. -/
  | asks (what : Expected) (next : Place)
  /-- What a line gives for its key. -/
  | value
  /-- A line, or the next section. -/
  | lines
  /-- The name of a section, behind its bracket. -/
  | head
  /-- In a section that is passed over. -/
  | passing
  /-- Behind the block. -/
  | done

namespace Place

/-- Passing over tokens goes on up to the next bracket; the end and malformed text stop it. -/
def pass : TokenKind → Option Place
  | .punct '[' => some .head
  | .endOfInput => none
  | .fault _ => none
  | _ => some .passing

/-- Behind the value of a line. A reference has its target yet to come. -/
def behindValue (k : TokenKind) : Place :=
  match Source.ofWord? k with
  | none => .lines
  | some _ => .asks .openParen (.asks .string (.asks .closeParen .lines))

/-- Where a token leads to, if it leads on. -/
def step : Place → TokenKind → Option Place
  | .asks what next, k => if what.accepts k then some next else none
  | .value, k => if Expected.value.accepts k then some (behindValue k) else none
  | .lines, .punct '-' => some (.asks .key (.asks .colon .value))
  | .lines, .punct '[' => some .head
  | .lines, _ => none
  | .head, .keyword .sqlmEnd => some (.asks .closeBracket .done)
  | .head, .keyword (.environment _) => some (.asks .closeBracket .lines)
  | .head, k => pass k
  | .passing, k => pass k
  | .done, _ => some .done

/-- Where a block begins. -/
def start : Place :=
  .asks .openBracket (.asks (.keyword .sqlmBegin) (.asks .closeBracket
    (.asks .openBracket (.asks (.keyword .script) (.asks .closeBracket .passing)))))

def run : Place → List Token → Option Place
  | q, [] => some q
  | q, t :: ts => (q.step t.kind).bind (run · ts)

theorem run_cons_of_step {q q' : Place} {t : Token} (h : q.step t.kind = some q')
    (ts : List Token) : q.run (t :: ts) = q'.run ts := by
  rw [run, h]; rfl

theorem run_append (q : Place) (ts us : List Token) :
    q.run (ts ++ us) = (q.run ts).bind (run · us) := by
  induction ts generalizing q with
  | nil => rfl
  | cons t ts ih =>
    rw [List.cons_append, run, run]
    cases q.step t.kind with
    | none => rfl
    | some q' => exact ih q'

theorem run_done (ts : List Token) : Place.done.run ts = some .done := by
  induction ts with
  | nil => rfl
  | cons t ts ih => exact ih

/-- Where the next token does not lead on, the end of the block cannot be reached. -/
theorem run_ne_done {q : Place} {s : TokenStream} (h : q.step s.current.kind = none) :
    q.run s.pending ≠ some .done := by
  obtain ⟨_ | ⟨t, ts⟩, p⟩ := s
  · rintro ⟨⟩
    cases h
  · rw [TokenStream.current_cons] at h
    rw [run, h]
    rintro ⟨⟩

end Place

/-- A kind of token that is accepted. -/
def Expected.sample : Expected → TokenKind
  | .openBracket => .punct '['
  | .closeBracket => .punct ']'
  | .dash => .punct '-'
  | .colon => .punct ':'
  | .openParen => .punct '('
  | .closeParen => .punct ')'
  | .keyword w => .keyword w
  | .string => .string
  | .key => .identifier
  | .value => .string

theorem Expected.accepts_sample (what : Expected) : what.accepts what.sample = true := by
  cases what <;> simp [accepts, sample]

/-- A token of a kind, somewhere. -/
def TokenKind.sample (k : TokenKind) : Token :=
  match k with
  | .punct c => ⟨k, String.singleton c, {}⟩
  | .keyword w => ⟨k, w.spelling, {}⟩
  | _ => ⟨k, "a", {}⟩

theorem TokenKind.kind_sample (k : TokenKind) : k.sample.kind = k := by
  cases k <;> rfl

/-- A kind of token that a block may have in it, in the right place. -/
def TokenKind.IsPlain (k : TokenKind) : Prop :=
  k ≠ .comment ∧ k ≠ .endOfInput ∧ ∀ f, k ≠ .fault f

namespace Place

/-- The shortest way to the end of the block. -/
def wayOut : Place → List TokenKind
  | .asks what next => what.sample :: next.wayOut
  | .value => [.string, .punct '[', .keyword .sqlmEnd, .punct ']']
  | .lines | .passing => [.punct '[', .keyword .sqlmEnd, .punct ']']
  | .head => [.keyword .sqlmEnd, .punct ']']
  | .done => []

theorem run_wayOut (q : Place) : q.run (q.wayOut.map TokenKind.sample) = some .done := by
  induction q with
  | asks what next ih =>
    have hstep : (asks what next).step what.sample.sample.kind = some next := by
      rw [TokenKind.kind_sample, step, if_pos what.accepts_sample]
    rw [wayOut, List.map_cons, run_cons_of_step hstep, ih]
  | _ => rfl

theorem isPlain_wayOut (q : Place) : ∀ k ∈ q.wayOut, k.IsPlain := by
  induction q with
  | asks what next ih =>
    refine List.forall_mem_cons.2 ⟨?_, ih⟩
    cases what <;> simp [TokenKind.IsPlain, Expected.sample]
  | _ => simp [wayOut, TokenKind.IsPlain]

end Place

/-- A complaint is about a token. It tells where the token starts, it reports the fault of malformed
text and of no other, and what it has found is the token. -/
structure ParseError.IsAbout (e : ParseError) (t : Token) : Prop where
  start : e.start = t.start
  lex : ∀ f, e.fault = .lex f ↔ t.kind = .fault f
  found : ∀ what found, e.fault = .expected what found →
    found = t.describe ∧ (found = none ↔ t.kind = .endOfInput)
  unterminated : e.fault = .unterminatedBlock → t.kind = .endOfInput

namespace ParseError

theorem isAbout_lex {t : Token} {f : LexFault} (h : t.kind = .fault f) :
    IsAbout ⟨.lex f, t.start⟩ t :=
  ⟨rfl, fun g => by simp [h], fun _ _ hf => (by cases hf), fun hf => (by cases hf)⟩

theorem isAbout_unexpected (what : Expected) (t : Token) : (unexpected what t).IsAbout t := by
  unfold unexpected
  split
  · exact isAbout_lex ‹_›
  · rename_i hno
    refine ⟨rfl, fun f => ⟨fun hf => (by cases hf), fun hf => absurd hf (hno f)⟩, ?_,
      fun hf => (by cases hf)⟩
    rintro _ _ ⟨⟩
    exact ⟨rfl, t.describe_eq_none_iff⟩

theorem isAbout_unterminated {t : Token} (h : t.kind = .endOfInput) :
    IsAbout ⟨.unterminatedBlock, t.start⟩ t :=
  ⟨rfl, fun f => by simp [h], fun _ _ hf => (by cases hf), fun _ => h⟩

end ParseError

/-- A reader at a place, with the tokens that it has before it. -/
structure Spot where
  place : Place
  stream : TokenStream

namespace Spot
variable {α β : Type} {c d : Spot} {e : ParseError}

/-- One step on, along a token that leads on. -/
structure Step (c d : Spot) : Prop where
  more : c.stream.current.kind ≠ .endOfInput
  place : c.place.step c.stream.current.kind = some d.place
  stream : d.stream = c.stream.next

def Leads : Spot → Spot → Prop := Relation.ReflTransGen Step

/-- The tokens lead to a spot from which no way leads on, and a complaint is about the token that
stands there. -/
def Stops (c : Spot) (e : ParseError) : Prop :=
  ∃ d, c.Leads d ∧ d.place.step d.stream.current.kind = none ∧ e.IsAbout d.stream.current

/-- What a reader does agrees with the ways between places. -/
def Follows (c : Spot) (x : Except ParseError α) (post : α → Spot → Prop) : Prop :=
  match x with
  | .ok a => ∃ d, c.Leads d ∧ post a d
  | .error e => c.Stops e

theorem Leads.stops (h : c.Leads d) (hd : d.Stops e) : c.Stops e := by
  obtain ⟨d', hd', hstop⟩ := hd
  exact ⟨d', h.trans hd', hstop⟩

theorem Leads.follows {x : Except ParseError α} {post : α → Spot → Prop} (h : c.Leads d)
    (hd : d.Follows x post) : c.Follows x post := by
  cases x with
  | error e => exact h.stops hd
  | ok a =>
    obtain ⟨d', hd', hpost⟩ := hd
    exact ⟨d', h.trans hd', hpost⟩

theorem Leads.next {q q' : Place} {s : TokenStream} (h : c.Leads ⟨q, s⟩)
    (hend : s.current.kind ≠ .endOfInput) (hq : q.step s.current.kind = some q') :
    c.Leads ⟨q', s.next⟩ := h.tail ⟨hend, hq, rfl⟩

theorem Follows.bind {x : Except ParseError α} {f : α → Except ParseError β}
    {post : α → Spot → Prop} {post' : β → Spot → Prop} (h : c.Follows x post)
    (hf : ∀ a d, post a d → d.Follows (f a) post') : c.Follows (x >>= f) post' := by
  cases x with
  | error e => exact h
  | ok a =>
    obtain ⟨d, hd, hpost⟩ := h
    exact hd.follows (hf a d hpost)

theorem Follows.map {x : Except ParseError α} {f : α → β} {post : α → Spot → Prop}
    {post' : β → Spot → Prop} (h : c.Follows x post) (hf : ∀ a d, post a d → post' (f a) d) :
    c.Follows (x.map f) post' := by
  cases x with
  | error e => exact h
  | ok a =>
    obtain ⟨d, hd, hpost⟩ := h
    exact ⟨d, hd, hf a d hpost⟩

theorem follows_ok {a : α} {post : α → Spot → Prop} (h : post a c) : c.Follows (.ok a) post :=
  ⟨c, .refl, h⟩

/-- Along the tokens to another spot the places are run through. -/
theorem Leads.exists_run (h : c.Leads d) : ∃ front, c.stream.pending = front ++ d.stream.pending ∧
    c.stream.finish = d.stream.finish ∧ c.place.run front = some d.place := by
  induction h using Relation.ReflTransGen.head_induction_on with
  | refl => exact ⟨[], rfl, rfl, rfl⟩
  | @head c c' hstep _ ih =>
    obtain ⟨q, ⟨_ | ⟨t, ts⟩, p⟩⟩ := c
    · exact absurd rfl hstep.more
    · obtain ⟨front, hpending, hfinish, hrun⟩ := ih
      rw [hstep.stream, TokenStream.next_cons] at hpending hfinish
      exact ⟨t :: front, congrArg (t :: ·) hpending, hfinish,
        (Place.run_cons_of_step hstep.place front).trans hrun⟩

end Spot

end SqlComposer
