import Mathlib.Data.List.Infix
import SqlComposer.Template.Engine
import SqlComposer.Text.WhiteSpace

/-! What is known of an engine: what it makes of text outside tags, what a placeholder with a name in it
leaves, and which names a placeholder can ask for. Of all else that a tag may hold nothing is known. -/
namespace SqlComposer.Template

namespace Settings

def marks (s : Settings) : List Marks := [s.block, s.placeholder, s.comment]

/-- An engine can tell the tags apart. -/
structure Valid (s : Settings) : Prop where
  nonempty : ∀ m ∈ s.marks, m.opening ≠ "" ∧ m.closing ≠ ""
  apart : (s.marks.map (·.opening)).Nodup

/-- No tag opens in `front`, not even one whose mark runs on into `rest`. -/
def PlainBefore (s : Settings) (rest front : List Char) : Prop :=
  ∀ m ∈ s.marks, ∀ cs, cs <:+ front → cs ≠ [] → ¬ m.opening.toList <+: cs ++ rest

/-- Double braces mark placeholders, and they open nothing else. -/
structure BracesNames (s : Settings) : Prop where
  placeholder : s.placeholder = ⟨"\x7b\x7b", "\x7d\x7d"⟩
  others : ∀ m ∈ [s.block, s.comment], ¬ ['\x7b', '\x7b'] <+: m.opening.toList

end Settings

theorem valid_settings : settings.Valid := ⟨by decide, by decide⟩

theorem bracesNames_settings : settings.BracesNames := ⟨rfl, by decide +kernel⟩

/-- No white space can be taken away from the end. -/
def EndsSolidly (front : List Char) : Prop := ∀ c ∈ front.getLast?, Text.isWhiteSpace c = false

namespace Engine

/-- Text without tags comes out as it is, with its last line feed if that is to be kept. -/
def KeepsText (engine : Engine) (s : Settings) : Prop :=
  s.Valid → s.keepsLastLineFeed = true → ∀ (context : Bindings) (text : String),
    s.PlainBefore [] text.toList → engine.render s context text = .ok text

/-- So does the text in front of the first tag, whatever the rest comes to. A tag may take white space
away in front of it, but nothing else. -/
def KeepsFronts (engine : Engine) (s : Settings) : Prop :=
  s.Valid → ∀ (context : Bindings) (front rest : String),
    s.PlainBefore rest.toList front.toList → EndsSolidly front.toList →
    engine.render s context (front ++ rest) = (engine.render s context rest).map (front ++ ·)

/-- In the place of a placeholder with a name in it stands what the name is bound to, and nothing if it
is not bound. -/
def FillsIn (engine : Engine) (s : Settings) : Prop :=
  s.Valid → s.BracesNames → ∀ (context : Bindings) (front before name after rest : String),
    let tag := "\x7b\x7b" ++ before ++ name ++ after ++ "\x7d\x7d"
    s.PlainBefore (tag ++ rest).toList front.toList →
    (∀ c ∈ before.toList, isSeparator c = true) → (∀ c ∈ after.toList, isSeparator c = true) →
    isAddressable name = true → (name ∈ predefined → (context.get? name).isSome) →
    engine.render s context (front ++ (tag ++ rest)) =
      (engine.render s context rest).map (front ++ (context.get? name).getD "" ++ ·)

/-- A placeholder asks for names alone. What is bound to a text of another form makes no difference where
that text stands in a placeholder, unless it calls a function: one of these shows all that is bound. -/
def AsksForNames (engine : Engine) (s : Settings) : Prop :=
  s.Valid → s.BracesNames → ∀ (context : Bindings) (name value : String),
    isAddressable name = false → '(' ∉ name.toList →
    engine.render s (context.insert name value) (placeholder name) =
      engine.render s context (placeholder name)

end Engine

variable {engine : Engine} {c : Char} {cs front rest : List Char} {context : Bindings}

theorem isName_iff (s : String) : isName s = true ↔
    ∃ c cs, s.toList = c :: cs ∧ startsName c = true ∧ ∀ x ∈ cs, isNamePart x = true := by
  unfold isName
  cases s.toList with
  | nil => simp
  | cons c cs =>
    rw [Bool.and_eq_true, List.all_eq_true]
    constructor
    · exact fun h => ⟨c, cs, rfl, h⟩
    · rintro ⟨d, ds, hd, h⟩
      cases hd
      exact h

theorem isAddressable_iff (s : String) :
    isAddressable s = true ↔ isName s = true ∧ s ∉ reserved := by
  simp [isAddressable]

/-- No tag opens in a text: nowhere in it are two braces side by side, or a brace behind a NUL. -/
structure Untagged (cs : List Char) : Prop where
  braces : ¬ ['\x7b', '\x7b'] <:+: cs
  mark : ¬ ['\x00', '\x7b'] <:+: cs

instance : DecidablePred Untagged := fun _ => decidable_of_iff (_ ∧ _) ⟨fun h => ⟨h.1, h.2⟩,
  fun h => ⟨h.braces, h.mark⟩⟩

theorem Untagged.of_infix (h : Untagged cs) (hfront : front <:+: cs) : Untagged front :=
  ⟨fun hb => h.braces (hb.trans hfront), fun hm => h.mark (hm.trans hfront)⟩

/-- The last character keeps what stands behind it apart: no tag starts with it, and it is not taken
away with white space. -/
def EndsFirmly (front : List Char) : Prop :=
  ∀ c ∈ front.getLast?, c ≠ '\x7b' ∧ c ≠ '\x00' ∧ Text.isWhiteSpace c = false

theorem exists_of_mem_marks {m : Marks} (h : m ∈ settings.marks) :
    ∃ x tail, m.opening.toList = x :: '\x7b' :: tail ∧ (x = '\x7b' ∨ x = '\x00') := by
  obtain rfl | rfl | rfl : m = settings.block ∨ m = settings.placeholder ∨ m = settings.comment := by
    simpa [Settings.marks] using h
  · exact ⟨'\x00', ['%'], by decide +kernel, .inr rfl⟩
  · exact ⟨'\x7b', [], by decide +kernel, .inl rfl⟩
  · exact ⟨'\x00', ['#'], by decide +kernel, .inr rfl⟩

/-- A mark that opens in untagged text begins with its last character. -/
theorem Untagged.eq_singleton (h : Untagged front) {m : Marks} (hm : m ∈ settings.marks)
    (hcs : cs <:+ front) (hne : cs ≠ []) (hopen : m.opening.toList <+: cs ++ rest) :
    ∃ x, cs = [x] ∧ (x = '\x7b' ∨ x = '\x00') ∧ rest ≠ [] := by
  obtain ⟨x, tail, hopening, hx⟩ := exists_of_mem_marks hm
  obtain ⟨c, ds, rfl⟩ := List.exists_cons_of_ne_nil hne
  rw [hopening, List.cons_append, List.cons_prefix_cons] at hopen
  obtain ⟨rfl, hopen⟩ := hopen
  cases ds with
  | nil =>
    refine ⟨x, rfl, hx, ?_⟩
    rintro rfl
    exact List.cons_ne_nil _ _ (List.prefix_nil.1 hopen)
  | cons d ds =>
    rw [List.cons_append, List.cons_prefix_cons] at hopen
    obtain ⟨rfl, -⟩ := hopen
    have hpair : [x, '\x7b'] <:+: front :=
      (List.IsPrefix.isInfix ⟨ds, rfl⟩).trans hcs.isInfix
    obtain rfl | rfl := hx
    · exact absurd hpair h.braces
    · exact absurd hpair h.mark

theorem Untagged.plainBefore_nil (h : Untagged front) : settings.PlainBefore [] front := by
  intro m hm cs hcs hne hopen
  obtain ⟨-, -, -, hnil⟩ := h.eq_singleton hm hcs hne hopen
  exact hnil rfl

theorem Untagged.plainBefore (h : Untagged front)
    (hlast : ∀ c ∈ front.getLast?, c ≠ '\x7b' ∧ c ≠ '\x00') (rest : List Char) :
    settings.PlainBefore rest front := by
  intro m hm cs hcs hne hopen
  obtain ⟨x, rfl, hx, -⟩ := h.eq_singleton hm hcs hne hopen
  obtain ⟨front, rfl⟩ := hcs
  obtain ⟨hbrace, hnul⟩ := hlast x (by simp)
  exact hx.elim hbrace hnul

theorem render_of_untagged (hengine : engine.KeepsText settings) {text : String}
    (h : Untagged text.toList) : render engine context text = .ok text :=
  hengine valid_settings rfl context text h.plainBefore_nil

/-- A firm front without tags is put before what the rest renders to, and nothing in it makes
rendering fail. -/
theorem render_append (hengine : engine.KeepsFronts settings) (h : Untagged front)
    (hfirm : EndsFirmly front) (rest : List Char) :
    render engine context (String.ofList (front ++ rest)) =
      (render engine context (String.ofList rest)).map (String.ofList front ++ ·) := by
  rw [String.ofList_append]
  refine hengine valid_settings context _ _ ?_ ?_
  · rw [String.toList_ofList, String.toList_ofList]
    exact h.plainBefore (fun c hc => ⟨(hfirm c hc).1, (hfirm c hc).2.1⟩) rest
  · rw [String.toList_ofList]
    exact fun c hc => (hfirm c hc).2.2

end SqlComposer.Template
