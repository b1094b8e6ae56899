import SqlComposer.Proofs.Template.Laws

/-! What a template becomes that starts with text and with placeholders that have names in them. Each
value is put in as it is, and nothing in it is read again. -/
namespace SqlComposer.Template

/-- Text without any mark of a tag. -/
structure Plain where
  text : String
  braces : ¬ ['\x7b', '\x7b'] <:+: text.toList
  mark : '\x00' ∉ text.toList

/-- Text, and behind it a placeholder with blanks around its key. The text does not run into the
braces, and the key always stands for what it is bound to. -/
structure Slot extends Plain where
  before : String
  key : String
  after : String
  apart : text.toList.getLast? ≠ some '\x7b'
  blank_before : ∀ c ∈ before.toList, isSeparator c = true
  blank_after : ∀ c ∈ after.toList, isSeparator c = true
  addressable : isAddressable key = true
  free : key ∉ predefined

def Slot.tag (s : Slot) : String := "\x7b\x7b" ++ s.before ++ s.key ++ s.after ++ "\x7d\x7d"

/-- The template of some slots and what stands behind them. -/
def written : List Slot → String → String
  | [], rest => rest
  | s :: slots, rest => s.text ++ (s.tag ++ written slots rest)

/-- That template with values in it; a key without a value leaves nothing. -/
def filled (context : Bindings) : List Slot → String → String
  | [], rest => rest
  | s :: slots, rest => s.text ++ (context.get? s.key).getD "" ++ filled context slots rest

variable {engine : Engine} {context : Bindings} {name value script out : String}

theorem Plain.untagged (p : Plain) : Untagged p.text.toList where
  braces := p.braces
  mark h := p.mark (h.subset List.mem_cons_self)

theorem Slot.last (s : Slot) : ∀ c ∈ s.text.toList.getLast?, c ≠ '\x7b' ∧ c ≠ '\x00' := by
  intro c hc
  constructor
  · rintro rfl
    exact s.apart hc
  · rintro rfl
    exact s.mark (List.mem_of_getLast? hc)

theorem written_append (slots slots' : List Slot) (rest : String) :
    written (slots ++ slots') rest = written slots (written slots' rest) := by
  induction slots with
  | nil => rfl
  | cons s slots ih => rw [List.cons_append, written, ih]; rfl

theorem render_slot (hengine : engine.FillsIn settings) (context : Bindings) (s : Slot)
    (rest : String) : render engine context (s.text ++ (s.tag ++ rest)) =
      (render engine context rest).map (s.text ++ (context.get? s.key).getD "" ++ ·) :=
  hengine valid_settings bracesNames_settings context s.text s.before s.key s.after rest
    (s.untagged.plainBefore s.last _) s.blank_before s.blank_after s.addressable
    fun h => absurd h s.free

/-- Rendering goes over the slots once, whatever stands behind them. -/
theorem render_written (hengine : engine.FillsIn settings) (context : Bindings) (slots : List Slot)
    (rest : String) : render engine context (written slots rest) =
      (render engine context rest).map (filled context slots) := by
  induction slots with
  | nil =>
    rw [written]
    cases render engine context rest <;> rfl
  | cons s slots ih =>
    rw [written, render_slot hengine, ih]
    cases render engine context rest <;> rfl

theorem render_template (hengine : engine.FillsIn settings) (htext : engine.KeepsText settings)
    (context : Bindings) (slots : List Slot) (last : Plain) :
    render engine context (written slots last.text) = .ok (filled context slots last.text) := by
  rw [render_written hengine, render_of_untagged htext last.untagged]
  rfl

-- braces on both sides of a placeholder, and one in the place of its value
example : ∃ (s : Slot) (last : Plain),
    written [s] last.text = "x \x7d \x7b% \x7b\x7b\tk\x7d\x7d\x7d \x7b" ∧
      filled (.ofList [("k", "\x7b\x7bk\x7d\x7d")]) [s] last.text =
        "x \x7d \x7b% \x7b\x7bk\x7d\x7d\x7d \x7b" :=
  ⟨⟨⟨"x \x7d \x7b% ", by decide +kernel, by decide +kernel⟩, "\t", "k", "", by decide +kernel,
      by simp [isSeparator], by simp, by decide +kernel, by decide⟩,
    ⟨"\x7d \x7b", by decide +kernel, by decide +kernel⟩, by decide +kernel, by decide +kernel⟩

/-- The placeholder of a name stands in a script, behind nothing but text and other placeholders. -/
def Shows (name script : String) : Prop :=
  ∃ (slots : List Slot) (s : Slot) (rest : String),
    s.key = name ∧ script = written (slots ++ [s]) rest

theorem filled_append (context : Bindings) (slots slots' : List Slot) (rest : String) :
    filled context (slots ++ slots') rest = filled context slots (filled context slots' rest) := by
  induction slots with
  | nil => rfl
  | cons s slots ih => rw [List.cons_append, filled, ih]; rfl

theorem suffix_filled (context : Bindings) (slots : List Slot) (rest : String) :
    rest.toList <:+ (filled context slots rest).toList := by
  induction slots with
  | nil => exact List.suffix_rfl
  | cons s slots ih =>
    rw [filled, String.toList_append]
    exact ih.trans (List.suffix_append ..)

theorem Shows.stands_in (hengine : engine.FillsIn settings) (h : Shows name script)
    (hr : render engine context script = .ok out) (hv : context.get? name = some value) :
    value.toList <:+: out.toList := by
  obtain ⟨slots, s, rest, rfl, rfl⟩ := h
  rw [render_written hengine] at hr
  cases hrest : render engine context rest with
  | error x =>
    rw [hrest] at hr
    cases hr
  | ok below =>
    rw [hrest] at hr
    cases hr
    have hvalue : filled context [s] below = s.text ++ value ++ below := by rw [filled, hv]; rfl
    have hin : value.toList <:+: (filled context [s] below).toList := by
      rw [hvalue, String.toList_append, String.toList_append]
      exact ⟨_, _, rfl⟩
    rw [filled_append]
    exact hin.trans (suffix_filled ..).isInfix

/-- A template shows the keys of its slots. -/
theorem shows_written {slots : List Slot} {s : Slot} (hs : s ∈ slots) (rest : String) :
    Shows s.key (written slots rest) := by
  obtain ⟨before, after, rfl⟩ := List.append_of_mem hs
  refine ⟨before, s, written after rest, rfl, ?_⟩
  rw [← written_append, List.append_assoc, List.singleton_append]

/-- A placeholder leaves the value of its name, between whatever stands before and behind it. -/
theorem render_placeholder (hengine : engine.FillsIn settings) (h : isAddressable name = true)
    (hv : context.get? name = some value) (front : String) (hfront : Untagged front.toList)
    (hlast : ∀ c ∈ front.toList.getLast?, c ≠ '\x7b' ∧ c ≠ '\x00') (rest : String) :
    render engine context (front ++ (placeholder name ++ rest)) =
      (render engine context rest).map (front ++ value ++ ·) := by
  have hblank : ∀ c ∈ " ".toList, isSeparator c = true := by simp [isSeparator]
  have htag : placeholder name = "\x7b\x7b" ++ " " ++ name ++ " " ++ "\x7d\x7d" := by
    rw [← String.toList_inj]
    simp [placeholder]
  rw [htag]
  have hfill := hengine valid_settings bracesNames_settings context front " " name " " rest
    (hfront.plainBefore hlast _) hblank hblank h fun _ => by rw [hv]; rfl
  rw [hv] at hfill
  exact hfill

theorem render_addressable (hengine : engine.FillsIn settings) (htext : engine.KeepsText settings)
    (h : isAddressable name = true) (hv : context.get? name = some value) :
    render engine context (placeholder name) = .ok value := by
  have hempty : render engine context "" = .ok "" := render_of_untagged htext (by decide +kernel)
  have hrender := render_placeholder hengine h hv "" (by decide +kernel) (by simp) ""
  rw [hempty, String.empty_append, String.append_empty] at hrender
  rw [hrender]
  simp [Except.map]

end SqlComposer.Template
