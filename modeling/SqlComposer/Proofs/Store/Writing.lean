import SqlComposer.Directive.Reader
import SqlComposer.Store.FileTree

/-! What writing a file changes: the text that stands in one place, and nothing that a path to
another place meets on its way. -/
namespace SqlComposer.FileTree
variable {t u v : FileTree} {path text : String} {names slot : List String}

def isDirectory (t : FileTree) (names : List String) : Bool :=
  (t.node? names).any Node.isDirectory

/-- The names under which the file of a path is written. -/
def place (t : FileTree) (path : String) : Except FileFault (List String) := do
  checkPath path
  let names := Path.names path
  let above ← names.dropLast.foldlM t.step (origin path)
  match names.getLast? with
  | none => .error .isADirectory
  | some name =>
    if !t.isDirectory above then .error .notADirectory
    else if endsInSlash path || name = "." || name = ".." then .error .isADirectory
    else if isTooLong name then .error .nameTooLong
    else .ok (above ++ [name])

/-- A file is written where its path leads, unless that is a directory. -/
theorem write_eq (t : FileTree) (path text : String) :
    t.write path text = t.place path >>= fun slot =>
      if t.isDirectory slot then .error .isADirectory else .ok (t.put slot (.text text)) := by
  unfold write place
  dsimp only
  cases checkPath path with
  | error x => rfl
  | ok _ =>
    cases (Path.names path).dropLast.foldlM t.step (origin path) with
    | error x => rfl
    | ok above =>
      cases (Path.names path).getLast? with
      | none => rfl
      | some name =>
        simp only [bind, Except.bind, isDirectory]
        grind

theorem write_eq_ok_iff :
    t.write path text = .ok u ↔
      ∃ slot, t.place path = .ok slot ∧ t.isDirectory slot = false ∧
        u = t.put slot (.text text) := by
  rw [write_eq]
  constructor
  · intro h
    obtain ⟨slot, hslot, h⟩ := exists_of_bind_eq_ok h
    split at h
    · cases h
    · next hd => cases h; exact ⟨slot, hslot, by simpa using hd, rfl⟩
  · rintro ⟨slot, hslot, hd, rfl⟩
    rw [hslot]
    show (if t.isDirectory slot then _ else _) = _
    rw [if_neg (by simp [hd])]

theorem place_eq_ok_iff :
    t.place path = .ok slot ↔
      ∃ above name, checkPath path = .ok () ∧
        (Path.names path).dropLast.foldlM t.step (origin path) = .ok above ∧
        (Path.names path).getLast? = some name ∧ t.isDirectory above = true ∧
        (endsInSlash path || name = "." || name = "..") = false ∧ isTooLong name = false ∧
        slot = above ++ [name] := by
  constructor
  · intro h
    obtain ⟨_, hc, h⟩ := exists_of_bind_eq_ok h
    obtain ⟨above, ha, h⟩ := exists_of_bind_eq_ok h
    cases hn : (Path.names path).getLast? with
    | none => rw [hn] at h; cases h
    | some name =>
      simp only [hn] at h
      split at h
      · cases h
      split at h
      · cases h
      split at h
      · cases h
      next hd hs hl =>
        cases h
        exact ⟨above, name, hc, ha, rfl, by simpa using hd, by simpa using hs,
          by simpa using hl, rfl⟩
  · rintro ⟨above, name, hc, ha, hn, hd, hs, hl, rfl⟩
    simp only [place, hc, ha, hn, hd, hs, hl, bind, Except.bind]
    rfl

theorem resolve_of_place (h : t.place path = .ok slot) (hs : (t.node? slot).isSome) :
    t.resolve path = .ok slot := by
  obtain ⟨above, name, hc, ha, hn, hd, hname, hl, rfl⟩ := place_eq_ok_iff.mp h
  simp only [Bool.or_eq_false_iff, decide_eq_false_iff_not] at hname
  have hstep : t.step above name = .ok (above ++ [name]) := by
    unfold step
    rw [isDirectory] at hd
    simp [hd, hname, hl, hs]
  have hnames : Path.names path = (Path.names path).dropLast ++ [name] := by
    obtain ⟨ns, hns⟩ := List.getLast?_eq_some_iff.mp hn
    rw [hns, List.dropLast_concat]
  -- reading takes the way that writing takes, and the last step as well
  unfold resolve
  rw [hc]
  show List.foldlM t.step _ (if endsInSlash path then _ else Path.names path) = _
  rw [hname.1.1, if_neg Bool.false_ne_true, hnames, List.foldlM_append, ha]
  show List.foldlM t.step above [name] = _
  rw [List.foldlM_cons, hstep]
  rfl

/-- A text that stands where a file is written is the text that is read. -/
theorem read_of_place (h : t.place path = .ok slot) (hs : t.node? slot = some (.text text)) :
    t.read path = .ok text := by
  have hr : t.resolve path = .ok slot := resolve_of_place h (by rw [hs]; rfl)
  simp only [read, hr, bind, Except.bind, hs]

/-- The same but for the text that stands in one place, which is not a directory. -/
structure SameBut (slot : List String) (t u : FileTree) : Prop where
  elsewhere : ∀ names, names ≠ slot → u.node? names = t.node? names
  before : t.isDirectory slot = false
  behind : u.isDirectory slot = false
  stays : (t.node? slot).isSome → (u.node? slot).isSome

namespace SameBut

theorem refl (h : t.isDirectory slot = false) : SameBut slot t t :=
  ⟨fun _ _ => rfl, h, h, id⟩

theorem trans (htu : SameBut slot t u) (huv : SameBut slot u v) : SameBut slot t v :=
  ⟨fun names hn => (huv.elsewhere names hn).trans (htu.elsewhere names hn), htu.before,
    huv.behind, huv.stays ∘ htu.stays⟩

end SameBut

theorem isFixed_of_isDirectory (h : t.isDirectory slot = false) : isFixed slot = false := by
  cases hf : isFixed slot with
  | false => rfl
  | true => rw [isDirectory, node?, hf] at h; cases h

theorem node?_put_text (h : t.isDirectory slot = false) :
    (t.put slot (.text text)).node? slot = some (.text text) := by
  rw [node?_put t slot slot _ (isFixed_of_isDirectory h), if_pos rfl]

theorem node?_put_of_ne {node : Node} (h : names ≠ slot) :
    (t.put slot node).node? names = t.node? names := by
  cases hf : isFixed names with
  | true => simp only [node?, hf, if_true]
  | false => rw [node?_put t slot names node hf, if_neg h]

theorem sameBut_put (h : t.isDirectory slot = false) (text : String) :
    SameBut slot t (t.put slot (.text text)) where
  elsewhere _ hn := node?_put_of_ne hn
  before := h
  behind := by rw [isDirectory, node?_put_text h]; rfl
  stays _ := by rw [node?_put_text h]; rfl

namespace SameBut
variable (h : SameBut slot t u)
include h

theorem isDirectory_eq (names : List String) : u.isDirectory names = t.isDirectory names := by
  by_cases hn : names = slot
  · rw [hn, h.before, h.behind]
  · rw [isDirectory, isDirectory, h.elsewhere names hn]

theorem isSome_node? (names : List String) (hs : (t.node? names).isSome) :
    (u.node? names).isSome := by
  by_cases hn : names = slot
  · exact hn ▸ h.stays (hn ▸ hs)
  · rwa [h.elsewhere names hn]

theorem step {name : String} {next : List String} (hs : t.step names name = .ok next) :
    u.step names name = .ok next := by
  have hd := h.isDirectory_eq names
  have hsome := h.isSome_node? (names ++ [name])
  unfold isDirectory at hd
  unfold FileTree.step at hs ⊢
  rw [hd]
  grind

/-- A walk through directories takes the same way. -/
theorem walk {start next : List String} (hw : names.foldlM t.step start = .ok next) :
    names.foldlM u.step start = .ok next := by
  induction names generalizing start with
  | nil => exact hw
  | cons name names ih =>
    rw [List.foldlM_cons] at hw ⊢
    obtain ⟨mid, hmid, hw⟩ := exists_of_bind_eq_ok hw
    rw [h.step hmid]
    exact ih hw

theorem resolve_eq (hr : t.resolve path = .ok names) : u.resolve path = .ok names := by
  unfold resolve at hr ⊢
  obtain ⟨_, hc, hw⟩ := exists_of_bind_eq_ok hr
  rw [hc]
  exact h.walk hw

theorem place_eq (hp : t.place path = .ok names) : u.place path = .ok names := by
  obtain ⟨above, name, hc, ha, hn, hd, hname, hl, rfl⟩ := place_eq_ok_iff.mp hp
  exact place_eq_ok_iff.mpr
    ⟨above, name, hc, h.walk ha, hn, h.isDirectory_eq above ▸ hd, hname, hl, rfl⟩

/-- A text that is read from another place is still read. -/
theorem read_eq (hr : t.read path = .ok text) (hne : t.resolve path ≠ .ok slot) :
    u.read path = .ok text := by
  unfold read at hr ⊢
  obtain ⟨names, hnames, hr⟩ := exists_of_bind_eq_ok hr
  rw [← h.elsewhere names fun hn => hne (hn ▸ hnames)] at hr
  rw [h.resolve_eq hnames]
  exact hr

theorem step_of_ne {name : String} {next : List String} (hs : u.step names name = .ok next)
    (hne : next ≠ slot) : t.step names name = .ok next := by
  have hd := h.isDirectory_eq names
  have helse := h.elsewhere (names ++ [name])
  unfold isDirectory at hd
  unfold FileTree.step at hs ⊢
  rw [← hd]
  grind

/-- What is written to is no directory, so a way that leads elsewhere does not lead through it. -/
theorem walk_of_ne {start next : List String} (hw : names.foldlM u.step start = .ok next)
    (hne : next ≠ slot) : names.foldlM t.step start = .ok next := by
  induction names generalizing start with
  | nil => exact hw
  | cons name names ih =>
    rw [List.foldlM_cons] at hw ⊢
    obtain ⟨mid, hmid, hw⟩ := exists_of_bind_eq_ok hw
    have hmidne : mid ≠ slot := by
      rintro rfl
      cases names with
      | nil => exact hne (Except.ok.inj hw).symm
      | cons name names =>
        rw [List.foldlM_cons] at hw
        obtain ⟨_, hstep, -⟩ := exists_of_bind_eq_ok hw
        have hb := h.behind
        unfold isDirectory at hb
        simp [FileTree.step, hb] at hstep
    rw [h.step_of_ne hmid hmidne]
    exact ih hw

/-- Every path leads where it led before, if it does not lead to what is written to. -/
theorem resolve_iff (hne : names ≠ slot) :
    u.resolve path = .ok names ↔ t.resolve path = .ok names := by
  refine ⟨fun hr => ?_, h.resolve_eq⟩
  unfold resolve at hr ⊢
  obtain ⟨_, hc, hw⟩ := exists_of_bind_eq_ok hr
  rw [hc]
  exact h.walk_of_ne hw hne

end SameBut
end SqlComposer.FileTree
