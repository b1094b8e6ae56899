/-! Bindings of names to texts. They are kept in the order of their names, so bindings that look
up alike are equal; inserting, overlaying and looking up speak of them through `get?` alone. -/
namespace SqlComposer

/-- Texts under distinct names, in the order of the names. -/
structure Bindings where
  entries : List (String × String)
  sorted : entries.Pairwise (·.1 < ·.1)
  deriving DecidableEq

namespace Bindings

def empty : Bindings := ⟨[], .nil⟩

instance : Inhabited Bindings := ⟨empty⟩

/-- The text under a name. -/
def get? (b : Bindings) (name : String) : Option String := b.entries.lookup name

/-- Puts a text under a name, in place of what was there. -/
def insertEntry (name text : String) : List (String × String) → List (String × String)
  | [] => [(name, text)]
  | (n, t) :: rest =>
    if name < n then (name, text) :: (n, t) :: rest
    else if name = n then (name, text) :: rest
    else (n, t) :: insertEntry name text rest

theorem mem_insertEntry {name text : String} {es : List (String × String)}
    {e : String × String} (h : e ∈ insertEntry name text es) : e.1 = name ∨ e ∈ es := by
  fun_induction insertEntry name text es <;> grind

theorem lt_of_not_lt {a b : String} (h : ¬ a < b) (hne : a ≠ b) : b < a :=
  String.not_le.1 fun hle => hne (String.le_antisymm hle (String.not_lt.1 h))

theorem sorted_insertEntry (name text : String) {es : List (String × String)}
    (h : es.Pairwise (·.1 < ·.1)) : (insertEntry name text es).Pairwise (·.1 < ·.1) := by
  fun_induction insertEntry name text es with
  | case1 => exact .cons (by simp) .nil
  | case2 n t rest hlt =>
    refine .cons ?_ h
    intro e he
    rcases List.mem_cons.1 he with rfl | he
    · exact hlt
    · exact String.lt_trans hlt ((List.pairwise_cons.1 h).1 e he)
  | case3 t rest hlt =>
    obtain ⟨h₁, h₂⟩ := List.pairwise_cons.1 h
    exact .cons h₁ h₂
  | case4 n t rest hlt hne ih =>
    obtain ⟨h₁, h₂⟩ := List.pairwise_cons.1 h
    refine .cons (fun e he => ?_) (ih h₂)
    rcases mem_insertEntry he with hn | he
    · exact hn ▸ lt_of_not_lt hlt hne
    · exact h₁ e he

def insert (b : Bindings) (name text : String) : Bindings :=
  ⟨insertEntry name text b.entries, sorted_insertEntry name text b.sorted⟩

/-- Inserts from left to right, so the last text of a name stays. -/
def insertAll (b : Bindings) (es : List (String × String)) : Bindings :=
  es.foldl (fun b e => b.insert e.1 e.2) b

def ofList (es : List (String × String)) : Bindings := empty.insertAll es

/-- Both bindings together; where both bind a name, `top` decides. -/
def overlay (base top : Bindings) : Bindings := base.insertAll top.entries

@[simp] theorem get?_empty (name : String) : empty.get? name = none := rfl

theorem lookup_insertEntry (name text other : String) {es : List (String × String)}
    (h : es.Pairwise (·.1 < ·.1)) :
    (insertEntry name text es).lookup other =
      if other = name then some text else es.lookup other := by
  fun_induction insertEntry name text es with
  | case1 => simp [List.lookup_cons]; split <;> simp_all
  | case2 n t rest hlt => simp [List.lookup_cons]; split <;> simp_all
  | case3 t rest hlt => simp [List.lookup_cons]; split <;> simp_all
  | case4 n t rest hlt hne ih =>
    simp only [List.lookup_cons, ih (List.pairwise_cons.1 h).2]
    by_cases ho : other = name
    · have hb : (name == n) = false := by simpa using hne
      simp [ho, hb]
    · simp [ho]

theorem get?_insert (b : Bindings) (name text other : String) :
    (b.insert name text).get? other = if other = name then some text else b.get? other :=
  lookup_insertEntry name text other b.sorted

/-- A later entry of a list counts more than an earlier one, and any more than what was there. -/
theorem get?_insertAll (b : Bindings) (es : List (String × String)) (name : String) :
    (b.insertAll es).get? name = (es.reverse.lookup name).or (b.get? name) := by
  induction es generalizing b with
  | nil => simp [insertAll]
  | cons e es ih =>
    have hl : (e :: es).reverse.lookup name =
        (es.reverse.lookup name).or (if name = e.1 then some e.2 else none) := by
      rw [List.reverse_cons, List.lookup_append]
      obtain ⟨n, t⟩ := e
      by_cases h : name = n <;> simp [h]
    show ((b.insert e.1 e.2).insertAll es).get? name = _
    rw [ih, get?_insert, hl, Option.or_assoc]
    congr 1
    split <;> simp

theorem lookup_eq_none_of_lt {name : String} {es : List (String × String)}
    (h : ∀ e ∈ es, name < e.1) : es.lookup name = none := by
  refine List.lookup_eq_none_iff.2 fun e he => ?_
  have hlt := h e he
  rw [bne_iff_ne]
  intro heq
  exact String.lt_irrefl _ (heq ▸ hlt)

/-- Names are distinct, so the direction of the search does not matter. -/
theorem lookup_reverse {es : List (String × String)} (h : es.Pairwise (·.1 < ·.1))
    (name : String) : es.reverse.lookup name = es.lookup name := by
  induction es with
  | nil => rfl
  | cons e es ih =>
    obtain ⟨n, t⟩ := e
    obtain ⟨h₁, h₂⟩ := List.pairwise_cons.1 h
    rw [List.reverse_cons, List.lookup_append, ih h₂]
    by_cases hn : name = n
    · subst hn; simp [lookup_eq_none_of_lt h₁]
    · have hb : (name == n) = false := by simpa using hn
      simp [List.lookup_cons, hb]

theorem get?_overlay (base top : Bindings) (name : String) :
    (base.overlay top).get? name = (top.get? name).or (base.get? name) := by
  rw [overlay, get?_insertAll, lookup_reverse top.sorted]; rfl

/-- Sorted entries that look up alike are equal. -/
theorem eq_of_lookup_eq {xs ys : List (String × String)} (hx : xs.Pairwise (·.1 < ·.1))
    (hy : ys.Pairwise (·.1 < ·.1)) (h : ∀ name, xs.lookup name = ys.lookup name) : xs = ys := by
  have hno : ∀ {n m : String} {u : String} {zs : List (String × String)}, n < m →
      (∀ e ∈ zs, m < e.1) → ((m, u) :: zs).lookup n = none := fun hlt hz =>
    lookup_eq_none_of_lt fun e he => by
      rcases List.mem_cons.1 he with rfl | he
      · exact hlt
      · exact String.lt_trans hlt (hz e he)
  induction xs generalizing ys with
  | nil =>
    cases ys with
    | nil => rfl
    | cons y ys => obtain ⟨m, u⟩ := y; simpa using h m
  | cons x xs ih =>
    obtain ⟨n, t⟩ := x
    cases ys with
    | nil => simpa using h n
    | cons y ys =>
      obtain ⟨m, u⟩ := y
      obtain ⟨hx₁, hx₂⟩ := List.pairwise_cons.1 hx
      obtain ⟨hy₁, hy₂⟩ := List.pairwise_cons.1 hy
      have hnm : n = m := by
        by_cases hlt : n < m
        · simpa [hno hlt hy₁] using h n
        · by_cases heq : n = m
          · exact heq
          · simpa [hno (lt_of_not_lt hlt heq) hx₁] using h m
      subst hnm
      have htu : t = u := by simpa using h n
      subst htu
      congr 1
      refine ih hx₂ hy₂ fun name => ?_
      by_cases hn : name = n
      · subst hn; rw [lookup_eq_none_of_lt hx₁, lookup_eq_none_of_lt hy₁]
      · have hb : (name == n) = false := by simpa using hn
        simpa [List.lookup_cons, hb] using h name

/-- Bindings that look up alike are equal. -/
theorem ext_get? {a b : Bindings} (h : ∀ name, a.get? name = b.get? name) : a = b := by
  obtain ⟨xs, hx⟩ := a
  obtain ⟨ys, hy⟩ := b
  obtain rfl := eq_of_lookup_eq hx hy h
  rfl

end Bindings
end SqlComposer
