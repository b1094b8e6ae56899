import SqlComposer.Proofs.Directive.Acceptance
import SqlComposer.Proofs.Token.Skipping
import SqlComposer.Proofs.Token.Tiling

/-! How far a directive block reaches: its tokens are a form of the grammar that ends with the
closing bracket, and that bracket stands in the text where its token says. -/
namespace SqlComposer

namespace Lexeme
variable {cs : List Char} {c : Char}

theorem kind_wordLike_ne_punct (cs : List Char) (c : Char) : (wordLike cs).kind ≠ .punct c := by
  obtain hw | hkind := kind_wordLike_cases cs
  · rw [hw, kind_word]
    cases Keyword.ofWord? (String.ofList (Cut.span isWordPart cs).taken) <;> simp
  · rintro he
    simp [he] at hkind

theorem taken_symbol_of_punct (h : (symbol cs).kind = .punct c) : (symbol cs).cut.taken = [c] := by
  unfold symbol at h ⊢
  split at h
  case h_5 =>
    unfold blockComment at h
    split at h <;> cases h
  case h_6 | h_7 => exact absurd h ((isInert_string _ _).2.2 c)
  case h_8 => exact absurd h ((isInert_quotedIdentifier _).2.2 c)
  case h_19 =>
    unfold single raw at h
    dsimp only at h
    split at h <;> cases h
    rfl
  all_goals cases h

/-- A token of one character takes that character from the text. -/
theorem taken_of_punct (h : (ofText cs).kind = .punct c) : (ofText cs).cut.taken = [c] := by
  unfold ofText at h ⊢
  split
  · rw [if_pos ‹_›] at h
    exact absurd h (kind_wordLike_ne_punct cs c)
  · rw [if_neg ‹_›] at h
    split
    · rw [if_pos ‹_›] at h
      exact absurd h ((isInert_number cs).2.2 c)
    · rw [if_neg ‹_›] at h
      exact taken_symbol_of_punct h

end Lexeme

/-- A token of one character that is scanned stands where it says. -/
theorem Cursor.StandsBehind.exists_place {d : Cursor} {front text : List Char} {c : Char}
    (h : d.StandsBehind front text) (hk : d.scan.1.kind = .punct c) : ∃ front rest,
      text = front ++ c :: rest ∧ d.scan.1.start.offset = byteSize front := by
  obtain ⟨hstart, hsplit⟩ := h.start
  rw [kind_scan] at hk
  rw [Lexeme.taken_of_punct hk] at hsplit
  exact ⟨_, _, hsplit, hstart⟩

theorem Token.exists_scan_of_mem {text : String} {t : Token} (ht : t ∈ ofText text) :
    ∃ n, t = ((Cursor.ofText text).after n).scan.1 := by
  obtain ⟨count, -, hrun, -⟩ := (Cursor.ofText text).exists_count
  rw [ofText, hrun, List.map_map] at ht
  obtain ⟨n, -, rfl⟩ := List.mem_map.1 ht
  exact ⟨n, rfl⟩

theorem exists_scan_of_mem {text : String} {t : Token} (ht : t ∈ significant text) :
    ∃ n, t = ((Cursor.ofText text).after n).scan.1 :=
  Token.exists_scan_of_mem (List.mem_filter.1 ht).1

theorem exists_place {text : String} {t : Token} {c : Char} (ht : t ∈ significant text)
    (hk : t.kind = .punct c) : ∃ front rest,
      text.toList = front ++ c :: rest ∧ t.start.offset = byteSize front := by
  obtain ⟨n, rfl⟩ := exists_scan_of_mem ht
  obtain ⟨mark, -, hfirst⟩ := Cursor.standsBehind_ofText text
  obtain ⟨front, h⟩ := Cursor.exists_standsBehind_after hfirst n
  exact h.exists_place hk

theorem pairwise_significant (text : String) :
    (significant text).Pairwise (·.start.offset < ·.start.offset) := by
  obtain ⟨front, -, hstand⟩ := Cursor.standsBehind_ofText text
  exact hstand.pairwise_run.2.filter _

/-- Tokens that start no later than one of them are it, or stand before it. -/
theorem mem_of_start_le {text : String} {front us : List Token} {t u : Token}
    (h : significant text = front ++ t :: us) (hu : u ∈ significant text)
    (hle : u.start.offset ≤ t.start.offset) : u ∈ front ++ [t] := by
  have hpairwise := pairwise_significant text
  rw [h, List.append_cons] at hu hpairwise
  obtain hu | hu := List.mem_append.1 hu
  · exact hu
  · have hlt := (List.pairwise_append.1 hpairwise).2.2 t (by simp) u hu
    omega

namespace Script

theorem exists_form_of_ofText {text : String} {s : Script} {closing : Token}
    (h : ofText text = .ok s) (hc : s.closing = some closing) :
    ∃ front us description lines, significant text = front ++ closing :: us ∧
      Form (front ++ [closing]) description lines ∧ s.directives.Says description lines := by
  by_cases hbegins : BeginsBlock (significant text)
  · obtain ⟨front, last, us, description, lines, hsig, hform, hsays, hlast⟩ :=
      exists_form_of_begins hbegins h
    cases hc.symm.trans hlast
    exact ⟨front, us, description, lines, hsig, hform, hsays⟩
  · cases (ofText_of_not_begins hbegins).symm.trans h
    cases hc

end Script
end SqlComposer
