import SqlComposer.Proofs.Directive.Readable

/-! How far the comment reaches that a block is printed as. Texts are printed with a `*/` in them as
it is, so the comment ends where the block does exactly if none of the texts has one. -/
namespace SqlComposer

/-- A comment that has this in it ends there. -/
def Closes (cs : List Char) : Prop := ['*', '/'] <:+: cs

instance : DecidablePred Closes := fun cs => inferInstanceAs (Decidable (['*', '/'] <:+: cs))

namespace Closes
variable {c : Char} {cs xs ys : List Char}

theorem cons_iff : Closes (c :: cs) ↔ (c = '*' ∧ cs.head? = some '/') ∨ Closes cs := by
  rw [Closes, List.infix_cons_iff, ← Closes]
  refine or_congr_left ?_
  constructor
  · rintro ⟨rest, h⟩
    obtain ⟨rfl, rfl⟩ := List.cons.inj h
    exact ⟨rfl, rfl⟩
  · rintro ⟨rfl, h⟩
    obtain ⟨rest, rfl⟩ := List.head?_eq_some_iff.1 h
    exact ⟨rest, rfl⟩

theorem cons_of_ne (h : c ≠ '*') : Closes (c :: cs) ↔ Closes cs := by
  rw [cons_iff]
  exact or_iff_right fun hc => h hc.1

theorem not_of_not_mem (h : '*' ∉ cs) : ¬ Closes cs := fun hc => h (hc.subset (by simp))

/-- A character that is neither a star nor a slash keeps what is before it and what is behind it
apart. -/
theorem append_cons_iff (hs : c ≠ '*') (hc : c ≠ '/') :
    Closes (xs ++ c :: ys) ↔ Closes xs ∨ Closes ys := by
  induction xs with
  | nil => rw [List.nil_append, cons_of_ne hs]; simp [Closes]
  | cons x xs ih =>
    have hhead : (xs ++ c :: ys).head? = some '/' ↔ xs.head? = some '/' := by
      cases xs with
      | nil => simp [hc]
      | cons => simp
    rw [List.cons_append, cons_iff, hhead, ih, cons_iff, or_assoc]

/-- Escaping neither makes a star or a slash nor takes one away. -/
theorem escape_cases (c : Char) : escape c = [c] ∨
    ∃ d, escape c = ['\\', d] ∧ d ≠ '*' ∧ c ≠ '*' ∧ c ≠ '/' := by
  unfold escape
  split
  case h_6 => exact .inl rfl
  all_goals exact .inr ⟨_, rfl, by decide, by decide, by decide⟩

theorem escape_iff (text : List Char) : Closes (text.flatMap escape) ↔ Closes text := by
  induction text with
  | nil => rfl
  | cons c text ih =>
    have hhead : (text.flatMap escape).head? = some '/' ↔ text.head? = some '/' := by
      cases text with
      | nil => rfl
      | cons x text =>
        obtain h | ⟨d, h, -, -, hx⟩ := escape_cases x
        · simp [h]
        · simp [h, hx]
    rw [List.flatMap_cons]
    obtain h | ⟨d, h, hd, hc, -⟩ := escape_cases c
    · rw [h, List.singleton_append, cons_iff, cons_iff, hhead, ih]
    · rw [h, List.cons_append, List.singleton_append, cons_of_ne (by decide), cons_of_ne hd,
        cons_of_ne hc, ih]

theorem not_of_isWord {w : String} (h : isWord w = true) : ¬ Closes w.toList := by
  obtain ⟨c, cs, he, -, hpart⟩ := (isWord_iff w).1 h
  exact not_of_not_mem fun hmem => absurd (hpart _ (he ▸ hmem)) (by decide)

/-- A line has in it what its text has, apart from whatever stands behind it. -/
theorem entry_iff {x : Entry} (h : isWord x.key = true) (cs : List Char) :
    Closes (x.print.toList ++ cs) ↔ Closes x.text.toList ∨ Closes cs := by
  have hkey := not_of_isWord h
  cases x with
  | keyword key value =>
    have hkey : ¬ Closes key.toList := hkey
    rw [Entry.toList_print_keyword]
    simp [cons_of_ne, append_cons_iff, escape_iff, Entry.text, hkey]
  | reference r =>
    have hkey : ¬ Closes r.key.toList := hkey
    have hword := not_of_isWord (isWord_spelling r.source.keyword)
    rw [Entry.toList_print_reference]
    simp [cons_of_ne, append_cons_iff, escape_iff, Entry.text, hkey, hword]

theorem flatMap_iff {α : Type} {f : α → List Char} {p : α → Prop} {as : List α}
    (h : ∀ x ∈ as, ∀ cs, Closes (f x ++ cs) ↔ p x ∨ Closes cs) (cs : List Char) :
    Closes (as.flatMap f ++ cs) ↔ (∃ x ∈ as, p x) ∨ Closes cs := by
  induction as with
  | nil => simp
  | cons x as ih =>
    obtain ⟨hx, h⟩ := List.forall_mem_cons.1 h
    rw [List.flatMap_cons, List.append_assoc, hx, ih h]
    simp [or_assoc]

theorem block_iff {b : Block} (e : Environment) (h : ∀ x ∈ b.entries, isWord x.key = true)
    (cs : List Char) :
    Closes ((b.print e).toList ++ cs) ↔ (∃ x ∈ b.entries, Closes x.text.toList) ∨ Closes cs := by
  unfold Block.print
  split
  · rename_i hempty
    rw [Block.isEmpty, Bool.and_eq_true, List.isEmpty_iff, List.isEmpty_iff] at hempty
    simp [Block.entries, hempty.1, hempty.2]
  · have hname : ¬ Closes e.name.toList := by cases e <;> decide
    have hl : (s!"[{e.name}]\n" ++ String.join (b.entries.map Entry.print)).toList ++ cs =
        '[' :: (e.name.toList ++ ']' :: '\n' :: (b.entries.flatMap (·.print.toList) ++ cs)) := by
      simp [toString, List.flatMap_map]
    rw [hl, cons_of_ne (by decide), append_cons_iff (by decide) (by decide),
      cons_of_ne (by decide), flatMap_iff fun x hx => entry_iff (h x hx)]
    simp [hname]

end Closes

namespace Comment

theorem exists_of_block? {cs : List Char} {c : Cut} (h : block? cs = some c) :
    ∃ text, c.taken = text ++ ['*', '/'] ∧ ¬ Closes text := by
  fun_induction block? cs generalizing c with
  | case1 cs => cases h; exact ⟨[], rfl, by decide⟩
  | case2 x cs hx ih =>
    obtain ⟨d, hd, rfl⟩ := Option.map_eq_some_iff.1 h
    obtain ⟨text, htext, hno⟩ := ih hd
    refine ⟨x :: text, by rw [Cut.cons, htext, List.cons_append], ?_⟩
    rw [Closes.cons_iff]
    rintro (⟨rfl, hslash⟩ | hc)
    -- the comment would have ended at this star
    · obtain ⟨text, rfl⟩ := List.head?_eq_some_iff.1 hslash
      have hwhole := whole_of_block? hd
      rw [Cut.whole, htext] at hwhole
      exact hx _ rfl hwhole.symm
    · exact hno hc
  | case3 => cases h

/-- A comment ends at a `*/` exactly if there is none before it. -/
theorem block?_append_iff (text rest : List Char) :
    block? (text ++ '*' :: '/' :: rest) = some ⟨text ++ ['*', '/'], rest⟩ ↔ ¬ Closes text := by
  constructor
  · intro h
    obtain ⟨text', htext, hno⟩ := exists_of_block? h
    rwa [(List.append_inj' htext rfl).1]
  · exact fun h => block?_append h rest

end Comment

namespace Directives

/-- The texts that directives have. -/
def texts (d : Directives) : List String := d.description :: d.lines.map (·.2.text)

/-- What is printed of directives between the opening of the comment and the end of the block. -/
def commented (d : Directives) : List Char :=
  '\n' :: '[' :: ("sqlmbegin".toList ++ ']' :: '\n' :: '[' :: ("script".toList ++
    ']' :: '\n' :: '\t' :: '-' :: ' ' :: ("description".toList ++ ':' :: ' ' :: '"' ::
    (d.description.toList.flatMap escape ++ '"' :: '\n' ::
    Environment.all.flatMap (fun e => ((d.block e).print e).toList)))))

theorem toList_print_commented (d : Directives) (body : List Char) :
    d.print.toList ++ body = '/' :: '*' ::
      (d.commented ++ "[sqlmend]\n".toList ++ '*' :: '/' :: '\n' :: body) := by
  rw [toList_print]
  simp [commented]

/-- What is printed between a `/*` and a `*/` has another `*/` in it exactly if a text has one. -/
theorem closes_commented_iff {d : Directives}
    (hd : ∀ e, ∀ x ∈ (d.block e).entries, isWord x.key = true) :
    Closes (d.commented ++ "[sqlmend]\n".toList) ↔ ∃ s ∈ d.texts, Closes s.toList := by
  have hl : d.commented ++ "[sqlmend]\n".toList = "\n[sqlmbegin]\n[script".toList ++
      ']' :: ("\n\t- description: ".toList ++ '"' :: (d.description.toList.flatMap escape ++
      '"' :: '\n' :: (Environment.all.flatMap (fun e => ((d.block e).print e).toList) ++
      "[sqlmend]\n".toList))) := by
    simp [commented]
  have hopening : ¬ Closes "\n[sqlmbegin]\n[script".toList := Closes.not_of_not_mem (by simp)
  have hlead : ¬ Closes "\n\t- description: ".toList := Closes.not_of_not_mem (by simp)
  have hend : ¬ Closes "[sqlmend]\n".toList := Closes.not_of_not_mem (by simp)
  rw [hl, Closes.append_cons_iff (by decide) (by decide),
    Closes.append_cons_iff (by decide) (by decide), Closes.append_cons_iff (by decide) (by decide),
    Closes.cons_of_ne (by decide), Closes.escape_iff,
    Closes.flatMap_iff fun e _ => Closes.block_iff e (hd e)]
  simp only [hopening, hlead, hend, false_or, or_false, texts, List.mem_cons, List.mem_map,
    exists_eq_or_imp]
  refine or_congr_right ?_
  constructor
  · rintro ⟨e, -, x, hx, hc⟩
    exact ⟨x.text, ⟨(e, x), mem_lines_iff.2 hx, rfl⟩, hc⟩
  · rintro ⟨s, ⟨l, hl, rfl⟩, hc⟩
    exact ⟨l.1, Environment.mem_all l.1, l.2, mem_lines_iff.1 hl, hc⟩

/-- A printed block is one comment, from its `/*` to the `*/` behind its last bracket, exactly if no
text of the directives has a `*/` in it. -/
theorem block?_print_iff {d : Directives}
    (hd : ∀ e, ∀ x ∈ (d.block e).entries, isWord x.key = true) (body : List Char) :
    ∃ front, d.print.toList ++ body =
        '/' :: '*' :: (front ++ "[sqlmend]\n".toList ++ '*' :: '/' :: '\n' :: body) ∧
      (Comment.block? (front ++ "[sqlmend]\n".toList ++ '*' :: '/' :: '\n' :: body) =
          some ⟨front ++ "[sqlmend]\n".toList ++ ['*', '/'], '\n' :: body⟩ ↔
        ∀ s ∈ d.texts, ¬ Closes s.toList) := by
  refine ⟨d.commented, toList_print_commented d body, ?_⟩
  rw [Comment.block?_append_iff, closes_commented_iff hd]
  simp only [not_exists, not_and]

/-- A block with a description and a reference, and a comment behind it. -/
theorem block?_print_described :
    let b : Block := ⟨.empty, [⟨"t", .file "a/*.sql"⟩]⟩
    let d : Directives := ⟨"", "rate * days / 2", (PerEnvironment.const {}).set .development b⟩
    (∀ e, ∀ x ∈ (d.block e).entries, isWord x.key = true) ∧
      ∃ front, d.print.toList ++ "/* x */".toList =
          '/' :: '*' ::
            (front ++ "[sqlmend]\n".toList ++ '*' :: '/' :: '\n' :: "/* x */".toList) ∧
        Comment.block?
            (front ++ "[sqlmend]\n".toList ++ '*' :: '/' :: '\n' :: "/* x */".toList) =
          some ⟨front ++ "[sqlmend]\n".toList ++ ['*', '/'], '\n' :: "/* x */".toList⟩ := by
  intro b d
  have hd : ∀ e, ∀ x ∈ (d.block e).entries, isWord x.key = true := by
    intro e
    cases e <;> decide
  have htexts : ∀ s ∈ d.texts, ¬ Closes s.toList := by decide +kernel
  obtain ⟨front, hprint, hblock⟩ := block?_print_iff hd "/* x */".toList
  exact ⟨hd, front, hprint, hblock.2 htexts⟩

/-- A value can end the comment that its block stands in, as it is read and as it is printed; and a
block is read from a comment that does not end. -/
theorem parse_beyond_comment :
    (∃ d : Directives, parse "/*[sqlmbegin][script][dev]-a:\"x*/y\"[sqlmend]*/" = .ok d ∧
      (∀ e, ∀ x ∈ (d.block e).entries, isWord x.key = true) ∧
      Comment.block? "[sqlmbegin][script][dev]-a:\"x*/y\"[sqlmend]*/".toList =
        some ⟨"[sqlmbegin][script][dev]-a:\"x*/".toList, "y\"[sqlmend]*/".toList⟩ ∧
      (Comment.block? (d.print.toList.drop 2)).map (·.rest) =
        some "y\"\n[sqlmend]\n*/\n".toList) ∧
    parse "/*[sqlmbegin][script][sqlmend] select 1" = .ok {} ∧
    Comment.block? "[sqlmbegin][script][sqlmend] select 1".toList = none := by
  let b : Block := ⟨⟨[("a", "x*/y")], List.pairwise_singleton ..⟩, []⟩
  let d : Directives := ⟨"", "", (PerEnvironment.const {}).set .development b⟩
  refine ⟨⟨d, eq_ok_of_toOption (by decide +kernel), fun e => ?_, by decide +kernel,
    by decide +kernel⟩, eq_ok_of_toOption (by decide +kernel), by decide +kernel⟩
  cases e <;> decide

end Directives
end SqlComposer
