import SqlComposer.Proofs.Directive.Complaints
import SqlComposer.Proofs.Token.Lines

/-! Where complaints are located. Each is about one token of the text, and gives the line and the
column where that token starts. -/
namespace SqlComposer

/-- What goes wrong with some tokens goes wrong at one of them. -/
def StopsAt {α : Type} (ts : List Token) (x : Except ParseError α) : Prop :=
  ∀ e, x = .error e → ∃ t ∈ ts, e.start = t.start

namespace TokenStream
variable {α : Type} {s : TokenStream} {ts : List Token}

theorem current_mem_tokens (s : TokenStream) : s.current ∈ s.tokens := by
  obtain ⟨rest, h⟩ := s.exists_tokens
  rw [h]
  exact List.mem_cons_self

theorem tokens_next_subset (s : TokenStream) : s.next.tokens ⊆ s.tokens :=
  List.append_subset.2 ⟨fun _ ht => List.mem_append_left _ (List.mem_of_mem_tail ht),
    List.subset_append_right ..⟩

theorem stopsAt_expect_bind {what : Expected} {f : TokenStream → Except ParseError α}
    (hs : s.tokens ⊆ ts) (hf : ∀ r : TokenStream, r.tokens ⊆ ts → StopsAt ts (f r)) :
    StopsAt ts (s.expect what >>= f) := by
  unfold expect
  split
  · exact hf s.next (List.Subset.trans s.tokens_next_subset hs)
  · intro e he
    cases he
    exact ⟨s.current, hs s.current_mem_tokens,
      (ParseError.isAbout_unexpected what s.current).start⟩

end TokenStream

theorem stopsAt_parseName (line : String) : StopsAt (significant line) (parseName line) := by
  obtain ⟨s, hof, hsig, -⟩ := TokenStream.exists_ofText_eq line
  rw [parseName, hof, hsig]
  refine TokenStream.stopsAt_expect_bind (List.Subset.refl _) fun s hs => ?_
  refine TokenStream.stopsAt_expect_bind hs fun s hs => ?_
  refine TokenStream.stopsAt_expect_bind hs fun s hs => ?_
  refine TokenStream.stopsAt_expect_bind hs fun _ _ e he => ?_
  cases he

theorem Directives.stopsAt_parse (text : String) : StopsAt (significant text) (parse text) := by
  intro e h
  obtain ⟨s, hof, hsig, hplain⟩ := TokenStream.exists_ofText_eq text
  have hread : (Script.readStream s).2 = .error e := by
    rw [parse, Script.ofText, hof] at h
    cases hr : (Script.readStream s).2 with
    | ok x => rw [hr] at h; cases h
    | error e' => rw [hr] at h; cases h; rfl
  obtain ⟨-, ⟨q, r⟩, hleads, -, habout⟩ :=
    Script.stops_of_readStream (fun t ht => (hplain t ht).2) hread
  obtain ⟨front, hpending, hfinish, -⟩ := hleads.exists_run
  have htokens : s.tokens = front ++ r.tokens := by
    rw [TokenStream.tokens, hpending, hfinish, List.append_assoc]
    rfl
  refine ⟨r.current, ?_, habout.start⟩
  rw [hsig, htokens]
  exact List.mem_append_right _ r.current_mem_tokens

theorem exists_mem_of_mapM_checked {ts : List Token} {e : LexError}
    (h : ts.mapM Token.checked = .error e) :
    ∃ t ∈ ts, t.kind = .fault e.fault ∧ e.start = t.start := by
  induction ts with
  | nil => cases h
  | cons t ts ih =>
    rw [List.mapM_cons] at h
    by_cases ht : ∃ f, t.kind = .fault f
    · obtain ⟨f, ht⟩ := ht
      have hchecked : t.checked = .error ⟨f, t.start⟩ := by rw [Token.checked, ht]
      rw [hchecked] at h
      cases h
      exact ⟨t, List.mem_cons_self, ht, rfl⟩
    · rw [Token.checked_of_no_fault fun f hf => ht ⟨f, hf⟩] at h
      cases hmap : ts.mapM Token.checked with
      | ok us =>
        rw [hmap] at h
        cases h
      | error e' =>
        rw [hmap] at h
        cases h
        obtain ⟨u, hu, hkind⟩ := ih hmap
        exact ⟨u, List.mem_cons_of_mem _ hu, hkind⟩

theorem exists_fault_of_tokenize {text : String} {e : LexError} (h : tokenize text = .error e) :
    ∃ n, ((Cursor.ofText text).after n).scan.1.kind = .fault e.fault ∧
      e.start = ((Cursor.ofText text).after n).scan.1.start := by
  have h : (Token.ofText text).dropLast.mapM Token.checked = .error e := h
  obtain ⟨t, ht, hkind, hstart⟩ := exists_mem_of_mapM_checked h
  obtain ⟨n, rfl⟩ := Token.exists_scan_of_mem (List.dropLast_subset _ ht)
  exact ⟨n, hkind, hstart⟩

theorem StopsAt.exists_scan {α : Type} {text : String} {x : Except ParseError α} {e : ParseError}
    (h : StopsAt (significant text) x) (he : x = .error e) :
    ∃ n, e.start = ((Cursor.ofText text).after n).scan.1.start := by
  obtain ⟨t, ht, hstart⟩ := h e he
  obtain ⟨n, rfl⟩ := exists_scan_of_mem ht
  exact ⟨n, hstart⟩

/-- Places are exact. At each cursor that a scan comes to, and at each token, the line and the column
are those of the offset, counted in the bytes of the text. So complaints about a text tell the line
and the column where one of its tokens starts. -/
theorem places_exact (text : String) :
    let cursor : Nat → Cursor := (Cursor.ofText text).after
    let token : Nat → Token := fun n => (cursor n).scan.1
    let place : Position → Position := fun p => .ofOffset (bytes text) p.offset
    (∀ n, (cursor n).position.IsExact text ∧ (token n).start.IsExact text) ∧
    (∀ e, tokenize text = .error e → ∃ n, (token n).kind = .fault e.fault ∧
      e.start = (token n).start ∧ e.message = (place e.start).locate e.fault.message) ∧
    (∀ e, Directives.parse text = .error e → ∃ n,
      e.start = (token n).start ∧ e.message = (place e.start).locate e.fault.message) ∧
    (∀ e, parseName text = .error e → ∃ n,
      e.start = (token n).start ∧ e.message = (place e.start).locate e.fault.message) := by
  intro cursor token place
  have hcounts : ∀ n, (cursor n).Counts text := (Cursor.counts_ofText text).after
  have hplace : ∀ n, (token n).start = place (token n).start := fun n => (hcounts n).scan.1.place
  refine ⟨fun n => ⟨(hcounts n).isExact, (hcounts n).scan.1⟩, fun e he => ?_, fun e he => ?_,
    fun e he => ?_⟩
  · obtain ⟨n, hkind, hstart⟩ := exists_fault_of_tokenize he
    exact ⟨n, hkind, hstart, by rw [hstart, ← hplace, ← hstart]; rfl⟩
  · obtain ⟨n, hstart⟩ := (Directives.stopsAt_parse text).exists_scan he
    exact ⟨n, hstart, by rw [hstart, ← hplace, ← hstart]; rfl⟩
  · obtain ⟨n, hstart⟩ := (stopsAt_parseName text).exists_scan he
    exact ⟨n, hstart, by rw [hstart, ← hplace, ← hstart]; rfl⟩

/-- Behind a byte order mark and a character of two bytes, a string on the second line is open. -/
theorem places_exact_second_line :
    let text := "\ufeffselect 'é',\n  \"b"
    let e : LexError := ⟨.unterminatedString, ⟨18, 2, 3⟩⟩
    tokenize text = .error e ∧ ∃ n,
      ((Cursor.ofText text).after n).scan.1.kind = .fault e.fault ∧
        e.start = ((Cursor.ofText text).after n).scan.1.start ∧
        e.message = (Position.ofOffset (bytes text) e.start.offset).locate e.fault.message := by
  have h : tokenize "\ufeffselect 'é',\n  \"b" = .error ⟨.unterminatedString, ⟨18, 2, 3⟩⟩ :=
    eq_error_of_match (by decide +kernel)
  exact ⟨h, (places_exact _).2.1 _ h⟩

end SqlComposer
