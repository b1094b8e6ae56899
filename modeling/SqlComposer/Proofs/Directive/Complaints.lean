import SqlComposer.Proofs.Directive.Extent
import SqlComposer.Proofs.Directive.Places

/-! What the reader of blocks complains about. Each of its steps follows the ways between places, so
a complaint is about the first token that cannot stand where it does. -/
namespace SqlComposer

section Readers
open Spot
variable {q q' : Place} {s : TokenStream}

/-- A token that is asked for is the one that leads on. -/
theorem TokenStream.follows_expect {what : Expected}
    (h : q.step s.current.kind = if what.accepts s.current.kind then some q' else none) :
    (Spot.mk q s).Follows (s.expect what) fun r d => d = ⟨q', r⟩ := by
  unfold expect
  split
  · rename_i ha
    rw [if_pos ha] at h
    refine ⟨⟨q', s.next⟩, .single ⟨fun hk => ?_, h, rfl⟩, rfl⟩
    change s.current.kind = _ at hk
    rw [hk, Expected.accepts_endOfInput] at ha
    cases ha
  · rename_i ha
    rw [if_neg ha] at h
    exact ⟨_, .refl, h, ParseError.isAbout_unexpected what s.current⟩

theorem Entry.follows_read (h : s.current.kind = .punct '-') :
    (Spot.mk .lines s).Follows (Entry.read s) fun r d => d = ⟨.lines, r.2⟩ := by
  have hdash : Place.lines.step s.current.kind = if Expected.dash.accepts s.current.kind
      then some (.asks .key (.asks .colon .value)) else none := by
    rw [h]; rfl
  refine (TokenStream.follows_expect hdash).bind ?_
  rintro key _ rfl
  refine (TokenStream.follows_expect rfl).bind ?_
  rintro colon _ rfl
  refine (TokenStream.follows_expect rfl).bind ?_
  rintro value _ rfl
  refine (TokenStream.follows_expect rfl).bind ?_
  rintro rest _ rfl
  unfold Place.behindValue
  cases Source.ofWord? value.current.kind with
  | none => exact follows_ok rfl
  | some source =>
    refine (TokenStream.follows_expect rfl).bind ?_
    rintro target _ rfl
    refine (TokenStream.follows_expect rfl).bind ?_
    rintro close _ rfl
    refine (TokenStream.follows_expect rfl).bind ?_
    rintro rest _ rfl
    exact follows_ok rfl

/-- A place where only a bracket leads on, to the name of a section. -/
def Place.Awaits (q : Place) (k : TokenKind) : Prop :=
  q.step k = if Expected.openBracket.accepts k then some .head else none

theorem Place.awaits_lines {k : TokenKind} (h : k ≠ .punct '-') : Place.lines.Awaits k := by
  unfold Awaits
  by_cases hb : k = .punct '['
  · subst hb; rfl
  · rw [if_neg (by simpa [Expected.accepts] using hb)]
    unfold step
    split <;> simp_all

theorem Entry.follows_readAll (s : TokenStream) :
    (Spot.mk .lines s).Follows (Entry.readAll s) fun r d =>
      d = ⟨.lines, r.2⟩ ∧ Place.lines.Awaits r.2.current.kind := by
  fun_induction Entry.readAll s with
  | case1 s h e hr =>
    have hread := follows_read h
    rw [hr] at hread
    exact hread
  | case2 s h entry rest hr ih =>
    have hread := follows_read h
    rw [hr] at hread
    obtain ⟨_, hleads, rfl⟩ := hread
    exact hleads.follows (ih.map fun _ _ hm => hm)
  | case3 s h => exact follows_ok ⟨rfl, Place.awaits_lines h⟩

theorem Section.follows_readLines (s : TokenStream) :
    (Spot.mk (.asks .closeBracket .lines) s).Follows (readLines s) fun r d =>
      d = ⟨.lines, r.2⟩ ∧ Place.lines.Awaits r.2.current.kind := by
  refine (TokenStream.follows_expect rfl).bind ?_
  rintro lines _ rfl
  exact Entry.follows_readAll lines

theorem Place.pass_of_isSkip {k : TokenKind} (h : k.IsSkip) : pass k = some .passing := by
  obtain ⟨hb, he, hf⟩ := h
  unfold pass
  split
  · exact absurd rfl hb
  · exact absurd rfl he
  · exact absurd rfl (hf _)
  · rfl

/-- Passing over tokens ends in front of a bracket, or of the end of the input. -/
theorem TokenStream.follows_skipSection (hend : ∀ t ∈ s.pending, t.kind ≠ .endOfInput)
    (h : q.step s.current.kind = Place.pass s.current.kind) :
    (Spot.mk q s).Follows s.skipSection fun r d =>
      d.stream = r ∧ d.place.Awaits r.current.kind := by
  obtain ⟨ts, p⟩ := s
  induction ts generalizing q with
  | nil => exact follows_ok ⟨rfl, h⟩
  | cons t ts ih =>
    obtain ⟨ht, hend⟩ := List.forall_mem_cons.1 hend
    rw [current_cons] at h
    by_cases hb : t.kind = .punct '['
    · rw [skipSection_bracket hb]
      refine follows_ok ⟨rfl, ?_⟩
      rw [Place.Awaits, current_cons, h, hb]
      rfl
    by_cases hf : ∃ f, t.kind = .fault f
    · obtain ⟨f, hf⟩ := hf
      have hskip : (TokenStream.mk (t :: ts) p).skipSection = .error ⟨.lex f, t.start⟩ := by
        rw [skipSection, skipSection.go, hf]; rfl
      rw [hskip]
      refine ⟨_, .refl, ?_, ParseError.isAbout_lex hf⟩
      rw [current_cons, h, hf]
      rfl
    · have hs : t.kind.IsSkip := ⟨hb, ht, fun f hk => hf ⟨f, hk⟩⟩
      have hpass : (TokenStream.mk (t :: ts) p).skipSection = (TokenStream.mk ts p).skipSection :=
        skipSection_append (List.forall_mem_singleton.2 hs) ts p
      rw [Place.pass_of_isSkip hs] at h
      have hstep : (Spot.mk q ⟨t :: ts, p⟩).Leads ⟨.passing, ⟨ts, p⟩⟩ := .single ⟨ht, h, rfl⟩
      rw [hpass]
      exact hstep.follows (ih hend rfl)

/-- The tokens of a description lead on like any others that are passed over. -/
theorem Description.leads_read (ts : List Token) (p : Position) :
    (Spot.mk .passing ⟨ts, p⟩).Leads ⟨.passing, (read ⟨ts, p⟩).2⟩ := by
  obtain ⟨d, front, back, rfl, hread, -, hfront⟩ := exists_of_read ts p
  rw [hread]
  clear hread
  induction front with
  | nil => exact .refl
  | cons t front ih =>
    obtain ⟨ht, hfront⟩ := List.forall_mem_cons.1 hfront
    have hstep : Spot.Step ⟨.passing, ⟨t :: (front ++ back), p⟩⟩ ⟨.passing, ⟨front ++ back, p⟩⟩ :=
      ⟨ht.2.1, Place.pass_of_isSkip ht, rfl⟩
    exact .head hstep (ih hfront)

theorem Spot.Leads.no_end {c d : Spot} (h : c.Leads d)
    (hend : ∀ t ∈ c.stream.pending, t.kind ≠ .endOfInput) :
    ∀ t ∈ d.stream.pending, t.kind ≠ .endOfInput := by
  obtain ⟨front, hpending, -⟩ := h.exists_run
  rw [hpending] at hend
  exact fun t ht => hend t (List.mem_append_right _ ht)

/-- The bracket in front of a section leads to its name. -/
theorem TokenStream.leads_head {inner : TokenStream} (h : q.Awaits s.current.kind)
    (ho : s.expect .openBracket = .ok inner) : (Spot.mk q s).Leads ⟨.head, inner⟩ := by
  have hopen := TokenStream.follows_expect h
  rw [ho] at hopen
  obtain ⟨_, hleads, rfl⟩ := hopen
  exact hleads

theorem Place.step_head {k : TokenKind} (hend : k ≠ .keyword .sqlmEnd)
    (henv : ∀ e, k ≠ .keyword (.environment e)) : Place.head.step k = pass k := by
  unfold step
  split <;> simp_all

/-- Sections are read up to the end of the block. -/
theorem Section.follows_readAll (hend : ∀ t ∈ s.pending, t.kind ≠ .endOfInput)
    (h : q.Awaits s.current.kind) :
    (Spot.mk q s).Follows (Section.readAll s).2 fun _ d => d.place = .done := by
  fun_induction Section.readAll s generalizing q with
  | case1 s hk =>
    rw [hk] at h
    exact ⟨_, .refl, by rw [hk]; exact h, ParseError.isAbout_unterminated hk⟩
  | case2 s _ e ho =>
    have hopen := TokenStream.follows_expect h
    rw [ho] at hopen
    exact hopen
  | case3 s _ inner ho hw =>
    have hclose : (Spot.mk q s).Leads ⟨.asks .closeBracket .done, inner.next⟩ :=
      (TokenStream.leads_head h ho).next (by simp [hw]) (by rw [hw]; rfl)
    exact hclose.follows ((TokenStream.follows_expect rfl).map fun _ d hd => congrArg Spot.place hd)
  | case4 s _ inner ho e hw err hl =>
    have hclose : (Spot.mk q s).Leads ⟨.asks .closeBracket .lines, inner.next⟩ :=
      (TokenStream.leads_head h ho).next (by simp [hw]) (by rw [hw]; rfl)
    have hlines := follows_readLines inner.next
    rw [hl] at hlines
    exact hclose.stops hlines
  | case5 s _ inner ho e hw es rest hl more =>
    rename_i ih
    have hclose : (Spot.mk q s).Leads ⟨.asks .closeBracket .lines, inner.next⟩ :=
      (TokenStream.leads_head h ho).next (by simp [hw]) (by rw [hw]; rfl)
    have hlines := follows_readLines inner.next
    rw [hl] at hlines
    obtain ⟨_, hleads, rfl, hawaits⟩ := hlines
    exact hclose.follows (hleads.follows (ih (hleads.no_end (hclose.no_end hend)) hawaits))
  | case6 s _ inner ho e hs hnot henv =>
    have hhead := TokenStream.leads_head h ho
    have hskip := TokenStream.follows_skipSection (hhead.no_end hend) (Place.step_head hnot henv)
    rw [hs] at hskip
    exact hhead.stops hskip
  | case7 s _ inner ho rest hs more hnot henv =>
    rename_i ih
    have hhead := TokenStream.leads_head h ho
    have hskip := TokenStream.follows_skipSection (hhead.no_end hend) (Place.step_head hnot henv)
    rw [hs] at hskip
    obtain ⟨⟨q', _⟩, hleads, rfl, hawaits⟩ := hskip
    exact hhead.follows (hleads.follows (ih (hleads.no_end (hhead.no_end hend)) hawaits))

theorem Script.follows_readHeader (s : TokenStream) :
    (Spot.mk .start s).Follows (readHeader s) fun r d => d = ⟨.passing, r⟩ := by
  refine (TokenStream.follows_expect rfl).bind ?_
  rintro word _ rfl
  refine (TokenStream.follows_expect rfl).bind ?_
  rintro close _ rfl
  refine (TokenStream.follows_expect rfl).bind ?_
  rintro s _ rfl
  refine (TokenStream.follows_expect rfl).bind ?_
  rintro word _ rfl
  refine (TokenStream.follows_expect rfl).bind ?_
  rintro close _ rfl
  exact TokenStream.follows_expect rfl

theorem Script.follows_readStream (hend : ∀ t ∈ s.pending, t.kind ≠ .endOfInput)
    (hopen : opensBlock s = true) :
    (Spot.mk .start s).Follows (readStream s).2 fun _ d => d.place = .done := by
  have hheader := follows_readHeader s
  rw [readStream, hopen]
  cases hh : readHeader s with
  | error e =>
    rw [hh] at hheader
    exact hheader
  | ok r =>
    rw [hh] at hheader
    obtain ⟨_, hleads, rfl⟩ := hheader
    have hsection : (Spot.mk .start s).Leads ⟨.passing, (Description.read r).2⟩ :=
      hleads.trans (Description.leads_read r.pending r.finish)
    have hskip : (Spot.mk .passing (Description.read r).2).Follows _ _ :=
      TokenStream.follows_skipSection (hsection.no_end hend) rfl
    cases hs : (Description.read r).2.skipSection with
    | error e =>
      rw [hs] at hskip
      simp only [Bool.not_true, Bool.false_eq_true, if_false, hs]
      exact hsection.follows hskip
    | ok rest =>
      rw [hs] at hskip
      obtain ⟨⟨q, _⟩, hrest, rfl, hawaits⟩ := hskip
      have hsections := Section.follows_readAll (hrest.no_end (hsection.no_end hend)) hawaits
      simp only [Bool.not_true, Bool.false_eq_true, if_false, hs]
      exact hsection.follows (hrest.follows (hsections.map fun _ _ hd => hd))

/-- A complaint comes from a block, where no way leads on. -/
theorem Script.stops_of_readStream {e : ParseError} (hend : ∀ t ∈ s.pending, t.kind ≠ .endOfInput)
    (h : (readStream s).2 = .error e) : opensBlock s = true ∧ (Spot.mk .start s).Stops e := by
  cases hopen : opensBlock s with
  | false => rw [readStream, hopen] at h; cases h
  | true =>
    have hfollows := follows_readStream hend hopen
    rw [h] at hfollows
    exact ⟨rfl, hfollows⟩

end Readers

namespace TokenStream

/-- All the tokens of a stream, the end of the input last. -/
def tokens (s : TokenStream) : List Token := s.pending ++ [.atEnd s.finish]

/-- The stream of any tokens. Comments are dropped, and nothing is read behind the first end of the
input. -/
def ofTokens (ts : List Token) : TokenStream where
  pending := (ts.filter (·.kind ≠ .comment)).takeWhile (·.kind ≠ .endOfInput)
  finish := ((ts.find? (·.kind = .endOfInput)).map (·.start)).getD {}

variable {s : TokenStream}

theorem exists_tokens (s : TokenStream) : ∃ rest, s.tokens = s.current :: rest := by
  obtain ⟨_ | ⟨t, ts⟩, p⟩ := s
  · exact ⟨[], rfl⟩
  · exact ⟨ts ++ [.atEnd p], rfl⟩

/-- Tokens that a reader comes to are passed on as they are. -/
theorem pending_ofTokens_append {ts : List Token}
    (h : ∀ t ∈ ts, t.kind ≠ .comment ∧ t.kind ≠ .endOfInput) (us : List Token) :
    (ofTokens (ts ++ us)).pending = ts ++ (ofTokens us).pending := by
  have hfilter : ts.filter (·.kind ≠ .comment) = ts :=
    List.filter_eq_self.2 fun t ht => decide_eq_true (h t ht).1
  rw [ofTokens, List.filter_append, hfilter,
    List.takeWhile_append_of_pos fun t ht => decide_eq_true (h t ht).2]
  rfl

theorem pending_ofTokens {ts : List Token} (h : ∀ t ∈ ts, t.kind.IsPlain) :
    (ofTokens ts).pending = ts := by
  have happend := pending_ofTokens_append (fun t ht => ⟨(h t ht).1, (h t ht).2.1⟩) []
  rw [List.append_nil] at happend
  exact happend.trans (List.append_nil _)

theorem not_end_of_ofTokens (ts : List Token) :
    ∀ t ∈ (ofTokens ts).pending, t.kind ≠ .endOfInput := fun t ht =>
  of_decide_eq_true (List.all_eq_true.1 List.all_takeWhile t ht)

theorem kind_current_ofTokens {t : Token} (h : t.kind ≠ .comment) (ts : List Token) :
    (ofTokens (t :: ts)).current.kind = t.kind := by
  by_cases hend : t.kind = .endOfInput <;> simp [ofTokens, current, h, hend, Token.atEnd]

/-- The tokens of a text are those that wait to be read, and the end. -/
theorem exists_ofText_eq (text : String) : ∃ s, ofText text = s ∧ significant text = s.tokens ∧
    ∀ t ∈ s.pending, t.kind ≠ .comment ∧ t.kind ≠ .endOfInput := by
  obtain ⟨ts, p, hrun, hts⟩ := (Cursor.ofText text).exists_run
  refine ⟨⟨ts.filter (·.kind ≠ .comment), p⟩, ?_, ?_, fun t ht => ?_⟩
  · simp [ofText, Token.ofText, hrun, Token.atEnd]
  · simp [tokens, significant, Token.ofText, hrun, List.filter_append, Token.atEnd]
  · obtain ⟨ht, hcomment⟩ := List.mem_filter.1 ht
    exact ⟨of_decide_eq_true hcomment, hts t ht⟩

end TokenStream

namespace Script
variable {s : TokenStream}

/-- A stream that begins with a block is read exactly if its tokens lead to the end of the block. -/
theorem readStream_eq_ok_iff (hend : ∀ t ∈ s.pending, t.kind ≠ .endOfInput)
    (hopen : opensBlock s = true) :
    (∃ x, (readStream s).2 = .ok x) ↔ Place.start.run s.pending = some .done := by
  cases hread : (readStream s).2 with
  | ok x =>
    have hfollows := follows_readStream hend hopen
    rw [hread] at hfollows
    obtain ⟨d, hleads, hdone⟩ := hfollows
    obtain ⟨front, hpending, -, hrun⟩ := hleads.exists_run
    refine iff_of_true ⟨x, rfl⟩ ?_
    rw [hpending, Place.run_append, hrun, hdone, Option.bind_some, Place.run_done]
  | error e =>
    obtain ⟨-, ⟨q, r⟩, hleads, hstop, -⟩ := stops_of_readStream hend hread
    obtain ⟨front, hpending, -, hrun⟩ := hleads.exists_run
    refine iff_of_false (fun ⟨x, hx⟩ => by cases hx) ?_
    rw [hpending, Place.run_append, hrun]
    exact Place.run_ne_done hstop

/-- Whether a sequence of tokens is one that is read without a complaint. -/
def Accepts (ts : List Token) : Prop := ∃ x, (readStream (.ofTokens ts)).2 = .ok x

/-- Tokens that begin a block can be completed to one, but not together with the next token. -/
structure FirstImpossible (ts : List Token) (t : Token) : Prop where
  begins : BeginsBlock ts
  possible : ∃ more, (∀ u ∈ more, u.kind.IsPlain) ∧ Accepts (ts ++ more)
  impossible : ∀ more, ¬ Accepts (ts ++ t :: more)

section
variable {ts us : List Token} {q : Place} {t : Token}

theorem beginsBlock_iff : BeginsBlock ts ↔ ∃ left word rest, ts = left :: word :: rest ∧
    left.kind = .punct '[' ∧ word.kind = .keyword .sqlmBegin := by
  match ts with
  | [] | [_] => simp [BeginsBlock, kinds]
  | _ :: _ :: _ => simp [BeginsBlock, kinds, and_assoc]

/-- The tokens that a block begins with lead on. -/
theorem beginsBlock_of_run {p : Position} (h : BeginsBlock (ts ++ us))
    (hrun : Place.start.run ts = some q)
    (hstop : q.step (TokenStream.mk us p).current.kind = none) : BeginsBlock ts := by
  obtain ⟨left, word, rest, hsplit, hleft, hword⟩ := beginsBlock_iff.1 h
  match ts with
  | [] =>
    cases hrun
    cases hsplit
    rw [TokenStream.current_cons, hleft] at hstop
    cases hstop
  | [t] =>
    obtain ⟨rfl, hsplit⟩ := List.cons.inj hsplit
    cases hsplit
    rw [Place.run, hleft] at hrun
    cases hrun
    rw [TokenStream.current_cons, hword] at hstop
    cases hstop
  | _ :: _ :: _ =>
    cases hsplit
    exact beginsBlock_iff.2 ⟨_, _, _, rfl, hleft, hword⟩

theorem accepts_append_iff (hplain : ∀ t ∈ ts, t.kind ≠ .comment ∧ t.kind ≠ .endOfInput)
    (hbegins : BeginsBlock ts) (hrun : Place.start.run ts = some q) (us : List Token) :
    Accepts (ts ++ us) ↔ q.run (TokenStream.ofTokens us).pending = some .done := by
  have hpending := TokenStream.pending_ofTokens_append hplain us
  have hopen : opensBlock (.ofTokens (ts ++ us)) = true := by
    obtain ⟨left, word, rest, rfl, hleft, hword⟩ := beginsBlock_iff.1 hbegins
    refine (opensBlock_iff _ (TokenStream.ofTokens _).finish).2 ?_
    exact beginsBlock_iff.2 ⟨left, word, _, hpending, hleft, hword⟩
  rw [Accepts, readStream_eq_ok_iff (TokenStream.not_end_of_ofTokens _) hopen, hpending,
    Place.run_append, hrun, Option.bind_some]

theorem firstImpossible (hplain : ∀ t ∈ ts, t.kind ≠ .comment ∧ t.kind ≠ .endOfInput)
    (hbegins : BeginsBlock ts) (hrun : Place.start.run ts = some q) (ht : t.kind ≠ .comment)
    (hstop : q.step t.kind = none) : FirstImpossible ts t := by
  have hway : ∀ u ∈ q.wayOut.map TokenKind.sample, u.kind.IsPlain := by
    simpa [TokenKind.kind_sample] using q.isPlain_wayOut
  refine ⟨hbegins, ⟨q.wayOut.map TokenKind.sample, hway, ?_⟩, fun more => ?_⟩
  · have hpending : (TokenStream.ofTokens (q.wayOut.map TokenKind.sample)).pending =
        q.wayOut.map TokenKind.sample := TokenStream.pending_ofTokens hway
    rw [accepts_append_iff hplain hbegins hrun, hpending, q.run_wayOut]
  · rw [accepts_append_iff hplain hbegins hrun]
    exact Place.run_ne_done (by rw [TokenStream.kind_current_ofTokens ht, hstop])

end
end Script

/-- A token of a text is told apart from the others by its place. -/
theorem start_ne_of_significant {text : String} {ts rest : List Token} {t : Token}
    (h : significant text = ts ++ t :: rest) : ∀ u ∈ ts ++ rest, u.start ≠ t.start := by
  have hpairwise := pairwise_significant text
  rw [h, List.pairwise_append, List.pairwise_cons] at hpairwise
  obtain ⟨-, ⟨hbehind, -⟩, hbefore⟩ := hpairwise
  intro u hu hstart
  have hoffset := congrArg Position.offset hstart
  obtain hu | hu := List.mem_append.1 hu
  · have := hbefore u hu t (by simp)
    omega
  · have := hbehind u hu
    omega

/-- A complaint about a script is about the first token that cannot stand where it does. By its
place that token is told apart from all others; those before it can be completed to a block, but
not together with it. -/
theorem Directives.first_impossible_of_parse {text : String} {e : ParseError}
    (h : parse text = .error e) :
    ∃ ts t rest, significant text = ts ++ t :: rest ∧ (∀ u ∈ ts ++ rest, u.start ≠ e.start) ∧
      e.IsAbout t ∧ Script.FirstImpossible ts t := by
  obtain ⟨s, hof, hsig, hplain⟩ := TokenStream.exists_ofText_eq text
  have hread : (Script.readStream s).2 = .error e := by
    rw [parse, Script.ofText, hof] at h
    cases hr : (Script.readStream s).2 with
    | ok x => rw [hr] at h; cases h
    | error e' => rw [hr] at h; cases h; rfl
  obtain ⟨hopen, ⟨q, r⟩, hleads, hstop, habout⟩ :=
    Script.stops_of_readStream (fun t ht => (hplain t ht).2) hread
  obtain ⟨front, hpending, hfinish, hrun⟩ := hleads.exists_run
  obtain ⟨rest, hrest⟩ := r.exists_tokens
  have hsplit : significant text = front ++ r.current :: rest := by
    rw [hsig, ← hrest, TokenStream.tokens, hpending, hfinish, List.append_assoc]
    rfl
  have hbegins : BeginsBlock front := by
    refine Script.beginsBlock_of_run (p := r.finish) ?_ hrun hstop
    rw [← hpending]
    exact (Script.opensBlock_iff _ s.finish).1 hopen
  have hcomment : r.current.kind ≠ .comment := by
    have hmem : r.current ∈ significant text := by rw [hsplit]; simp
    exact of_decide_eq_true (List.mem_filter.1 hmem).2
  have hfront : ∀ t ∈ front, t.kind ≠ .comment ∧ t.kind ≠ .endOfInput := fun t ht =>
    hplain t (hpending ▸ List.mem_append_left _ ht)
  exact ⟨front, r.current, rest, hsplit, habout.start ▸ start_ne_of_significant hsplit, habout,
    Script.firstImpossible hfront hbegins hrun hcomment hstop⟩

/-- Where the colon of a line is missing, its value is complained about. -/
theorem Directives.first_impossible_of_missing_colon :
    let text := "/* [sqlmbegin] [script] [dev] - a \"x\" [sqlmend] */"
    let e : ParseError := ⟨.expected .colon (some "\"x\""), ⟨34, 1, 35⟩⟩
    parse text = .error e ∧
      ∃ ts t rest, significant text = ts ++ t :: rest ∧ (∀ u ∈ ts ++ rest, u.start ≠ e.start) ∧
        e.IsAbout t ∧ Script.FirstImpossible ts t := by
  intro text e
  have h : parse text = .error e := eq_error_of_match (by decide +kernel)
  exact ⟨h, first_impossible_of_parse h⟩

end SqlComposer
