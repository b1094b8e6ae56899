import Mathlib.Data.Nat.Nth
import SqlComposer.Proofs.Token.Tiling

/-! Reading one token ahead. A reader may scan only as far as it must and keep the two tokens that it
shows, or be given all tokens at once; whatever is asked of it, it answers from one and the same
sequence, the scans of the text that find no comment. -/
namespace SqlComposer

/-- What may be asked of a reader. -/
inductive Request where
  | next | peek | current
  deriving DecidableEq, Repr

/-- What a reader shows, the token at which it stands and the one behind that, and how it moves on. -/
structure TokenReader (σ : Type) where
  current : σ → Token
  peek : σ → Token
  next : σ → σ

namespace TokenReader
variable {σ : Type} (r : TokenReader σ)

/-- The answer to a request, and the reader behind it. A move is answered with the token that it
comes to. -/
def answer (s : σ) : Request → Token × σ
  | .next => (r.current (r.next s), r.next s)
  | .peek => (r.peek s, s)
  | .current => (r.current s, s)

/-- The reader behind some requests. -/
def behind (s : σ) (requests : List Request) : σ :=
  requests.foldl (fun s q => (r.answer s q).2) s

/-- A reader follows a sequence of tokens: behind any requests, `k` moves among them, it stands at the
`k`th token and has the next one in view, a move comes to that, and nothing else changes it. -/
def Follows (start : σ) (tokens : Nat → Token) : Prop :=
  ∀ requests : List Request,
    let s := r.behind start requests
    let k := requests.count .next
    r.answer s .current = (tokens k, s) ∧ r.answer s .peek = (tokens (k+1), s) ∧
      (r.answer s .next).1 = tokens (k+1)

/-- Only moves count. -/
theorem behind_eq_iterate (s : σ) (requests : List Request) :
    r.behind s requests = r.next^[requests.count .next] s := by
  induction requests generalizing s with
  | nil => rfl
  | cons q requests ih =>
    cases q with
    | next => rw [List.count_cons_self, Function.iterate_succ_apply, ← ih]; rfl
    | peek | current => rw [List.count_cons_of_ne (by decide), ← ih]; rfl

end TokenReader

namespace Cursor

/-- The next token that is no comment, and the cursor behind it. -/
def scanSignificant (c : Cursor) : Token × Cursor :=
  if c.scan.1.kind = .comment then c.scan.2.scanSignificant else c.scan
termination_by c.rest.length
decreasing_by exact length_rest_scan_lt (by simp [*])

variable {c : Cursor}

/-- Behind the end of the input it is found again, in the same place. -/
theorem scan_again (h : c.scan.1.kind = .endOfInput) : c.scan.2.scan = c.scan := by
  have hposition : c.scan.2.position = c.scan.1.start := by
    rw [position_scan, (Lexeme.kind_ofText_eq_endOfInput_iff _).1 ((kind_scan c).symm.trans h)]
    rfl
  rw [scan_of_rest_eq_nil (rest_scan_of_endOfInput h), hposition, ← scan_of_endOfInput h]

end Cursor

/-- A reader that scans no further than it must: the token at which it stands, the one behind that,
and the place up to which the text has been scanned. -/
structure Lookahead where
  current : Token
  upcoming : Token
  cursor : Cursor

namespace Lookahead

/-- Scans the first two tokens. -/
def ofCursor (c : Cursor) : Lookahead :=
  let first := c.scanSignificant
  let second := first.2.scanSignificant
  ⟨first.1, second.1, second.2⟩

def ofText (text : String) : Lookahead := ofCursor (.ofText text)

/-- Moves on to the token in view, and scans another one. -/
def next (l : Lookahead) : Lookahead :=
  let further := l.cursor.scanSignificant
  ⟨l.upcoming, further.1, further.2⟩

def reader : TokenReader Lookahead := ⟨current, upcoming, next⟩

end Lookahead

namespace TokenStream

def reader : TokenReader TokenStream := ⟨current, peek, next⟩

/-- The stream of what is left of a text. -/
def ofCursor (c : Cursor) : TokenStream :=
  let tokens := c.run.map (·.1)
  { pending := tokens.dropLast.filter (·.kind ≠ .comment)
    finish := (tokens.getLast?.map (·.start)).getD {} }

variable {c : Cursor}

theorem ofCursor_eq {ts : List Token} {p : Position} (h : c.run.map (·.1) = ts ++ [.atEnd p]) :
    ofCursor c = ⟨ts.filter (·.kind ≠ .comment), p⟩ := by
  rw [ofCursor, h, List.dropLast_concat, List.getLast?_concat]
  rfl

theorem ofCursor_of_end (h : c.scan.1.kind = .endOfInput) : ofCursor c = ⟨[], c.scan.1.start⟩ := by
  have hrun : c.run.map (·.1) = [] ++ [.atEnd c.scan.1.start] := by
    rw [Cursor.run, if_pos h, List.map_singleton, ← Cursor.scan_of_endOfInput h]
    rfl
  exact ofCursor_eq hrun

theorem ofCursor_of_not_end (h : c.scan.1.kind ≠ .endOfInput) : ofCursor c =
    ⟨[c.scan.1].filter (·.kind ≠ .comment) ++ (ofCursor c.scan.2).pending,
      (ofCursor c.scan.2).finish⟩ := by
  obtain ⟨ts, p, hrun, -⟩ := c.scan.2.exists_run
  rw [ofCursor_eq hrun, ← List.filter_append]
  refine ofCursor_eq ?_
  rw [Cursor.run, if_neg h, List.map_cons, hrun]
  rfl

/-- What a stream shows first is the next token that is no comment, and behind it is the stream of what
is left. -/
theorem ofCursor_scanSignificant (c : Cursor) :
    (ofCursor c).current = c.scanSignificant.1 ∧
      (ofCursor c).next = ofCursor c.scanSignificant.2 := by
  fun_induction Cursor.scanSignificant c with
  | case1 c h ih =>
    have hskip : ofCursor c = ofCursor c.scan.2 := by
      rw [ofCursor_of_not_end (by simp [h]), List.filter_cons_of_neg (by simp [h])]
      rfl
    rw [hskip]
    exact ih
  | case2 c h =>
    by_cases hend : c.scan.1.kind = .endOfInput
    · have hagain := Cursor.scan_again hend
      rw [ofCursor_of_end hend, ofCursor_of_end (by rw [hagain]; exact hend), hagain]
      exact ⟨(Cursor.scan_of_endOfInput hend).symm, rfl⟩
    · rw [ofCursor_of_not_end hend, List.filter_cons_of_pos (by simp [h])]
      exact ⟨rfl, rfl⟩

end TokenStream

namespace Cursor
variable (c : Cursor)

/-- That the `n`th scan from here finds a token that counts, which is any but a comment. -/
def IsSignificant (n : Nat) : Prop := (c.after n).scan.1.kind ≠ .comment

instance : DecidablePred c.IsSignificant := fun n =>
  inferInstanceAs (Decidable ((c.after n).scan.1.kind ≠ .comment))

/-- The tokens that count, the end of the input again and again behind the last one. -/
noncomputable def significantToken (k : Nat) : Token := (c.after (Nat.nth c.IsSignificant k)).scan.1

theorem isSignificant_after (m n : Nat) :
    (c.after m).IsSignificant n ↔ c.IsSignificant (m+n) := by
  rw [IsSignificant, IsSignificant, after_after]

/-- Comments are passed over one by one. -/
theorem exists_scanSignificant (c : Cursor) : ∃ n, c.scanSignificant = (c.after n).scan ∧
    c.IsSignificant n ∧ ∀ m < n, ¬ c.IsSignificant m := by
  fun_induction scanSignificant c with
  | case1 c h ih =>
    obtain ⟨n, hscan, hn, hbefore⟩ := ih
    rw [after_scan] at hscan
    refine ⟨n+1, hscan, by rwa [IsSignificant, after_scan] at hn, fun m hm => ?_⟩
    cases m with
    | zero => exact not_not.2 h
    | succ m =>
      have hcomment := hbefore m (by omega)
      rwa [IsSignificant, after_scan] at hcomment
  | case2 c h => exact ⟨0, rfl, h, by simp⟩

/-- Behind `n` scans, the number of the next token that counts is how many of them have found one. -/
theorem scanSignificant_after (n : Nat) : (c.after n).scanSignificant =
    (c.after (Nat.nth c.IsSignificant (Nat.count c.IsSignificant n))).scan := by
  obtain ⟨m, hscan, hm, hbefore⟩ := exists_scanSignificant (c.after n)
  rw [after_after] at hscan
  simp only [isSignificant_after] at hm hbefore
  have hcount : Nat.count c.IsSignificant (n+m) = Nat.count c.IsSignificant n := by
    rw [Nat.count_add, Nat.count_iff_forall_not.2 hbefore, Nat.add_zero]
  rw [hscan, ← hcount, Nat.nth_count hm]

theorem infinite_isSignificant : (Set.ofPred c.IsSignificant).Infinite := by
  obtain ⟨count, -, -, hbefore, hend⟩ := c.exists_count
  refine Set.infinite_of_forall_exists_gt fun n => ⟨max n count + 1, ?_, by omega⟩
  have hkind := (kind_after_iff hbefore hend (max n count + 1)).2 (by omega)
  change (c.after _).scan.1.kind ≠ .comment
  simp [hkind]

end Cursor

namespace TokenReader
variable {σ : Type} (r : TokenReader σ) (ofCursor : Cursor → σ)

/-- Behind `k` moves a reader stands behind so many scans that `k` of them have found a token that
counts. -/
theorem exists_iterate (hnext : ∀ c, r.next (ofCursor c) = ofCursor c.scanSignificant.2) (c : Cursor)
    (k : Nat) : ∃ n, Nat.count c.IsSignificant n = k ∧
      r.next^[k] (ofCursor c) = ofCursor (c.after n) := by
  induction k with
  | zero => exact ⟨0, Nat.count_zero _, rfl⟩
  | succ k ih =>
    obtain ⟨n, rfl, hn⟩ := ih
    refine ⟨_, Nat.count_nth_succ_of_infinite c.infinite_isSignificant _, ?_⟩
    rw [Function.iterate_succ_apply', hn, hnext, c.scanSignificant_after]
    rfl

/-- A reader that shows what is scanned next, comments apart, follows the tokens of the text. -/
theorem follows_significant (hcurrent : ∀ c, r.current (ofCursor c) = c.scanSignificant.1)
    (hpeek : ∀ s, r.peek s = r.current (r.next s))
    (hnext : ∀ c, r.next (ofCursor c) = ofCursor c.scanSignificant.2) (c : Cursor) :
    r.Follows (ofCursor c) c.significantToken := by
  intro requests s k
  have hshows : ∀ k, r.current (r.next^[k] (ofCursor c)) = c.significantToken k := by
    intro k
    obtain ⟨n, rfl, hn⟩ := exists_iterate r ofCursor hnext c k
    rw [hn, hcurrent, c.scanSignificant_after]
    rfl
  have hs : s = r.next^[k] (ofCursor c) := r.behind_eq_iterate _ requests
  have hcomes : r.current (r.next s) = c.significantToken (k+1) := by
    rw [hs, ← Function.iterate_succ_apply' r.next, hshows]
  refine ⟨?_, ?_, hcomes⟩
  · rw [answer, hs, hshows]
  · rw [answer, hpeek, hcomes]

end TokenReader

/-- Of the numbers that satisfy `p`, as many satisfy `q` as of all numbers, if no others do. -/
theorem count_nth_comp {p q : Nat → Prop} [DecidablePred p] [DecidablePred q] (h : ∀ n, q n → p n)
    (n : Nat) : Nat.count (fun k => q (Nat.nth p k)) (Nat.count p n) = Nat.count q n := by
  induction n with
  | zero => simp
  | succ n ih =>
    rw [Nat.count_succ, Nat.count_succ]
    by_cases hp : p n
    · rw [if_pos hp, Nat.count_succ, ih, Nat.nth_count hp]
    · rw [if_neg hp, if_neg (mt (h n) hp), Nat.add_zero, Nat.add_zero, ih]

namespace Cursor
variable {c : Cursor}

theorem arguments_scan (c : Cursor) : c.scan.2.arguments =
    c.arguments + if c.scan.1.kind = .argument then 1 else 0 := by
  rw [kind_scan]
  unfold scan
  dsimp only
  split <;> simp [*]

theorem text_scan_argument (h : c.scan.1.kind = .argument) :
    c.scan.1.text = argumentName (c.arguments + 1) := by
  rw [kind_scan] at h
  simp only [scan, if_pos h]

theorem arguments_after (c : Cursor) (n : Nat) : (c.after n).arguments =
    c.arguments + Nat.count (fun m => (c.after m).scan.1.kind = .argument) n := by
  induction n with
  | zero => simp
  | succ n ih => rw [after_succ, arguments_scan, ih, Nat.count_succ, Nat.add_assoc]

/-- Arguments are numbered among the tokens that count, since no comment is one. -/
theorem text_significantToken (hfirst : c.arguments = 0) {k : Nat}
    (h : (c.significantToken k).kind = .argument) : (c.significantToken k).text =
      argumentName (Nat.count (fun i => (c.significantToken i).kind = .argument) (k+1)) := by
  have hcount := count_nth_comp (p := c.IsSignificant)
    (q := fun n => (c.after n).scan.1.kind = .argument) (fun n hn => by simp [IsSignificant, hn])
    (Nat.nth c.IsSignificant k)
  rw [Nat.count_nth_of_infinite c.infinite_isSignificant] at hcount
  rw [Nat.count_succ, if_pos h, significantToken, text_scan_argument h, arguments_after, hfirst,
    Nat.zero_add, ← hcount]
  rfl

theorem scan_after_of_le {m n : Nat} (h : (c.after m).scan.1.kind = .endOfInput) (hmn : m ≤ n) :
    (c.after n).scan = (c.after m).scan := by
  induction n, hmn using Nat.le_induction with
  | base => rfl
  | succ n _ ih => rw [after_succ, scan_again (by rw [ih]; exact h), ih]

theorem exists_end_significantToken (c : Cursor) : ∃ count, ∀ k,
    ((c.significantToken k).kind = .endOfInput ↔ count ≤ k) ∧
      (count ≤ k → c.significantToken k = c.significantToken count) := by
  obtain ⟨count, -, -, hbefore, hend⟩ := c.exists_count
  have hnth : ∀ k, Nat.count c.IsSignificant count ≤ k ↔ count ≤ Nat.nth c.IsSignificant k :=
    fun k => Nat.count_le_iff_le_nth c.infinite_isSignificant
  refine ⟨Nat.count c.IsSignificant count, fun k => ⟨?_, fun hk => ?_⟩⟩
  · rw [hnth]
    exact kind_after_iff hbefore hend _
  · have hfirst := (hnth _).1 (Nat.le_refl (Nat.count c.IsSignificant count))
    rw [significantToken, significantToken, scan_after_of_le hend ((hnth k).1 hk),
      scan_after_of_le hend hfirst]

end Cursor

theorem Lookahead.follows_ofText (text : String) :
    reader.Follows (ofText text) (Cursor.ofText text).significantToken :=
  reader.follows_significant ofCursor (fun _ => rfl) (fun _ => rfl) (fun _ => rfl) (.ofText text)

theorem TokenStream.follows_ofText (text : String) :
    reader.Follows (ofText text) (Cursor.ofText text).significantToken :=
  reader.follows_significant ofCursor (fun c => (ofCursor_scanSignificant c).1) (fun _ => rfl)
    (fun c => (ofCursor_scanSignificant c).2) (.ofText text)

/-- A reader that is a token ahead and a stream of all tokens both follow the scans of a text that find
no comment, in the order of these and without a gap; among them are faults, the end of the input again
and again behind the last one, and arguments, each with its number. -/
theorem follows_scans (text : String) :
    let token : Nat → Token := fun n => ((Cursor.ofText text).after n).scan.1
    ∃ index : Nat → Nat, StrictMono index ∧
      (∀ n, n ∈ Set.range index ↔ (token n).kind ≠ .comment) ∧
      let significant : Nat → Token := fun k => token (index k)
      Lookahead.reader.Follows (.ofText text) significant ∧
      TokenStream.reader.Follows (.ofText text) significant ∧
      (∃ count, ∀ k, ((significant k).kind = .endOfInput ↔ count ≤ k) ∧
        (count ≤ k → significant k = significant count)) ∧
      ∀ k, (significant k).kind = .argument → (significant k).text =
        Cursor.argumentName (Nat.count (fun i => (significant i).kind = .argument) (k+1)) := by
  intro token
  have hinfinite := (Cursor.ofText text).infinite_isSignificant
  refine ⟨Nat.nth (Cursor.ofText text).IsSignificant, Nat.nth_strictMono hinfinite, fun n => ?_,
    Lookahead.follows_ofText text, TokenStream.follows_ofText text,
    Cursor.exists_end_significantToken _, fun k => Cursor.text_significantToken ?_⟩
  · rw [Nat.range_nth_of_infinite hinfinite]
    rfl
  · unfold Cursor.ofText
    split <;> rfl

end SqlComposer
