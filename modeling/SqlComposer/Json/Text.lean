import SqlComposer.Json.Basic

/-! JSON strings. A character beyond the first plane is escaped as two halves, which must come
together; where a string is only passed over, halves may stand alone. -/
namespace SqlComposer.Json

def hexValue? (c : Char) : Option Nat :=
  if c.isDigit then some (c.toNat - '0'.toNat)
  else if 'a' ≤ c && c ≤ 'f' then some (c.toNat - 'a'.toNat + 10)
  else if 'A' ≤ c && c ≤ 'F' then some (c.toNat - 'A'.toNat + 10)
  else none

/-- Four hexadecimal digits. With fewer than four bytes left the text has ended too early. -/
def codeUnit (cs : List Char) : Except Fault (Nat × List Char) :=
  match cs with
  | a :: b :: c :: d :: rest =>
    match [a, b, c, d].mapM hexValue? with
    | some ns => .ok (ns.foldl (fun n d => 16 * n + d) 0, rest)
    | none => .error .malformed
  | _ => .error (if (String.ofList cs).utf8ByteSize < 4 then .truncated else .malformed)

def isHighHalf (n : Nat) : Bool := 0xD800 ≤ n && n ≤ 0xDBFF

def isLowHalf (n : Nat) : Bool := 0xDC00 ≤ n && n ≤ 0xDFFF

/-- The character of two halves. -/
def joinHalves (high low : Nat) : Char :=
  Char.ofNat (0x10000 + (high - 0xD800) * 0x400 + (low - 0xDC00))

/-- The low half that has to follow a high one. -/
def lowHalf (cs : List Char) : Except Fault (Nat × List Char) :=
  match cs with
  | '\\' :: 'u' :: rest => do
    let (n, rest) ← codeUnit rest
    if isLowHalf n then return (n, rest) else .error .malformed
  | [] => .error .truncated
  | ['\\'] => .error .truncated
  | _ => .error .malformed

/-- The characters that are escaped by a letter or by themselves. -/
def plainEscape? : Char → Option Char
  | '"' => some '"'
  | '\\' => some '\\'
  | '/' => some '/'
  | 'b' => some '\x08'
  | 'f' => some '\x0c'
  | 'n' => some '\n'
  | 'r' => some '\r'
  | 't' => some '\t'
  | _ => none

/-- An escaped character, behind its backslash. -/
def escaped (strict : Bool) (cs : List Char) : Except Fault (Char × List Char) :=
  match cs with
  | [] => .error .truncated
  | 'u' :: rest => do
    let (n, rest) ← codeUnit rest
    if !strict then return (Char.ofNat n, rest)
    else if isLowHalf n then .error .malformed
    else if isHighHalf n then
      let (low, rest) ← lowHalf rest
      return (joinHalves n low, rest)
    else return (Char.ofNat n, rest)
  | c :: rest =>
    match plainEscape? c with
    | some c => .ok (c, rest)
    | none => .error .malformed

theorem length_codeUnit_lt {cs : List Char} {r : Nat × List Char} (h : codeUnit cs = .ok r) :
    r.2.length < cs.length := by
  unfold codeUnit at h
  split at h
  · split at h
    · cases h; simp only [List.length_cons]; omega
    · cases h
  · cases h

theorem length_lowHalf_lt {cs : List Char} {r : Nat × List Char} (h : lowHalf cs = .ok r) :
    r.2.length < cs.length := by
  unfold lowHalf at h
  split at h
  · rename_i rest
    cases hc : codeUnit rest with
    | error e => rw [hc] at h; cases h
    | ok p =>
      have := length_codeUnit_lt hc
      rw [hc] at h
      simp only [bind, Except.bind] at h
      split at h
      · cases h; simp only [List.length_cons]; omega
      · cases h
  all_goals cases h

theorem length_escaped_lt {strict : Bool} {cs : List Char} {r : Char × List Char}
    (h : escaped strict cs = .ok r) : r.2.length < cs.length := by
  unfold escaped at h
  split at h
  · cases h
  · rename_i rest
    cases hc : codeUnit rest with
    | error e => rw [hc] at h; cases h
    | ok p =>
      have hp := length_codeUnit_lt hc
      rw [hc] at h
      simp only [bind, Except.bind] at h
      split at h
      · cases h; simp only [List.length_cons]; omega
      · split at h
        · cases h
        · split at h
          · cases hl : lowHalf p.2 with
            | error e => rw [hl] at h; cases h
            | ok q =>
              have := length_lowHalf_lt hl
              rw [hl] at h
              obtain rfl := Except.ok.inj h
              simp only [List.length_cons]; omega
          · cases h; simp only [List.length_cons]; omega
  · split at h
    · cases h; simp
    · cases h

/-- The characters of a string, behind its opening quotation mark. -/
def text (strict : Bool) (cs : List Char) : Except Fault (List Char × List Char) :=
  match cs with
  | [] => .error .truncated
  | '"' :: rest => .ok ([], rest)
  | '\\' :: rest =>
    match _h : escaped strict rest with
    | .error f => .error f
    | .ok (c, rest) => (text strict rest).map fun r => (c :: r.1, r.2)
  | c :: rest =>
    if c.toNat < 0x20 then .error .malformed
    else (text strict rest).map fun r => (c :: r.1, r.2)
termination_by cs.length
decreasing_by
  · have := length_escaped_lt _h
    simp only [List.length_cons] at this ⊢
    omega
  · simp

end SqlComposer.Json
