import SqlComposer.Proofs.Token.Lines
import SqlComposer.Text.Utf8

/-! The bytes of a text, decoded, give that text and nothing else. -/
namespace SqlComposer.Utf8

theorem decodeBehind_append (xs bs : List UInt8) : decodeBehind xs.length (xs ++ bs) = decode bs := by
  induction xs with
  | nil => rfl
  | cons x xs ih => exact ih

theorem decode_append (c : Char) (bs : List UInt8) :
    decode (String.utf8EncodeChar c ++ bs) = c :: decode bs := by
  have hlength := String.length_utf8EncodeChar c
  have hchar : (String.utf8EncodeChar c ++ bs).toByteArray.utf8DecodeChar? 0 = some c := by
    rw [List.toByteArray_append]
    exact ByteArray.utf8DecodeChar?_utf8EncodeChar_append
  cases hc : String.utf8EncodeChar c with
  | nil =>
    have hpos := c.utf8Size_pos
    rw [← hlength, hc] at hpos
    cases hpos
  | cons b tail =>
    rw [hc] at hlength hchar
    have htail : c.utf8Size - 1 = tail.length := by
      rw [← hlength, List.length_cons]
      omega
    change decodeBehind 0 (b :: (tail ++ bs)) = _
    rw [decodeBehind, show (b :: (tail ++ bs)).toByteArray.utf8DecodeChar? 0 = some c from hchar]
    dsimp only
    rw [htail, decodeBehind_append]

/-- The bytes of a text give it back. -/
theorem decode_encode (cs : List Char) : decode (encode cs) = cs := by
  induction cs with
  | nil => rfl
  | cons c cs ih =>
    change decode (String.utf8EncodeChar c ++ encode cs) = _
    rw [decode_append, ih]

/-- Four bytes are enough to know a character. -/
theorem head_decode_take (c : Char) (bs : List UInt8) :
    (decode ((String.utf8EncodeChar c ++ bs).take 4)).headD replacement = c := by
  have hsize : (String.utf8EncodeChar c).length ≤ 4 := by
    rw [String.length_utf8EncodeChar]
    exact c.utf8Size_le_four
  rw [List.take_append, List.take_of_length_le hsize, decode_append]
  rfl

example : decode ((encode ['Δ', '€']).take 4) = ['Δ', replacement] := by decide +kernel

end SqlComposer.Utf8
