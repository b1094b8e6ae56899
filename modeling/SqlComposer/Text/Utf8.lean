/-! Text out of bytes. Bytes that are no UTF-8 give a replacement character for each piece of them, so
that any bytes are decoded. -/
namespace SqlComposer.Utf8

def replacement : Char := '\ufffd'

/-- How many bytes a lead byte promises, and the least and the greatest that the first of them may
be; no lead byte promises none. -/
def promised (lead : UInt8) : Nat × UInt8 × UInt8 :=
  if lead < 0xc2 then (0, 0x80, 0xbf)
  else if lead < 0xe0 then (1, 0x80, 0xbf)
  else if lead = 0xe0 then (2, 0xa0, 0xbf)
  else if lead = 0xed then (2, 0x80, 0x9f)
  else if lead < 0xf0 then (2, 0x80, 0xbf)
  else if lead = 0xf0 then (3, 0x90, 0xbf)
  else if lead < 0xf4 then (3, 0x80, 0xbf)
  else if lead = 0xf4 then (3, 0x80, 0x8f)
  else (0, 0x80, 0xbf)

/-- How many of the bytes behind a lead byte are replaced with it: as many as keep its promise. -/
def kept (lead : UInt8) (bs : List UInt8) : Nat :=
  let (count, low, high) := promised lead
  match bs.take count with
  | [] => 0
  | b :: more =>
    if low ≤ b && b ≤ high then 1 + (more.takeWhile fun b => 0x80 ≤ b && b ≤ 0xbf).length else 0

/-- What bytes say behind so many of them. -/
def decodeBehind : Nat → List UInt8 → List Char
  | _, [] => []
  | n + 1, _ :: bs => decodeBehind n bs
  | 0, b :: bs =>
    match (b :: bs).toByteArray.utf8DecodeChar? 0 with
    | some c => c :: decodeBehind (c.utf8Size - 1) bs
    | none => replacement :: decodeBehind (kept b bs) bs

def decode (bs : List UInt8) : List Char := decodeBehind 0 bs

end SqlComposer.Utf8
