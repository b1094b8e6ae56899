import SqlComposer.Text.Position

/-! The bytes of a text. Each may be looked at as the character with its number, which for ASCII is
the character that it stands for. -/
namespace SqlComposer

def bytes (text : String) : List UInt8 := text.toByteArray.data.toList

def lineFeed : UInt8 := 0x0a

def byteOrderMark : List UInt8 := [0xef, 0xbb, 0xbf]

/-- Where a text begins: behind its byte order mark, if it has one. -/
def textStart (bs : List UInt8) : Nat := if byteOrderMark <+: bs then byteOrderMark.length else 0

/-- Each byte as the character with its number. -/
def latin (bs : List UInt8) : List Char := bs.map Char.ofUInt8

def unlatin (cs : List Char) : List UInt8 := cs.map Char.toUInt8

namespace Position

/-- The place behind one byte. -/
def advanceByte (p : Position) (b : UInt8) : Position :=
  if b = lineFeed then ⟨p.offset + 1, p.line + 1, 1⟩ else ⟨p.offset + 1, p.line, p.column + 1⟩

def advanceBytes (p : Position) (bs : List UInt8) : Position := bs.foldl advanceByte p

end Position
end SqlComposer
