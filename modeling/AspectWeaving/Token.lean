import AspectWeaving.Hexadecimal

/-!
Metadata tokens. A token is a 32-bit word: its high byte names a metadata table and its low 24 bits
a row of that table, counted from 1 (`Token.table`, `Token.row`, `Token.ofParts`).
-/
namespace AspectWeaving

/-- A reference to a row of a metadata table. -/
structure Token where
  value : UInt32
  deriving DecidableEq, Hashable, Inhabited

namespace Token

/-- Imported types. -/
def typeRef : Nat := 0x01
/-- Types the module defines. -/
def typeDef : Nat := 0x02
/-- Methods the module defines. -/
def methodDef : Nat := 0x06
/-- Imported methods. -/
def memberRef : Nat := 0x0A
/-- Constructed types such as arrays. -/
def typeSpec : Nat := 0x1B

/-- The token that refers to nothing. -/
def null : Token := ⟨0⟩

/-- The token of a row; of the table the low 8 bits count, and of the row the low 24. -/
def ofParts (table row : Nat) : Token :=
  ⟨UInt32.ofNat (table % 0x100 * 0x1000000 + row % 0x1000000)⟩

/-- The table of a token. -/
def table (t : Token) : Nat := t.value.toNat / 0x1000000

/-- The row of a token. -/
def row (t : Token) : Nat := t.value.toNat % 0x1000000

/-- The whole word is zero. -/
def isNull (t : Token) : Bool := t.value == 0

/-- Eight hexadecimal digits. -/
def text (t : Token) : String := "0x" ++ hexPadded 8 t.value.toNat

/-- The text that also spells out the table and the row. -/
def detailedText (t : Token) : String :=
  s!"Token({t.text}, table: 0x{hexPadded 2 t.table}, row: {t.row})"

theorem table_ofParts (table row : Nat) : (ofParts table row).table = table % 0x100 := by
  simp only [ofParts, Token.table, UInt32.toNat_ofNat']
  omega

theorem row_ofParts (table row : Nat) : (ofParts table row).row = row % 0x1000000 := by
  simp only [ofParts, Token.row, UInt32.toNat_ofNat']
  omega

end Token

end AspectWeaving
