import HexLang.Blank

/-! Numerals: integers in base ten and as literals in base sixteen, and the
value of a literal, read from its most significant digit. -/

namespace HexLang

def sign (v : Int) : Text :=
  if v < 0 then ['-'] else []

def decimal (v : Int) : Text :=
  sign v ++ Nat.toDigits 10 v.natAbs

/-- A literal starts with a decimal digit, so a zero is put in front of a leading letter. -/
def hexLiteral (v : Int) : Text :=
  let digits := Nat.toDigits 16 v.natAbs
  sign v ++ (if digits.head?.any Char.isDigit then digits else '0' :: digits)

def digitValue (c : Char) : Nat :=
  if c.isDigit then c.toNat - '0'.toNat else c.toNat - 'a'.toNat + 10

def literalValue (text : Text) : Nat :=
  text.foldl (fun n c => 16 * n + digitValue c) 0

end HexLang
