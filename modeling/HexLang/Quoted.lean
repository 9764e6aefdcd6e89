import HexLang.Blank
import HexLang.Glyph

/-! Texts in quotes, on one line. -/

namespace HexLang

/-- Double quotes are taken only where they spare the escape of a single one. -/
def quoteMark (text : Text) : Char :=
  if '\'' ∈ text ∧ '"' ∉ text then '"' else '\''

/-- A character by the digits of its code point, of which the letter in front tells how many. -/
def codeEscape (c : Char) : Text :=
  if c.toNat < 0x100 then digits 'x' 2
  else if c.toNat < 0x10000 then digits 'u' 4
  else digits 'U' 8
where
  digits (letter : Char) (width : Nat) : Text :=
    '\\' :: letter :: (Nat.toDigits 16 c.toNat).leftpad width '0'

/-- Line breaks and tabs have letters of their own, the other hidden characters are
written by their code points. -/
def escape (mark c : Char) : Text :=
  if c = mark ∨ c = '\\' then ['\\', c]
  else if c = '\n' then ['\\', 'n']
  else if c = '\r' then ['\\', 'r']
  else if c = '\t' then ['\\', 't']
  else if isHidden c then codeEscape c
  else [c]

def quote (text : Text) : Text :=
  let mark := quoteMark text
  mark :: text.flatMap (escape mark) ++ [mark]

end HexLang
