import HexLang.Blank

/-! The character classes of the language, all of them within ASCII, and the
texts built from them: names and literals. -/

namespace HexLang

/-- The blanks that may stand between two tokens. -/
def isGap (c : Char) : Bool :=
  c == ' ' || c == '\t' || c == '\r' || c == '\n'

def isOperatorSign (c : Char) : Bool :=
  c == '+' || c == '-' || c == '*' || c == '/'

def isNameStart (c : Char) : Bool :=
  c == '_' || c.isLower

def isNameChar (c : Char) : Bool :=
  c == '_' || c.isAlphanum

def isHexDigit (c : Char) : Bool :=
  c.isDigit || (decide ('a' ≤ c) && decide (c ≤ 'f'))

def isName : Text → Bool
  | [] => false
  | c :: rest => isNameStart c && rest.all isNameChar

/-- A literal starts with a decimal digit, which tells it from a name. -/
def isLiteral : Text → Bool
  | [] => false
  | c :: rest => c.isDigit && rest.all isHexDigit

def startsUppercase (text : Text) : Bool :=
  text.head?.any Char.isUpper

theorem isBlank_of_isGap {c : Char} (h : isGap c = true) : isBlank c = true := by
  simp only [isGap, Bool.or_eq_true, beq_iff_eq] at h
  rcases h with ((h | h) | h) | h <;> subst h <;> decide

end HexLang
