import HexLang.Alphabet
import HexLang.Token

/-! Cutting a text into tokens. Every character outside the gaps begins or
continues a token: one that fits no class is a token of its own. -/

namespace HexLang

/-- The kind of the token that begins with `c`, and how many characters of `rest` it takes. -/
def lexeme (commentMarker : Text) (c : Char) (rest : Text) : TokenKind × Nat :=
  if commentMarker.isPrefixOf (c :: rest) then (.comment, rest.length)
  else if c = ':' then if rest.head? = some '=' then (.assign, 1) else (.unknown, 0)
  else if c = '(' then (.bracketOpen, 0)
  else if c = ')' then (.bracketClose, 0)
  else if isOperatorSign c then (.operator, 0)
  else if isNameStart c then (.identifier, (rest.takeWhile isNameChar).length)
  else if c.isDigit then (.hexNumber, (rest.takeWhile isHexDigit).length)
  else (.unknown, 0)

/-- The tokens of a text whose first character stands at `offset`. -/
def lex (commentMarker : Text) (offset : Int) : Text → List Token
  | [] => []
  | c :: rest =>
    if isGap c then lex commentMarker (offset + 1) rest
    else
      let (kind, n) := lexeme commentMarker c rest
      ⟨kind, c :: rest.take n, offset⟩ :: lex commentMarker (offset + 1 + n) (rest.drop n)
termination_by text => text.length
decreasing_by all_goals simp only [List.length_cons, List.length_drop]; omega

theorem lexeme_le_length (commentMarker : Text) (c : Char) (rest : Text) :
    (lexeme commentMarker c rest).2 ≤ rest.length := by
  unfold lexeme
  split
  · simp
  · split
    · cases rest with
      | nil => simp
      | cons d rest => split <;> simp
    · repeat' split
      all_goals simp [(List.takeWhile_sublist _).length_le]

@[simp] theorem lex_nil (commentMarker : Text) (offset : Int) : lex commentMarker offset [] = [] := by
  rw [lex]

theorem lex_gap {c : Char} (hc : isGap c = true) (commentMarker : Text) (offset : Int) (rest : Text) :
    lex commentMarker offset (c :: rest) = lex commentMarker (offset + 1) rest := by
  rw [lex]
  simp [hc]

theorem lex_token {c : Char} (hc : isGap c = false) (commentMarker : Text) (offset : Int) (rest : Text) :
    lex commentMarker offset (c :: rest) =
      ⟨(lexeme commentMarker c rest).1, c :: rest.take (lexeme commentMarker c rest).2, offset⟩ ::
        lex commentMarker (offset + 1 + (lexeme commentMarker c rest).2)
          (rest.drop (lexeme commentMarker c rest).2) := by
  rw [lex]
  simp [hc]

end HexLang
