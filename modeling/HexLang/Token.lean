import HexLang.Window

/-! Tokens, placed at an offset of the text they were taken from, and the
layout that puts them back into a line. -/

namespace HexLang

inductive TokenKind where
  | identifier
  | hexNumber
  | operator
  | assign
  | bracketOpen
  | bracketClose
  | comment
  | unknown
  deriving DecidableEq, Repr

def TokenKind.label : TokenKind → Text
  | .identifier => "identifier".toList
  | .hexNumber => "hex".toList
  | .operator => "op".toList
  | .assign => "assign".toList
  | .bracketOpen => "lparen".toList
  | .bracketClose => "rparen".toList
  | .comment => "comment".toList
  | .unknown => "unknown".toList

def TokenKind.title : TokenKind → Text
  | .identifier => "IDENTIFIER".toList
  | .hexNumber => "HEX_NUMBER".toList
  | .operator => "OPERATOR".toList
  | .assign => "ASSIGN".toList
  | .bracketOpen => "BRACKET_OPEN".toList
  | .bracketClose => "BRACKET_CLOSE".toList
  | .comment => "COMMENT".toList
  | .unknown => "UNKNOWN".toList

structure Token where
  kind : TokenKind
  text : Text
  offset : Int
  deriving DecidableEq, Repr

def Token.titled (t : Token) : Text :=
  '<' :: t.kind.title ++ '>' :: t.text

def Token.labelled (t : Token) : Text :=
  t.text ++ ':' :: t.kind.label

/-- Continues a line that starts at offset `start` and is `width` characters
wide. A token that begins before the end of the line follows it directly. -/
def layOutFrom (start : Int) (width : Nat) : List Token → Text
  | [] => []
  | t :: ts =>
    let padded := spaces (t.offset - start - width) ++ t.text
    padded ++ layOutFrom start (width + padded.length) ts

def layOut : List Token → Text
  | [] => []
  | t :: ts => layOutFrom t.offset 0 (t :: ts)

end HexLang
