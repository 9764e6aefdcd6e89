import HexLang.Blank

/-! The caret window: the characters around one position of a text, with an
ellipsis on each side that was cut, and a caret under the position. -/

namespace HexLang

/-- A negative position counts from the end, and every position is clamped to the text. -/
def clampPosition (length : Nat) (i : Int) : Nat :=
  if i < 0 then (length + i).toNat else min i.toNat length

def slice (text : Text) (first last : Int) : Text :=
  (text.take (clampPosition text.length last)).drop (clampPosition text.length first)

/-- As many spaces as `width` says, and none for a negative width. -/
def spaces (width : Int) : Text :=
  List.replicate width.toNat ' '

def windowReach : Int := 10

def ellipsis : Text := "...".toList

def pointAt (code : Text) (index : Int) : Text :=
  let first := max 0 (index - windowReach)
  let last := min (code.length : Int) (index + windowReach)
  let before := if 0 < first then ellipsis else []
  let after := if last < code.length then ellipsis else []
  before ++ slice code first last ++ after ++ '\n' :: spaces (index - first + before.length) ++ ['^']

@[simp] theorem clampPosition_natCast (length i : Nat) : clampPosition length i = min i length :=
  if_neg (Int.not_lt.mpr (Int.natCast_nonneg i))

/-- The slice from one place of a text to a later one is the part that stands between them. -/
theorem slice_append (before shown after : Text) :
    slice (before ++ (shown ++ after)) before.length (before.length + shown.length) = shown := by
  have hfirst : before.length ≤ (before ++ (shown ++ after)).length := by simp
  have hlast : (before ++ shown).length ≤ (before ++ shown ++ after).length := by simp
  rw [slice, ← Int.natCast_add, ← List.length_append, clampPosition_natCast,
    clampPosition_natCast, Nat.min_eq_left hfirst, ← List.append_assoc, Nat.min_eq_left hlast,
    List.take_left, List.drop_left]

@[simp] theorem length_spaces (width : Int) : (spaces width).length = width.toNat := by
  simp [spaces]

end HexLang
