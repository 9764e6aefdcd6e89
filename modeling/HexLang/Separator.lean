import HexLang.Blank

/-! Cutting a text at a marker. Occurrences are taken from the left and do
not overlap, and an empty marker occurs in front of every text. -/

namespace HexLang

/-- The parts before and after the first occurrence of the marker. -/
def splitFirst (marker : Text) : Text → Option (Text × Text)
  | [] => if marker = [] then some ([], []) else none
  | c :: rest =>
    if marker.isPrefixOf (c :: rest) then some ([], (c :: rest).drop marker.length)
    else (splitFirst marker rest).map fun (before, after) => (c :: before, after)

theorem splitFirst_append {marker text before after : Text}
    (h : splitFirst marker text = some (before, after)) : before ++ marker ++ after = text := by
  induction text generalizing before with
  | nil =>
    simp only [splitFirst] at h
    split at h
    · simp_all
    · simp at h
  | cons c rest ih =>
    simp only [splitFirst] at h
    split at h
    · rename_i hm
      obtain ⟨tail, ht⟩ := List.isPrefixOf_iff_prefix.mp hm
      simp only [Option.some.injEq, Prod.mk.injEq] at h
      obtain ⟨rfl, rfl⟩ := h
      simp [← ht]
    · obtain ⟨⟨b, a⟩, hs, he⟩ := Option.map_eq_some_iff.mp h
      simp only [Prod.mk.injEq] at he
      obtain ⟨rfl, rfl⟩ := he
      simp [← ih hs]

theorem splitFirst_length_lt {marker text before after : Text} (hm : marker ≠ [])
    (h : splitFirst marker text = some (before, after)) : after.length < text.length := by
  have hlen := congrArg List.length (splitFirst_append h)
  have hpos := List.length_pos_iff.mpr hm
  simp only [List.length_append] at hlen
  omega

/-- The pieces between all occurrences of a marker that is not empty. -/
def splitOn (marker text : Text) : List Text :=
  match hs : splitFirst marker text with
  | none => [text]
  | some (before, after) =>
    if hm : marker = [] then [text]
    else
      have : after.length < text.length := splitFirst_length_lt hm hs
      before :: splitOn marker after
termination_by text.length

theorem splitOn_ne_nil (marker text : Text) : splitOn marker text ≠ [] := by
  rw [splitOn]
  split
  · simp
  · split <;> simp

end HexLang
