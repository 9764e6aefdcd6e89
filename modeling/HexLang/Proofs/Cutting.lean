import HexLang.Separator
import Mathlib.Data.List.Infix

/-! The pieces of a text between the occurrences of a marker, taken from the
left. A marker of one character cuts at each of its places, so the pieces of
what is appended to a text continue its last piece. -/

namespace HexLang

/-- The first occurrence of the marker in the text stands between `before` and `after`. -/
structure FirstCut (marker text before after : Text) : Prop where
  parts : before ++ marker ++ after = text
  first : ∀ pre, pre ++ marker <+: text → before.length ≤ pre.length

/-- The pieces between the leftmost occurrences that do not overlap. -/
inductive Pieces (marker : Text) : Text → List Text → Prop where
  | last {text : Text} : ¬ marker <:+: text → Pieces marker text [text]
  | cut {text before after : Text} {pieces : List Text} : FirstCut marker text before after →
      Pieces marker after pieces → Pieces marker text (before :: pieces)

section First

variable {marker text before after : Text}

theorem FirstCut.isInfix (h : FirstCut marker text before after) : marker <:+: text :=
  ⟨before, after, h.parts⟩

theorem FirstCut.unique {before' after' : Text} (h : FirstCut marker text before after)
    (h' : FirstCut marker text before' after') : before = before' ∧ after = after' := by
  have hle := h.first before' (h'.parts ▸ List.prefix_append _ _)
  have hle' := h'.first before (h.parts ▸ List.prefix_append _ _)
  have hparts : before ++ marker ++ after = before' ++ marker ++ after' :=
    h.parts.trans h'.parts.symm
  have hlen : (before ++ marker).length = (before' ++ marker).length := by
    simp only [List.length_append]
    omega
  obtain ⟨hb, ha⟩ := List.append_inj hparts hlen
  exact ⟨List.append_cancel_right hb, ha⟩

theorem firstCut_of_splitFirst (h : splitFirst marker text = some (before, after)) :
    FirstCut marker text before after := by
  refine ⟨splitFirst_append h, ?_⟩
  induction text generalizing before with
  | nil =>
    intro pre _
    simp only [splitFirst] at h
    split at h
    · simp only [Option.some.injEq, Prod.mk.injEq] at h
      simp [← h.1]
    · simp at h
  | cons c rest ih =>
    intro pre hpre
    simp only [splitFirst] at h
    split at h
    · simp only [Option.some.injEq, Prod.mk.injEq] at h
      simp [← h.1]
    · rename_i hm
      obtain ⟨⟨b, a⟩, hs, he⟩ := Option.map_eq_some_iff.mp h
      simp only [Prod.mk.injEq] at he
      obtain ⟨rfl, rfl⟩ := he
      cases pre with
      | nil => exact absurd (List.isPrefixOf_iff_prefix.mpr hpre) hm
      | cons d pre =>
        have hle := ih hs pre (List.cons_prefix_cons.mp hpre).2
        simpa using hle

theorem not_infix_of_splitFirst (h : splitFirst marker text = none) : ¬ marker <:+: text := by
  induction text with
  | nil =>
    simp only [splitFirst] at h
    split at h
    · simp at h
    · rename_i hm
      exact fun hi => hm (List.infix_nil.mp hi)
  | cons c rest ih =>
    simp only [splitFirst] at h
    split at h
    · simp at h
    · rename_i hm
      intro hi
      rcases List.infix_cons_iff.mp hi with hp | hr
      · exact hm (List.isPrefixOf_iff_prefix.mpr hp)
      · exact ih (Option.map_eq_none_iff.mp h) hr

theorem splitFirst_eq_some_iff :
    splitFirst marker text = some (before, after) ↔ FirstCut marker text before after := by
  refine ⟨firstCut_of_splitFirst, fun h => ?_⟩
  cases hs : splitFirst marker text with
  | none => exact absurd h.isInfix (not_infix_of_splitFirst hs)
  | some parts =>
    obtain ⟨b, a⟩ := parts
    obtain ⟨rfl, rfl⟩ := h.unique (firstCut_of_splitFirst hs)
    rfl

theorem splitFirst_eq_none_iff : splitFirst marker text = none ↔ ¬ marker <:+: text := by
  refine ⟨not_infix_of_splitFirst, fun h => ?_⟩
  cases hs : splitFirst marker text with
  | none => rfl
  | some parts => exact absurd (firstCut_of_splitFirst hs).isInfix h

theorem FirstCut.append (h : FirstCut marker text before after) (more : Text) :
    FirstCut marker (text ++ more) before (after ++ more) := by
  refine ⟨by rw [← List.append_assoc, h.parts], fun pre hpre => ?_⟩
  by_contra hlt
  have hlen : (pre ++ marker).length ≤ text.length := by
    simp only [← h.parts, List.length_append]
    omega
  exact hlt (h.first pre (List.prefix_of_prefix_length_le hpre (List.prefix_append _ _) hlen))

end First

section Appended

variable {marker text : Text} {c : Char}

/-- A character that the marker does not hold adds no occurrence of it at the front. -/
theorem prefix_concat_iff_of_notMem (hc : c ∉ marker) :
    marker <+: text ++ [c] ↔ marker <+: text := by
  rw [List.prefix_concat_iff, or_iff_right]
  rintro rfl
  exact hc (by simp)

theorem infix_concat_iff_of_notMem (hm : marker ≠ []) (hc : c ∉ marker) :
    marker <:+: text ++ [c] ↔ marker <:+: text := by
  rw [List.infix_concat_iff, or_iff_right]
  intro hs
  rcases List.suffix_concat_iff.mp hs with h | ⟨t, rfl, -⟩
  · exact hm h
  · exact hc (by simp)

theorem splitFirst_concat_of_notMem (hm : marker ≠ []) (hc : c ∉ marker) :
    splitFirst marker (text ++ [c]) =
      (splitFirst marker text).map (Prod.map id (· ++ [c])) := by
  cases hs : splitFirst marker text with
  | none =>
    rw [splitFirst_eq_none_iff] at hs
    exact splitFirst_eq_none_iff.mpr (mt (infix_concat_iff_of_notMem hm hc).mp hs)
  | some parts => exact splitFirst_eq_some_iff.mpr ((splitFirst_eq_some_iff.mp hs).append [c])

end Appended

theorem splitOn_of_uncut {marker text : Text} (h : ¬ marker <:+: text) :
    splitOn marker text = [text] := by
  rw [splitOn]
  split
  · rfl
  · rename_i hs
    exact absurd (firstCut_of_splitFirst hs).isInfix h

theorem splitOn_of_firstCut {marker text before after : Text} (hm : marker ≠ [])
    (h : FirstCut marker text before after) :
    splitOn marker text = before :: splitOn marker after := by
  have hs := splitFirst_eq_some_iff.mpr h
  rw [splitOn]
  split
  · rename_i hn
    simp [hs] at hn
  · rename_i b a hb
    rw [hs, Option.some.injEq, Prod.mk.injEq] at hb
    simp [hm, hb.1, hb.2]

theorem FirstCut.length_lt {marker text before after : Text} (h : FirstCut marker text before after)
    (hm : marker ≠ []) : after.length < text.length :=
  splitFirst_length_lt hm (splitFirst_eq_some_iff.mpr h)

theorem pieces_splitOn {marker : Text} (hm : marker ≠ []) (text : Text) :
    Pieces marker text (splitOn marker text) := by
  induction hlen : text.length using Nat.strong_induction_on generalizing text with
  | _ n ih =>
    subst hlen
    cases hs : splitFirst marker text with
    | none =>
      have hn := splitFirst_eq_none_iff.mp hs
      rw [splitOn_of_uncut hn]
      exact .last hn
    | some parts =>
      obtain ⟨before, after⟩ := parts
      have hcut := firstCut_of_splitFirst hs
      rw [splitOn_of_firstCut hm hcut]
      exact .cut hcut (ih after.length (hcut.length_lt hm) after rfl)

theorem pieces_iff_eq_splitOn {marker : Text} (hm : marker ≠ []) {text : Text}
    {pieces : List Text} : Pieces marker text pieces ↔ pieces = splitOn marker text := by
  constructor
  · intro h
    induction h with
    | last hn => rw [splitOn_of_uncut hn]
    | cut hcut _ ih => rw [splitOn_of_firstCut hm hcut, ih]
  · rintro rfl
    exact pieces_splitOn hm text

theorem exists_splitOn_eq (marker text : Text) :
    ∃ pieces last, splitOn marker text = pieces ++ [last] :=
  ⟨_, _, (List.dropLast_append_getLast (splitOn_ne_nil marker text)).symm⟩

section Character

variable {c : Char}

theorem singleton_infix_iff {text : Text} : [c] <:+: text ↔ c ∈ text := by
  constructor
  · rintro ⟨pre, post, rfl⟩
    simp
  · intro h
    obtain ⟨pre, post, rfl⟩ := List.append_of_mem h
    exact ⟨pre, post, by simp⟩

/-- A marker does not occur where its first character does not. -/
theorem firstCut_of_notMem {before : Text} (h : c ∉ before) (rest after : Text) :
    FirstCut (c :: rest) (before ++ (c :: rest) ++ after) before after := by
  refine ⟨rfl, fun pre hpre => ?_⟩
  by_contra hlt
  have hc : pre ++ [c] <+: before ++ (c :: rest) ++ after :=
    List.IsPrefix.trans ((List.prefix_append_right_inj pre).mpr ⟨rest, rfl⟩) hpre
  have hwhole : before <+: before ++ (c :: rest) ++ after := ⟨(c :: rest) ++ after, by simp⟩
  have hp : pre ++ [c] <+: before := by
    refine List.prefix_of_prefix_length_le hc hwhole ?_
    rw [List.length_append, List.length_singleton]
    omega
  exact h (hp.subset (by simp))

theorem firstCut_singleton {before : Text} (h : c ∉ before) (after : Text) :
    FirstCut [c] (before ++ c :: after) before after := by
  simpa using firstCut_of_notMem h [] after

theorem FirstCut.notMem {text before after : Text} (h : FirstCut [c] text before after) :
    c ∉ before := by
  intro hc
  obtain ⟨pre, post, rfl⟩ := List.append_of_mem hc
  have hle := h.first pre (h.parts ▸ ⟨post ++ [c] ++ after, by simp⟩)
  simp only [List.length_append, List.length_cons] at hle
  omega

theorem splitOn_singleton_of_notMem {text : Text} (h : c ∉ text) : splitOn [c] text = [text] :=
  splitOn_of_uncut fun hi => h (singleton_infix_iff.mp hi)

theorem splitOn_singleton_cons {before : Text} (h : c ∉ before) (after : Text) :
    splitOn [c] (before ++ c :: after) = before :: splitOn [c] after :=
  splitOn_of_firstCut (by simp) (firstCut_singleton h after)

theorem notMem_of_mem_splitOn {text piece : Text} (h : piece ∈ splitOn [c] text) : c ∉ piece := by
  have hp : Pieces [c] text (splitOn [c] text) := pieces_splitOn (by simp) text
  generalize splitOn [c] text = pieces at h hp
  induction hp with
  | last hn =>
    obtain rfl := List.mem_singleton.mp h
    exact fun hc => hn (singleton_infix_iff.mpr hc)
  | cut hcut _ ih =>
    rcases List.mem_cons.mp h with rfl | h
    · exact hcut.notMem
    · exact ih h

end Character

end HexLang
