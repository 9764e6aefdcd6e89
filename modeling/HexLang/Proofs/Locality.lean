import HexLang.Proofs.Layout

/-! Cutting into tokens is local at a gap. No token but a comment goes on over a
gap, and no marker does that holds none, so what stands behind a gap has no part
in the tokens in front of it. -/

namespace HexLang

section Gap

variable {marker after : Text} {g : Char}

/-- A text that does not hold the character begins in front of it or not at all. -/
theorem prefix_append_cons_iff_of_notMem (hg : g ∉ marker) (a b : Text) :
    marker <+: a ++ g :: b ↔ marker <+: a := by
  refine ⟨fun hp => ?_, fun hp => hp.trans (List.prefix_append a _)⟩
  rcases Nat.lt_or_ge a.length marker.length with hlt | hle
  · have hlen : (a ++ [g]).length ≤ marker.length := by
      rw [List.length_append, List.length_singleton]
      exact hlt
    have hahead : a ++ [g] <+: a ++ g :: b := ⟨b, by simp⟩
    exact absurd ((List.prefix_of_prefix_length_le hahead hp hlen).subset (by simp)) hg
  · exact List.prefix_of_prefix_length_le hp (List.prefix_append a _) hle

theorem Classed.append_gap {kind : TokenKind} {w : Text} (h : Classed kind w after)
    (hk : kind ≠ .comment) (hg : isGap g = true) (b : Text) :
    Classed kind w (after ++ g :: b) := by
  refine h.of_head? hk fun c hc => ?_
  cases after with
  | nil =>
    obtain rfl := Option.some.inj hc
    exact .inr hg
  | cons d after => exact .inl hc

theorem Token.Cut.append_gap {t : Token} (h : t.Cut marker (t.text ++ after))
    (hk : t.kind ≠ .comment) (hm : g ∉ marker) (hg : isGap g = true) (b : Text) :
    t.Cut marker (t.text ++ (after ++ g :: b)) where
  sliced := List.prefix_append _ _
  begins := h.begins
  gapless := h.gapless
  comment_iff := by
    rw [← List.append_assoc, prefix_append_cons_iff_of_notMem hm]
    exact h.comment_iff
  classed := by
    rw [List.drop_left]
    exact h.classed_before.append_gap hk hg b

end Gap

section Split

variable {marker a b : Text} {g : Char} {base : Int}

theorem lex_append_gap (hm : g ∉ marker) (hg : isGap g = true)
    (h : ∀ t ∈ lex marker base a, t.kind ≠ .comment) :
    lex marker base (a ++ g :: b) = lex marker base a ++ lex marker (base + a.length + 1) b := by
  generalize hts : lex marker base a = ts at h
  -- along the tokens of the first part: each is the one that is cut in the whole text too
  induction ts generalizing base a with
  | nil => rw [lex_gaps (isGap_of_lex_eq_nil hts), lex_gap hg, List.nil_append]
  | cons t ts ih =>
    obtain ⟨gaps, after, hgaps, rfl, hcut, ho, hrest⟩ := exists_of_lex_eq_cons hts
    obtain ⟨hk, hks⟩ := List.forall_mem_cons.mp h
    have hcut' := hcut.append_gap hk hm hg b
    have hnext : t.offset + t.text.length + after.length + 1 =
        base + (gaps ++ (t.text ++ after)).length + 1 := by
      simp only [List.length_append, ho]
      omega
    rw [List.append_assoc, List.append_assoc, lex_gaps hgaps, ← ho, hcut'.lex_eq, ih hrest.symm hks,
      hnext]
    rfl

/-- Where a text stands makes no difference to whether a comment begins in it. -/
theorem lex_commentless_iff (marker : Text) (base : Int) (a : Text) :
    (∀ t ∈ lex marker base a, t.kind ≠ .comment) ↔ ∀ t ∈ lex marker 0 a, t.kind ≠ .comment := by
  have hmoved := lex_add marker 0 base a
  rw [Int.zero_add] at hmoved
  rw [hmoved, List.forall_mem_map]
  rfl

/-- A comment goes on to the end of the text, so it is another token when more text follows. -/
theorem notMem_lex_append {t : Token} (h : t ∈ lex marker base a) (hk : t.kind = .comment)
    (hb : b ≠ []) : t ∉ lex marker base (a ++ b) := by
  intro hmore
  have hcut : ∀ {text}, t ∈ lex marker base text → t.Cut marker (t.ahead base text) :=
    fun ht => ((segmentation_iff_eq_lex marker base _ _).mpr rfl).cut t ht
  have hshort := (hcut h).text_eq_of_comment hk
  have hlong := (hcut hmore).text_eq_of_comment hk
  have hle : (t.offset - base).toNat ≤ a.length := by
    have hpos := (hcut h).length_pos
    rw [hshort, Token.ahead, List.length_drop] at hpos
    omega
  rw [hshort, Token.ahead, Token.ahead, List.drop_append_of_le_length hle] at hlong
  exact hb (List.self_eq_append_right.mp hlong)

end Split

/-- The tokens of a text with a gap in it are those in front of the gap and those behind it, just
if no comment begins in front of it. -/
theorem lex_splits_at_gap_iff {marker : Text} {g : Char} (hm : ∀ c ∈ marker, isGap c = false)
    (hg : isGap g = true) (base : Int) (a b : Text) :
    lex marker base (a ++ g :: b) = lex marker base a ++ lex marker (base + a.length + 1) b ↔
      ∀ t ∈ lex marker 0 a, t.kind ≠ .comment := by
  have hmarker : g ∉ marker := by
    intro hmem
    have hc := hm g hmem
    rw [hg] at hc
    cases hc
  rw [← lex_commentless_iff marker base a]
  refine ⟨fun hsplit t ht hk => ?_, lex_append_gap hmarker hg⟩
  have hmem : t ∈ lex marker base (a ++ g :: b) := hsplit ▸ List.mem_append_left _ ht
  exact notMem_lex_append ht hk (by simp) hmem

/-- Neither the digits nor the colon in front of the line break go on behind it. -/
theorem lex_splits_at_gap_colon :
    let marker : Text := ['/', '/']
    let a := "x1 / (0f :".toList
    let b := "= a2 // y".toList
    (∀ c ∈ marker, isGap c = false) ∧ isGap '\n' = true ∧
      (∀ t ∈ lex marker 0 a, t.kind ≠ .comment) ∧
      lex marker 4 (a ++ '\n' :: b) = lex marker 4 a ++ lex marker 15 b := by
  intro marker a b
  have hm : ∀ c ∈ marker, isGap c = false := by
    intro c hc
    obtain rfl : c = '/' := by simpa [marker] using hc
    decide
  have hg : isGap '\n' = true := by decide
  have hplain : ∀ t ∈ lex marker 0 a, t.kind ≠ .comment := by decide +kernel
  exact ⟨hm, hg, hplain, (lex_splits_at_gap_iff hm hg 4 a b).mpr hplain⟩

end HexLang
