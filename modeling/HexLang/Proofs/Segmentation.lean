import HexLang.Lexeme
import Mathlib.Data.List.Infix

/-! The tokens of a text are its only segmentation by maximal runs: every
character outside the gaps lies in one token, and no token could go on. -/

namespace HexLang

/-- What a token is in itself, and before the characters that follow it. -/
def Classed (kind : TokenKind) (text after : Text) : Prop :=
  match kind with
  | .identifier => isName text = true ∧ ∀ c, after.head? = some c → isNameChar c = false
  | .hexNumber => isLiteral text = true ∧ ∀ c, after.head? = some c → isHexDigit c = false
  | .operator => ∃ c, text = [c] ∧ isOperatorSign c = true
  | .assign => text = [':', '=']
  | .bracketOpen => text = ['(']
  | .bracketClose => text = [')']
  | .comment => after = []
  | .unknown => ∃ c, text = [c] ∧ isNameStart c = false ∧ c.isDigit = false ∧
      isOperatorSign c = false ∧ c ≠ '(' ∧ c ≠ ')' ∧ ¬ (c = ':' ∧ after.head? = some '=')

/-- The token is the right one for a text that begins where the token does. -/
structure Token.Cut (marker : Text) (t : Token) (ahead : Text) : Prop where
  sliced : t.text <+: ahead
  begins : ∃ c, t.text.head? = some c ∧ isGap c = false
  gapless : t.kind ≠ .comment → ∀ c ∈ t.text, isGap c = false
  comment_iff : t.kind = .comment ↔ marker <+: ahead
  classed : Classed t.kind t.text (ahead.drop t.text.length)

/-- The part of a text, which begins at offset `base`, that begins with the token. -/
def Token.ahead (t : Token) (base : Int) (text : Text) : Text :=
  text.drop (t.offset - base).toNat

def Token.Covers (t : Token) (i : Int) : Prop :=
  t.offset ≤ i ∧ i < t.offset + t.text.length

structure Segmentation (marker : Text) (base : Int) (text : Text) (tokens : List Token) : Prop where
  from_base : ∀ t ∈ tokens, base ≤ t.offset
  cut : ∀ t ∈ tokens, t.Cut marker (t.ahead base text)
  ordered : tokens.Pairwise fun t u : Token => t.offset + t.text.length ≤ u.offset
  covered : ∀ (i : Nat) c, text[i]? = some c → isGap c = true ∨ ∃ t ∈ tokens, t.Covers (base + i)

theorem takeWhile_append_of_boundary {p : Char → Bool} {w after : Text} (hall : w.all p = true)
    (hnext : ∀ c, after.head? = some c → p c = false) : (w ++ after).takeWhile p = w := by
  rw [List.takeWhile_append_of_pos (List.all_eq_true.mp hall)]
  cases after with
  | nil => simp
  | cons c after => simp [hnext c rfl]

theorem takeWhile_boundary (p : Char → Bool) (rest : Text) :
    (rest.take (rest.takeWhile p).length).all p = true ∧
      ∀ c, (rest.drop (rest.takeWhile p).length).head? = some c → p c = false := by
  have hsplit := List.takeWhile_append_dropWhile (p := p) (l := rest)
  have htake : rest.take (rest.takeWhile p).length = rest.takeWhile p :=
    (List.prefix_iff_eq_take.mp (List.takeWhile_prefix p)).symm
  have hdrop : rest.drop (rest.takeWhile p).length = rest.dropWhile p := by
    have hh := congrArg (List.drop (rest.takeWhile p).length) hsplit
    rw [List.drop_left] at hh
    exact hh.symm
  refine ⟨by rw [htake, List.all_takeWhile], fun c hc => ?_⟩
  have hh := List.head?_dropWhile_not p rest
  rw [← hdrop, hc] at hh
  simpa using hh

section Classes

variable {c : Char}

theorem isGap_of_isNameChar (h : isNameChar c = true) : isGap c = false := by
  by_contra hg
  simp only [Bool.not_eq_false, isGap, Bool.or_eq_true, beq_iff_eq] at hg
  rcases hg with ((rfl | rfl) | rfl) | rfl <;> simp [isNameChar] at h

theorem isLower_iff : c.isLower = true ↔ 'a' ≤ c ∧ c ≤ 'z' := by
  change (decide (c.val ≥ 'a'.val) && decide (c.val ≤ 'z'.val)) = true ↔ _
  rw [Bool.and_eq_true, decide_eq_true_iff, decide_eq_true_iff]
  rfl

theorem isNameChar_of_isDigit (h : c.isDigit = true) : isNameChar c = true := by
  have ha : c.isAlphanum = true := by
    change (c.isAlpha || c.isDigit) = true
    rw [h, Bool.or_true]
  rw [isNameChar, ha, Bool.or_true]

theorem isNameChar_of_isLower (h : c.isLower = true) : isNameChar c = true := by
  have ha : c.isAlphanum = true := by
    change ((c.isUpper || c.isLower) || c.isDigit) = true
    rw [h, Bool.or_true, Bool.true_or]
  rw [isNameChar, ha, Bool.or_true]

theorem isNameChar_of_isNameStart (h : isNameStart c = true) : isNameChar c = true := by
  simp only [isNameStart, Bool.or_eq_true] at h
  rcases h with h | h
  · rw [isNameChar, h, Bool.true_or]
  · exact isNameChar_of_isLower h

theorem isNameChar_of_isHexDigit (h : isHexDigit c = true) : isNameChar c = true := by
  simp only [isHexDigit, Bool.or_eq_true, Bool.and_eq_true, decide_eq_true_eq] at h
  rcases h with h | ⟨ha, hf⟩
  · exact isNameChar_of_isDigit h
  · exact isNameChar_of_isLower (isLower_iff.mpr ⟨ha, Char.le_trans hf (by decide)⟩)

theorem isHexDigit_of_isDigit (h : c.isDigit = true) : isHexDigit c = true := by
  simp [isHexDigit, h]

theorem isNameStart_of_isDigit (h : c.isDigit = true) : isNameStart c = false := by
  have hd : c ≤ '9' := of_decide_eq_true (Bool.and_eq_true_iff.mp h).2
  by_contra hs
  simp only [Bool.not_eq_false, isNameStart, Bool.or_eq_true, beq_iff_eq] at hs
  rcases hs with rfl | hl
  · exact absurd hd (by decide)
  · exact absurd (Char.le_trans (isLower_iff.mp hl).1 hd) (by decide)

theorem isSign_of_isNameChar (h : isNameChar c = true) :
    c ≠ ':' ∧ c ≠ '(' ∧ c ≠ ')' ∧ isOperatorSign c = false := by
  refine ⟨?_, ?_, ?_, ?_⟩
  · rintro rfl
    simp [isNameChar] at h
  · rintro rfl
    simp [isNameChar] at h
  · rintro rfl
    simp [isNameChar] at h
  · by_contra ho
    simp only [Bool.not_eq_false, isOperatorSign, Bool.or_eq_true, beq_iff_eq] at ho
    rcases ho with ((rfl | rfl) | rfl) | rfl <;> simp [isNameChar] at h

theorem ne_of_isOperatorSign (h : isOperatorSign c = true) : c ≠ ':' ∧ c ≠ '(' ∧ c ≠ ')' := by
  refine ⟨?_, ?_, ?_⟩ <;> rintro rfl <;> simp [isOperatorSign] at h

end Classes

theorem lexeme_of_comment {marker rest : Text} {c : Char} (hm : marker <+: c :: rest) :
    lexeme marker c rest = (.comment, rest.length) := by
  simp [lexeme, List.isPrefixOf_iff_prefix, hm]

/-- A token that is right in itself and before what follows is the one that is cut. -/
theorem lexeme_of_classed {marker w after : Text} {c : Char} {kind : TokenKind}
    (hm : ¬ marker <+: c :: (w ++ after)) (hk : kind ≠ .comment)
    (h : Classed kind (c :: w) after) : lexeme marker c (w ++ after) = (kind, w.length) := by
  have hm' : ¬ marker.isPrefixOf (c :: (w ++ after)) = true := by
    rwa [List.isPrefixOf_iff_prefix]
  unfold lexeme
  rw [if_neg hm']
  cases kind with
  | identifier =>
    obtain ⟨hname, hnext⟩ := h
    simp only [isName, Bool.and_eq_true] at hname
    obtain ⟨h₁, h₂, h₃, h₄⟩ := isSign_of_isNameChar (isNameChar_of_isNameStart hname.1)
    simp only [h₁, h₂, h₃, h₄, hname.1, takeWhile_append_of_boundary hname.2 hnext,
      if_false, if_true, Bool.false_eq_true]
  | hexNumber =>
    obtain ⟨hlit, hnext⟩ := h
    simp only [isLiteral, Bool.and_eq_true] at hlit
    obtain ⟨h₁, h₂, h₃, h₄⟩ :=
      isSign_of_isNameChar (isNameChar_of_isHexDigit (isHexDigit_of_isDigit hlit.1))
    simp only [h₁, h₂, h₃, h₄, hlit.1, isNameStart_of_isDigit hlit.1,
      takeWhile_append_of_boundary hlit.2 hnext, if_false, if_true, Bool.false_eq_true]
  | operator =>
    obtain ⟨d, hw, ho⟩ := h
    obtain ⟨rfl, rfl⟩ := List.cons.inj hw
    obtain ⟨h₁, h₂, h₃⟩ := ne_of_isOperatorSign ho
    simp [h₁, h₂, h₃, ho]
  | assign =>
    obtain ⟨rfl, rfl⟩ := List.cons.inj h
    simp
  | bracketOpen =>
    obtain ⟨rfl, rfl⟩ := List.cons.inj h
    simp
  | bracketClose =>
    obtain ⟨rfl, rfl⟩ := List.cons.inj h
    simp
  | comment => exact absurd rfl hk
  | unknown =>
    obtain ⟨d, hw, hs, hd, ho, h₁, h₂, ha⟩ := h
    obtain ⟨rfl, rfl⟩ := List.cons.inj hw
    by_cases hc : c = ':'
    · have hn : ¬ after.head? = some '=' := fun he => ha ⟨hc, he⟩
      simp [hc, hn]
    · simp [hc, hs, hd, ho, h₁, h₂]

theorem classed_lexeme {marker rest : Text} {c : Char} {kind : TokenKind} {n : Nat}
    (hm : ¬ marker <+: c :: rest) (h : lexeme marker c rest = (kind, n)) :
    kind ≠ .comment ∧ Classed kind (c :: rest.take n) (rest.drop n) := by
  have hm' : ¬ marker.isPrefixOf (c :: rest) = true := by rwa [List.isPrefixOf_iff_prefix]
  unfold lexeme at h
  rw [if_neg hm'] at h
  -- in the order of the tests: what has failed before says what an unknown character is not
  by_cases hcolon : c = ':'
  · rw [if_pos hcolon] at h
    by_cases he : rest.head? = some '='
    · rw [if_pos he] at h
      cases h
      obtain ⟨tail, rfl⟩ := List.head?_eq_some_iff.mp he
      exact ⟨by simp, by simp [Classed, hcolon]⟩
    · rw [if_neg he] at h
      cases h
      exact ⟨by simp, c, rfl, by simp [hcolon, he]; decide⟩
  rw [if_neg hcolon] at h
  by_cases hopen : c = '('
  · rw [if_pos hopen] at h
    cases h
    exact ⟨by simp, by simp [Classed, hopen]⟩
  rw [if_neg hopen] at h
  by_cases hclose : c = ')'
  · rw [if_pos hclose] at h
    cases h
    exact ⟨by simp, by simp [Classed, hclose]⟩
  rw [if_neg hclose] at h
  by_cases hsign : isOperatorSign c = true
  · rw [if_pos hsign] at h
    cases h
    exact ⟨by simp, c, rfl, hsign⟩
  rw [if_neg hsign] at h
  by_cases hname : isNameStart c = true
  · rw [if_pos hname] at h
    cases h
    obtain ⟨hall, hnext⟩ := takeWhile_boundary isNameChar rest
    exact ⟨by simp, by simp only [isName, hname, hall, Bool.and_self], hnext⟩
  rw [if_neg hname] at h
  by_cases hdigit : c.isDigit = true
  · rw [if_pos hdigit] at h
    cases h
    obtain ⟨hall, hnext⟩ := takeWhile_boundary isHexDigit rest
    exact ⟨by simp, by simp only [isLiteral, hdigit, hall, Bool.and_self], hnext⟩
  · rw [if_neg hdigit] at h
    cases h
    exact ⟨by simp, c, rfl, by simpa using hname, by simpa using hdigit, by simpa using hsign, hopen,
      hclose, fun hc => hcolon hc.1⟩

theorem Classed.gapless {kind : TokenKind} {w after : Text} {c : Char} (hk : kind ≠ .comment)
    (h : Classed kind (c :: w) after) (hc : isGap c = false) : ∀ d ∈ c :: w, isGap d = false := by
  have htail : ∀ p : Char → Bool, (∀ d, p d = true → isNameChar d = true) → w.all p = true →
      ∀ d ∈ c :: w, isGap d = false := by
    intro p hp hall d hd
    rcases List.mem_cons.mp hd with rfl | hd
    · exact hc
    · exact isGap_of_isNameChar (hp d (List.all_eq_true.mp hall d hd))
  cases kind with
  | identifier =>
    have hname := h.1
    simp only [isName, Bool.and_eq_true] at hname
    exact htail isNameChar (fun _ hd => hd) hname.2
  | hexNumber =>
    have hlit := h.1
    simp only [isLiteral, Bool.and_eq_true] at hlit
    exact htail isHexDigit (fun _ hd => isNameChar_of_isHexDigit hd) hlit.2
  | operator =>
    obtain ⟨d, hw, -⟩ := h
    obtain ⟨rfl, rfl⟩ := List.cons.inj hw
    simpa using hc
  | assign =>
    obtain ⟨rfl, rfl⟩ := List.cons.inj h
    simpa using And.intro hc (by decide)
  | bracketOpen =>
    obtain ⟨rfl, rfl⟩ := List.cons.inj h
    simpa using hc
  | bracketClose =>
    obtain ⟨rfl, rfl⟩ := List.cons.inj h
    simpa using hc
  | comment => exact absurd rfl hk
  | unknown =>
    obtain ⟨d, hw, -⟩ := h
    obtain ⟨rfl, rfl⟩ := List.cons.inj hw
    simpa using hc

theorem Token.Cut.eq_of_lexeme {marker rest : Text} {c : Char} {t : Token} {kind : TokenKind}
    {n : Nat} (h : t.Cut marker (c :: rest)) (hl : lexeme marker c rest = (kind, n)) :
    isGap c = false ∧ t = ⟨kind, c :: rest.take n, t.offset⟩ := by
  obtain ⟨d, hd, hg⟩ := h.begins
  obtain ⟨k, w, o⟩ := t
  obtain ⟨v, rfl⟩ := List.head?_eq_some_iff.mp hd
  obtain ⟨rfl, after, rfl⟩ := List.cons_prefix_cons.mp h.sliced
  have hcl : Classed k (d :: v) after := by
    simpa using h.classed
  by_cases hm : marker <+: d :: (v ++ after)
  · obtain rfl : k = .comment := h.comment_iff.mpr hm
    obtain rfl : after = [] := hcl
    rw [lexeme_of_comment hm] at hl
    cases hl
    exact ⟨hg, by simp⟩
  · have hk : k ≠ .comment := fun hk => hm (h.comment_iff.mp hk)
    rw [lexeme_of_classed hm hk hcl] at hl
    cases hl
    exact ⟨hg, by simp⟩

theorem Token.cut_lexeme {marker rest : Text} {c : Char} (hc : isGap c = false) (o : Int) :
    Token.Cut marker ⟨(lexeme marker c rest).1, c :: rest.take (lexeme marker c rest).2, o⟩
      (c :: rest) := by
  have hlen := List.length_take_of_le (lexeme_le_length marker c rest)
  rcases hp : lexeme marker c rest with ⟨kind, n⟩
  rw [hp] at hlen
  by_cases hm : marker <+: c :: rest
  · rw [lexeme_of_comment hm] at hp
    cases hp
    exact {
      sliced := by simp
      begins := ⟨c, rfl, hc⟩
      gapless := fun hk => absurd rfl hk
      comment_iff := by simp [hm]
      classed := by simp [Classed] }
  · obtain ⟨hk, hcl⟩ := classed_lexeme hm hp
    exact {
      sliced := List.cons_prefix_cons.mpr ⟨rfl, List.take_prefix n rest⟩
      begins := ⟨c, rfl, hc⟩
      gapless := fun _ => hcl.gapless hk hc
      comment_iff := by simp [hm, hk]
      classed := by simpa only [List.length_cons, List.drop_succ_cons, hlen] using hcl }

theorem Token.ahead_self (t : Token) (text : Text) : t.ahead t.offset text = text := by
  simp [Token.ahead]

theorem Token.ahead_drop {t : Token} {base : Int} {k : Nat} (h : base + k ≤ t.offset)
    (text : Text) : t.ahead (base + k) (text.drop k) = t.ahead base text := by
  have hn : k + (t.offset - (base + k)).toNat = (t.offset - base).toNat := by omega
  rw [Token.ahead, Token.ahead, List.drop_drop, hn]

/-- The tokens of what is left of a text, seen from its beginning. -/
theorem segmentation_drop_iff (marker : Text) (base : Int) (text : Text) (tokens : List Token)
    (k : Nat) : Segmentation marker (base + k) (text.drop k) tokens ↔
      (∀ t ∈ tokens, base + k ≤ t.offset) ∧
      (∀ t ∈ tokens, t.Cut marker (t.ahead base text)) ∧
      (tokens.Pairwise fun t u : Token => t.offset + t.text.length ≤ u.offset) ∧
      ∀ (i : Nat) c, k ≤ i → text[i]? = some c →
        isGap c = true ∨ ∃ t ∈ tokens, t.Covers (base + i) := by
  constructor
  · intro h
    refine ⟨h.from_base, fun t ht => ?_, h.ordered, fun i c hi hic => ?_⟩
    · rw [← Token.ahead_drop (h.from_base t ht)]
      exact h.cut t ht
    · obtain ⟨j, rfl⟩ := Nat.exists_eq_add_of_le hi
      have hj := h.covered j c (by rwa [List.getElem?_drop])
      simpa only [Int.natCast_add, ← Int.add_assoc] using hj
  · rintro ⟨hbase, hcut, hord, hcov⟩
    refine ⟨hbase, fun t ht => ?_, hord, fun j c hjc => ?_⟩
    · rw [Token.ahead_drop (hbase t ht)]
      exact hcut t ht
    · rw [List.getElem?_drop] at hjc
      have hi := hcov (k + j) c (Nat.le_add_right k j) hjc
      simpa only [Int.natCast_add, ← Int.add_assoc] using hi

theorem segmentation_nil_iff {marker : Text} {base : Int} {tokens : List Token} :
    Segmentation marker base [] tokens ↔ tokens = [] := by
  constructor
  · intro h
    refine List.eq_nil_iff_forall_not_mem.mpr fun t ht => ?_
    have hcut := h.cut t ht
    obtain ⟨c, hc, -⟩ := hcut.begins
    have hnil : t.text = [] := by simpa [Token.ahead] using hcut.sliced
    simp [hnil] at hc
  · rintro rfl
    exact ⟨by simp, by simp, .nil, by simp⟩

theorem segmentation_gap_iff {marker rest : Text} {base : Int} {tokens : List Token} {c : Char}
    (hc : isGap c = true) :
    Segmentation marker base (c :: rest) tokens ↔ Segmentation marker (base + 1) rest tokens := by
  have hdrop := segmentation_drop_iff marker base (c :: rest) tokens 1
  rw [List.drop_one, List.tail_cons] at hdrop
  refine Iff.trans ?_ hdrop.symm
  constructor
  · intro h
    refine ⟨fun t ht => ?_, h.cut, h.ordered, fun i d _ => h.covered i d⟩
    -- a token at the very beginning would begin with the gap
    by_contra hlt
    obtain rfl : base = t.offset := by
      have := h.from_base t ht
      omega
    have hcut := h.cut t ht
    rw [Token.ahead_self] at hcut
    simp [(hcut.eq_of_lexeme rfl).1] at hc
  · rintro ⟨hbase, hcut, hord, hcov⟩
    refine ⟨fun t ht => by have := hbase t ht; omega, hcut, hord, fun i d hi => ?_⟩
    cases i with
    | zero =>
      obtain rfl : c = d := by simpa using hi
      exact .inl hc
    | succ i => exact hcov (i + 1) d (by omega) hi

theorem Token.Cut.length_pos {marker text : Text} {t : Token} (h : t.Cut marker text) :
    0 < t.text.length := by
  obtain ⟨c, hc, -⟩ := h.begins
  exact List.length_pos_of_mem (List.mem_of_mem_head? hc)

theorem segmentation_cons_iff {marker text : Text} {base : Int} {t : Token} {ts : List Token}
    (ht : t.offset = base) (hcut : t.Cut marker text) :
    Segmentation marker base text (t :: ts) ↔
      Segmentation marker (base + t.text.length) (text.drop t.text.length) ts := by
  subst ht
  refine Iff.trans ?_ (segmentation_drop_iff marker t.offset text ts t.text.length).symm
  constructor
  · intro h
    obtain ⟨hlater, hord⟩ := List.pairwise_cons.mp h.ordered
    refine ⟨hlater, fun u hu => h.cut u (List.mem_cons_of_mem t hu), hord, fun i d hi hid => ?_⟩
    rcases h.covered i d hid with hd | ⟨u, hu, hcov⟩
    · exact .inl hd
    · rcases List.mem_cons.mp hu with rfl | hu
      · have := hcov.2
        omega
      · exact .inr ⟨u, hu, hcov⟩
  · rintro ⟨hlater, hcuts, hord, hcov⟩
    refine ⟨?_, ?_, List.pairwise_cons.mpr ⟨hlater, hord⟩, fun i d hid => ?_⟩
    · rintro u (_ | ⟨_, hu⟩)
      · exact Int.le_refl t.offset
      · have := hlater u hu
        omega
    · rintro u (_ | ⟨_, hu⟩)
      · rwa [Token.ahead_self]
      · exact hcuts u hu
    · by_cases hi : i < t.text.length
      · exact .inr ⟨t, List.mem_cons_self, by omega, by omega⟩
      · rcases hcov i d (by omega) hid with hd | ⟨u, hu, hui⟩
        · exact .inl hd
        · exact .inr ⟨u, List.mem_cons_of_mem t hu, hui⟩

theorem Segmentation.exists_cons {marker rest : Text} {base : Int} {tokens : List Token} {c : Char}
    (h : Segmentation marker base (c :: rest) tokens) (hc : isGap c = false) :
    ∃ t ts, tokens = t :: ts ∧ t.offset = base := by
  obtain ⟨t, ht, hcov⟩ := (h.covered 0 c rfl).resolve_left (by simp [hc])
  have hbase : t.offset = base := by
    have hle := h.from_base t ht
    have := hcov.1
    omega
  cases tokens with
  | nil => exact absurd ht List.not_mem_nil
  | cons u ts =>
    rcases List.mem_cons.mp ht with rfl | hts
    · exact ⟨t, ts, rfl, hbase⟩
    · have hlen := (h.cut u List.mem_cons_self).length_pos
      have hle := h.from_base u List.mem_cons_self
      have hord := (List.pairwise_cons.mp h.ordered).1 t hts
      omega

theorem segmentation_token_iff {marker rest : Text} {base : Int} {tokens : List Token} {c : Char}
    {kind : TokenKind} {n : Nat} (hc : isGap c = false) (hl : lexeme marker c rest = (kind, n)) :
    Segmentation marker base (c :: rest) tokens ↔ ∃ ts, tokens = ⟨kind, c :: rest.take n, base⟩ :: ts ∧
      Segmentation marker (base + 1 + n) (rest.drop n) ts := by
  have hcons : ∀ ts, Segmentation marker base (c :: rest) (⟨kind, c :: rest.take n, base⟩ :: ts) ↔
      Segmentation marker (base + 1 + n) (rest.drop n) ts := by
    intro ts
    have hcut : Token.Cut marker _ (c :: rest) := Token.cut_lexeme hc base
    have htake := List.length_take_of_le (lexeme_le_length marker c rest)
    rw [hl] at hcut htake
    rw [segmentation_cons_iff rfl hcut, List.length_cons, htake, List.drop_succ_cons,
      Int.natCast_succ, Int.add_comm n 1, ← Int.add_assoc]
  constructor
  · intro h
    obtain ⟨t, ts, rfl, rfl⟩ := h.exists_cons hc
    have hcut := h.cut t List.mem_cons_self
    rw [Token.ahead_self] at hcut
    obtain ⟨-, ht⟩ := hcut.eq_of_lexeme hl
    exact ⟨ts, by rw [← ht], (hcons ts).mp (ht ▸ h)⟩
  · rintro ⟨ts, rfl, h⟩
    exact (hcons ts).mpr h

theorem segmentation_iff_eq_lex (marker : Text) (base : Int) (text : Text) (tokens : List Token) :
    Segmentation marker base text tokens ↔ tokens = lex marker base text := by
  induction hlen : text.length using Nat.strong_induction_on generalizing base text tokens with
  | _ m ih =>
    subst hlen
    cases text with
    | nil => rw [segmentation_nil_iff, lex_nil]
    | cons c rest =>
      by_cases hc : isGap c = true
      · rw [segmentation_gap_iff hc, lex_gap hc]
        exact ih rest.length (Nat.lt_succ_self _) (base + 1) rest tokens rfl
      · rw [Bool.not_eq_true] at hc
        rcases hl : lexeme marker c rest with ⟨kind, n⟩
        have hdrop : (rest.drop n).length < (c :: rest).length := by
          simp only [List.length_drop, List.length_cons]
          omega
        have htail : ∀ ts, Segmentation marker (base + 1 + n) (rest.drop n) ts ↔
            ts = lex marker (base + 1 + n) (rest.drop n) := fun ts =>
          ih _ hdrop (base + 1 + n) (rest.drop n) ts rfl
        rw [segmentation_token_iff hc hl, lex_token hc, hl]
        simp only [htail, exists_eq_right]

theorem Token.Cut.text_eq_of_comment {marker text : Text} {t : Token} (h : t.Cut marker text)
    (hk : t.kind = .comment) : t.text = text := by
  obtain ⟨after, rfl⟩ := h.sliced
  have hcl := h.classed
  rw [hk, List.drop_left] at hcl
  obtain rfl : after = [] := hcl
  exact (List.append_nil t.text).symm

theorem Segmentation.comment_last {marker text : Text} {base : Int} {pre post : List Token}
    {t : Token} (h : Segmentation marker base text (pre ++ t :: post)) (hk : t.kind = .comment) :
    post = [] := by
  refine List.eq_nil_iff_forall_not_mem.mpr fun u hu => ?_
  have ht : t ∈ pre ++ t :: post := by simp
  have hu' : u ∈ pre ++ t :: post := by simp [hu]
  have hafter : t.offset + t.text.length ≤ u.offset :=
    (List.pairwise_cons.mp (List.pairwise_append.mp h.ordered).2.1).1 u hu
  have hlen : t.text.length = text.length - (t.offset - base).toNat := by
    rw [(h.cut t ht).text_eq_of_comment hk, Token.ahead, List.length_drop]
  have hbase := h.from_base t ht
  have hcut := h.cut u hu'
  have hpos := hcut.length_pos
  have hle := hcut.sliced.length_le
  rw [Token.ahead, List.length_drop] at hle
  omega

/-- The tokenizer gives the only segmentation of a text. A comment in it runs to the end, and
no token before it begins with the marker. -/
theorem lex_segments_uniquely (marker : Text) (base : Int) (text : Text) :
    (∀ tokens, Segmentation marker base text tokens ↔ tokens = lex marker base text) ∧
      ∀ pre t post, lex marker base text = pre ++ t :: post → t.kind = .comment →
        t.text = t.ahead base text ∧ post = [] ∧ ∀ u ∈ pre, ¬ marker <+: u.ahead base text := by
  refine ⟨segmentation_iff_eq_lex marker base text, fun pre t post htokens hk => ?_⟩
  have h := (segmentation_iff_eq_lex marker base text _).mpr htokens.symm
  have hcut := h.cut t (by simp)
  refine ⟨hcut.text_eq_of_comment hk, h.comment_last hk, fun u hu hm => ?_⟩
  have hcomment := (h.cut u (by simp [hu])).comment_iff.mpr hm
  obtain ⟨a, b, rfl⟩ := List.append_of_mem hu
  rw [List.append_assoc, List.cons_append] at h
  exact absurd (h.comment_last hcomment) (by simp)

end HexLang
