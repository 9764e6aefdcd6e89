import HexLang.Proofs.TokenShape

/-! Laying tokens out again. The tokens of a text come back as that text, from
the first of them to the last, with a space for every character in between. A
text that is levelled in this way has the same tokens. -/

namespace HexLang

instance (t : Token) (i : Int) : Decidable (t.Covers i) :=
  inferInstanceAs (Decidable (_ ∧ _))

/-- The offset behind a token. -/
def Token.stop (t : Token) : Int :=
  t.offset + t.text.length

/-- A text, which begins at offset `base`, with a space for every character outside the tokens. -/
def blotted (tokens : List Token) (base : Int) : Text → Text
  | [] => []
  | c :: rest => (if ∃ t ∈ tokens, t.Covers base then c else ' ') :: blotted tokens (base + 1) rest

/-- The beginning of a text, except that spaces stand for some of its characters. -/
inductive Levelled : Text → Text → Prop where
  | nil {text : Text} : Levelled text []
  | cons {c d : Char} {text out : Text} : d = c ∨ d = ' ' → Levelled text out →
      Levelled (c :: text) (d :: out)

section Blotting

variable {tokens tokens' : List Token} {base : Int} {text : Text}

@[simp] theorem length_blotted (tokens : List Token) (base : Int) (text : Text) :
    (blotted tokens base text).length = text.length := by
  induction text generalizing base with
  | nil => rfl
  | cons c text ih => rw [blotted, List.length_cons, ih, List.length_cons]

theorem blotted_append (tokens : List Token) (base : Int) (text more : Text) :
    blotted tokens base (text ++ more) =
      blotted tokens base text ++ blotted tokens (base + text.length) more := by
  induction text generalizing base with
  | nil => simp [blotted]
  | cons c text ih =>
    have hbase : base + 1 + (text.length : Int) = base + (c :: text).length := by
      rw [List.length_cons]
      omega
    rw [List.cons_append, blotted, blotted, ih, List.cons_append, hbase]

theorem blotted_nil (base : Int) (text : Text) :
    blotted [] base text = List.replicate text.length ' ' := by
  induction text generalizing base with
  | nil => rfl
  | cons c text ih => simp [blotted, ih, List.replicate_succ]

theorem blotted_congr (h : ∀ i, base ≤ i → i < base + text.length →
    ((∃ t ∈ tokens, t.Covers i) ↔ ∃ t ∈ tokens', t.Covers i)) :
    blotted tokens base text = blotted tokens' base text := by
  induction text generalizing base with
  | nil => rfl
  | cons c text ih =>
    rw [List.length_cons] at h
    have hhead := h base (Int.le_refl base) (by omega)
    have htail : blotted tokens (base + 1) text = blotted tokens' (base + 1) text :=
      ih fun i hi hlt => h i (by omega) (by omega)
    rw [blotted, blotted, htail, if_congr hhead rfl rfl]

theorem blotted_eq_self (h : ∀ (i : Nat) c, text[i]? = some c →
    c = ' ' ∨ ∃ t ∈ tokens, t.Covers (base + i)) : blotted tokens base text = text := by
  induction text generalizing base with
  | nil => rfl
  | cons c text ih =>
    have htail : blotted tokens (base + 1) text = text := ih fun i d hd => by
      have hi := h (i + 1) d hd
      rwa [Int.natCast_succ, Int.add_comm (i : Int) 1, ← Int.add_assoc] at hi
    have hhead : (if ∃ t ∈ tokens, t.Covers base then c else ' ') = c := by
      split
      · rfl
      · rename_i hnot
        have hc := (h 0 c rfl).resolve_right (by simpa using hnot)
        exact hc.symm
    rw [blotted, hhead, htail]

theorem blotted_token {t : Token} (h : t ∈ tokens) : blotted tokens t.offset t.text = t.text := by
  refine blotted_eq_self fun i c hc => .inr ⟨t, h, ?_⟩
  have hi := (List.getElem?_eq_some_iff.mp hc).1
  exact ⟨by omega, by omega⟩

theorem blotted_of_le (h : ∀ t ∈ tokens, base + text.length ≤ t.offset) :
    blotted tokens base text = List.replicate text.length ' ' := by
  rw [← blotted_nil base]
  refine blotted_congr fun i _ hi => iff_of_false ?_ (by simp)
  rintro ⟨t, ht, hcov⟩
  exact absurd hi (Int.not_lt.mpr ((h t ht).trans hcov.1))

theorem blotted_cons_of_le {t : Token} (h : t.stop ≤ base) :
    blotted (t :: tokens) base text = blotted tokens base text := by
  refine blotted_congr fun i hi _ => ?_
  rw [List.exists_mem_cons_iff, or_iff_right]
  exact fun hcov => absurd hcov.2 (Int.not_lt.mpr (h.trans hi))

theorem levelled_blotted (tokens : List Token) (base : Int) (text more : Text) :
    Levelled (text ++ more) (blotted tokens base text) := by
  induction text generalizing base with
  | nil => exact .nil
  | cons c text ih =>
    refine .cons ?_ (ih (base + 1))
    split
    · exact .inl rfl
    · exact .inr rfl

end Blotting

section Levelling

variable {marker text out w : Text}

theorem Levelled.head? (h : Levelled text out) {c : Char} (hc : out.head? = some c) :
    text.head? = some c ∨ c = ' ' := by
  cases h with
  | nil => cases hc
  | cons hd _ =>
    obtain rfl := Option.some.inj hc
    exact hd.imp (fun he => congrArg some he.symm) id

theorem Levelled.append_left (h : Levelled text out) (w : Text) :
    Levelled (w ++ text) (w ++ out) := by
  induction w with
  | nil => exact h
  | cons c w ih => exact .cons (.inl rfl) ih

/-- No marker without a gap in it comes up where gaps became spaces. -/
theorem Levelled.begins_with (h : Levelled text out) (hm : ∀ c ∈ marker, isGap c = false)
    (hp : marker <+: out) : marker <+: text := by
  induction marker generalizing text out with
  | nil => exact List.nil_prefix
  | cons m marker ih =>
    obtain ⟨hgap, hrest⟩ := List.forall_mem_cons.mp hm
    cases h with
    | nil => exact absurd (List.prefix_nil.mp hp) (List.cons_ne_nil m marker)
    | cons hd hl =>
      obtain ⟨rfl, hp'⟩ := List.cons_prefix_cons.mp hp
      rcases hd with rfl | rfl
      · exact List.cons_prefix_cons.mpr ⟨rfl, ih hl hrest hp'⟩
      · exact absurd hgap (by decide)

theorem isNameChar_of_isGap {c : Char} (h : isGap c = true) : isNameChar c = false :=
  isNameChar_of_isBlank (isBlank_of_isGap h)

/-- To a token, a gap behind it is as good as the end of the text. -/
theorem Classed.of_head? {kind : TokenKind} (h : Classed kind w text) (hk : kind ≠ .comment)
    (hhead : ∀ c, out.head? = some c → text.head? = some c ∨ isGap c = true) :
    Classed kind w out := by
  cases kind with
  | identifier =>
    refine ⟨h.1, fun c hc => ?_⟩
    rcases hhead c hc with hc | hg
    · exact h.2 c hc
    · exact isNameChar_of_isGap hg
  | hexNumber =>
    refine ⟨h.1, fun c hc => ?_⟩
    rcases hhead c hc with hc | hg
    · exact h.2 c hc
    · refine Bool.eq_false_iff.mpr fun hx => ?_
      have hname := isNameChar_of_isHexDigit hx
      simp [isNameChar_of_isGap hg] at hname
  | unknown =>
    obtain ⟨c, hw, hs, hd, ho, h₁, h₂, ha⟩ := h
    refine ⟨c, hw, hs, hd, ho, h₁, h₂, fun hc => ?_⟩
    rcases hhead '=' hc.2 with he | hg
    · exact ha ⟨hc.1, he⟩
    · exact absurd hg (by decide)
  | comment => exact absurd rfl hk
  | _ => exact h

theorem Classed.levelled {kind : TokenKind} (h : Classed kind w text) (hl : Levelled text out) :
    Classed kind w out := by
  by_cases hk : kind = .comment
  · subst hk
    obtain rfl : text = [] := h
    cases hl with
    | nil => rfl
  · refine h.of_head? hk fun c hc => (hl.head? hc).imp_right ?_
    rintro rfl
    decide

/-- A token stays the right one when what follows it is levelled. -/
theorem Token.Cut.levelled {t : Token} (h : t.Cut marker (t.text ++ text))
    (hm : ∀ c ∈ marker, isGap c = false) (hl : Levelled text out) :
    t.Cut marker (t.text ++ out) where
  sliced := List.prefix_append _ _
  begins := h.begins
  gapless := h.gapless
  comment_iff := by
    constructor
    · intro hk
      have hclassed := h.classed_before
      rw [hk] at hclassed
      obtain rfl : text = [] := hclassed
      cases hl with
      | nil => exact h.comment_iff.mp hk
    · exact fun hp => h.comment_iff.mpr ((hl.append_left t.text).begins_with hm hp)
  classed := by
    rw [List.drop_left]
    exact h.classed_before.levelled hl

theorem Token.Cut.lex_eq {t : Token} (h : t.Cut marker (t.text ++ text)) (o : Int) :
    lex marker o (t.text ++ text) = { t with offset := o } :: lex marker (o + t.text.length) text := by
  have hcut : Token.Cut marker { t with offset := o } (t.text ++ text) :=
    ⟨h.sliced, h.begins, h.gapless, h.comment_iff, h.classed⟩
  have hrest := (segmentation_iff_eq_lex marker (o + t.text.length) text _).mpr rfl
  refine ((segmentation_iff_eq_lex marker o _ _).mp ((segmentation_cons_iff rfl hcut).mpr ?_)).symm
  rwa [List.drop_left]

end Levelling

section Laying

variable {marker text : Text} {o start : Int} {width : Nat} {t : Token} {ts : List Token}

theorem le_offset_of_mem_lex (h : t ∈ lex marker o text) : o ≤ t.offset :=
  ((segmentation_iff_eq_lex marker o text _).mpr rfl).from_base t h

theorem layOutFrom_cons {n : Nat} (h : t.offset = start + width + n) (ts : List Token) :
    layOutFrom start width (t :: ts) =
      List.replicate n ' ' ++ (t.text ++ layOutFrom start (width + n + t.text.length) ts) := by
  have hn : t.offset - start - width = n := by omega
  simp [layOutFrom, hn, spaces, Nat.add_assoc]

/-- What is laid out is the text up to the last token, blotted. -/
theorem exists_blotted (h : lex marker o text = ts) (ho : start + width = o) :
    ∃ body tail, text = body ++ tail ∧ layOutFrom start width ts = blotted ts o body ∧
      (ts.getLast?.map Token.stop).getD o = o + body.length := by
  induction ts generalizing o text width with
  | nil => exact ⟨[], text, rfl, rfl, (Int.add_zero o).symm⟩
  | cons t ts ih =>
    obtain ⟨g, after, -, rfl, -, hg, hts⟩ := exists_of_lex_eq_cons h
    have hwidth : start + (width + g.length + t.text.length : Nat) = t.stop := by
      rw [Token.stop]
      omega
    obtain ⟨body, tail, rfl, hlay, hstop⟩ := ih hts.symm hwidth
    rw [← Token.stop] at hlay hstop
    have hlater : ∀ u ∈ ts, t.stop ≤ u.offset := fun u hu => le_offset_of_mem_lex (hts ▸ hu)
    refine ⟨g ++ (t.text ++ body), tail, by simp, ?_, ?_⟩
    · have hahead : ∀ u ∈ t :: ts, o + g.length ≤ u.offset := by
        refine List.forall_mem_cons.mpr ⟨hg.ge, fun u hu => ?_⟩
        have hle := hlater u hu
        rw [Token.stop] at hle
        omega
      have hoffset : t.offset = start + width + g.length := by omega
      -- no token covers the gap, the first covers itself, and the others cover what follows
      rw [layOutFrom_cons hoffset, hlay, blotted_append, blotted_append, blotted_of_le hahead, ← hg,
        blotted_token List.mem_cons_self, ← Token.stop, blotted_cons_of_le (Int.le_refl _)]
    · rw [List.getLast?_cons, Option.map_some, Option.getD_some, ← Option.getD_map Token.stop, hstop]
      simp only [List.length_append, Token.stop]
      omega

theorem levelled_layOutFrom (h : lex marker o text = ts) (ho : start + width = o) :
    Levelled text (layOutFrom start width ts) := by
  obtain ⟨body, tail, rfl, hlay, -⟩ := exists_blotted h ho
  exact hlay ▸ levelled_blotted ts o body tail

/-- The text that is laid out has the tokens, moved to where they stand in it. -/
theorem lex_layOutFrom (hm : ∀ c ∈ marker, isGap c = false) (h : lex marker o text = ts)
    (ho : start + width = o) :
    lex marker width (layOutFrom start width ts) = ts.map (Token.move (· - start)) := by
  induction ts generalizing o text width with
  | nil => exact lex_nil marker width
  | cons t ts ih =>
    obtain ⟨g, after, -, rfl, hcut, hg, hts⟩ := exists_of_lex_eq_cons h
    have hwidth : start + (width + g.length + t.text.length : Nat) = t.offset + t.text.length := by
      omega
    have hoffset : t.offset = start + width + g.length := by omega
    have hspaces : ∀ c ∈ List.replicate g.length ' ', isGap c = true := fun c hc => by
      rw [List.eq_of_mem_replicate hc]
      decide
    have hcut' := hcut.levelled hm (levelled_layOutFrom hts.symm hwidth)
    have hat : (width : Int) + (List.replicate g.length ' ').length = t.offset - start := by
      rw [List.length_replicate]
      omega
    have hnext : t.offset - start + (t.text.length : Int) =
        (width + g.length + t.text.length : Nat) := by
      omega
    rw [layOutFrom_cons hoffset, lex_gaps hspaces, hat, hcut'.lex_eq, hnext, ih hts.symm hwidth]
    rfl

theorem layOut_of_head? (h : ts.head? = some t) : layOut ts = layOutFrom t.offset 0 ts := by
  obtain ⟨rest, rfl⟩ := List.head?_eq_some_iff.mp h
  rfl

theorem exists_lex_of_head? (h : (lex marker o text).head? = some t) :
    ∃ g rest, text = g ++ rest ∧ t.offset = o + g.length ∧
      lex marker t.offset rest = lex marker o text := by
  obtain ⟨ts, hts⟩ := List.head?_eq_some_iff.mp h
  obtain ⟨g, after, hg, rfl, -, ho, -⟩ := exists_of_lex_eq_cons hts
  exact ⟨g, t.text ++ after, rfl, ho, by rw [lex_gaps hg, ho]⟩

end Laying

/-- The tokens of a text are laid out as its part from the first to the last of them, blotted. So
a text with spaces for gaps comes back unchanged, and any text comes back with the same tokens,
unless a gap is part of the comment marker. -/
theorem layOut_lex (marker : Text) (base : Int) (text : Text) :
    let tokens := lex marker base text
    (tokens = [] → layOut tokens = []) ∧
    ∀ first last, tokens.head? = some first → tokens.getLast? = some last →
      layOut tokens = slice (blotted tokens base text) (first.offset - base) (last.stop - base) ∧
      (first.offset = base → last.stop = base + text.length →
        (∀ (i : Nat) c, text[i]? = some c → c = ' ' ∨ ∃ t ∈ tokens, t.Covers (base + i)) →
        layOut tokens = text) ∧
      ((∀ c ∈ marker, isGap c = false) →
        lex marker 0 (layOut tokens) = tokens.map (Token.move (· - first.offset))) := by
  intro tokens
  refine ⟨fun hnil => by rw [hnil]; rfl, fun first last hfirst hlast => ?_⟩
  obtain ⟨g, rest, htext, hg, hrest⟩ := exists_lex_of_head? hfirst
  obtain ⟨body, tail, rfl, hlay, hstop⟩ := exists_blotted hrest (Int.add_zero first.offset)
  rw [hlast, Option.map_some, Option.getD_some] at hstop
  have hbody : layOut tokens = blotted tokens first.offset body :=
    (layOut_of_head? hfirst).trans hlay
  refine ⟨?_, fun hbegins hends hgaps => ?_, fun hm => ?_⟩
  · have hfrom : first.offset - base = ((blotted tokens base g).length : Int) := by
      rw [length_blotted]
      omega
    have hto : last.stop - base = ((blotted tokens base g).length : Int) +
        (blotted tokens first.offset body).length := by
      rw [length_blotted, length_blotted]
      omega
    rw [hbody, htext, blotted_append, ← hg, blotted_append, hfrom, hto, slice_append]
  · have hlen := congrArg List.length htext
    simp only [List.length_append] at hlen
    obtain rfl : g = [] := List.length_eq_zero_iff.mp (by omega)
    obtain rfl : tail = [] := List.length_eq_zero_iff.mp (by omega)
    have hwhole : text = body := by simpa using htext
    rw [hbody, hbegins, ← hwhole]
    exact blotted_eq_self hgaps
  · rw [layOut_of_head? hfirst]
    exact lex_layOutFrom hm hrest (Int.add_zero first.offset)

theorem layOut_lex_comment :
    let marker : Text := ['#']
    let tokens := lex marker 3 "\t(a1\n+  0f) #\tz ".toList
    (∀ c ∈ marker, isGap c = false) ∧
      layOut tokens = "(a1 +  0f) #\tz ".toList ∧
      lex marker 0 "(a1 +  0f) #\tz ".toList = tokens.map (Token.move (· - 4)) := by
  intro marker tokens
  have hm : ∀ c ∈ marker, isGap c = false := by
    intro c hc
    obtain rfl : c = '#' := List.mem_singleton.mp hc
    decide
  have hlay : layOut tokens = "(a1 +  0f) #\tz ".toList := by decide +kernel
  have hfirst : tokens.head? = some ⟨.bracketOpen, ['('], 4⟩ := by decide +kernel
  have hlast : tokens.getLast? = some ⟨.comment, "#\tz ".toList, 15⟩ := by decide +kernel
  obtain ⟨-, -, hagain⟩ := (layOut_lex marker 3 "\t(a1\n+  0f) #\tz ".toList).2 _ _ hfirst hlast
  exact ⟨hm, hlay, hlay ▸ hagain hm⟩

end HexLang
