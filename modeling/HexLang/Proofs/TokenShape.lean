import HexLang.Proofs.RightSide
import HexLang.Proofs.Words

/-! The shape of a statement, seen in its tokens. Markers are looked for in the
text before any token is taken from it, but the tokens show all that is found:
a comment, an assignment marker, and the name in front of it. -/

namespace HexLang

/-- The kinds and texts of the tokens in a text, without their places. -/
def spelled (text : Text) : List (TokenKind × Text) :=
  (lex standard.commentMarker 0 text).map Token.spelling

/-- The tokens of an assignment to a name. Blanks that the tokenizer does not skip may stand
before the marker. -/
def Targets (name : Text) (right tokens : List Token) : Prop :=
  ∃ target strays marker, tokens = target :: (strays ++ marker :: right) ∧
    target.kind = .identifier ∧ target.text = name ∧ (∀ s ∈ strays, Blank s.text) ∧
    marker.kind = .assign

theorem spelled_eq_nil_iff {text : Text} :
    spelled text = [] ↔ lex standard.commentMarker 0 text = [] :=
  List.map_eq_nil_iff

section Cuts

variable {marker text : Text} {o : Int} {t : Token} {ts : List Token}

theorem isGap_of_lex_eq_nil (h : lex marker o text = []) : ∀ c ∈ text, isGap c = true := by
  induction text generalizing o with
  | nil => simp
  | cons c rest ih =>
    by_cases hc : isGap c = true
    · rw [lex_gap hc] at h
      exact List.forall_mem_cons.mpr ⟨hc, ih h⟩
    · rw [Bool.not_eq_true] at hc
      simp [lex_token hc] at h

/-- The first token stands behind gaps, and the others are those of the text that follows. -/
theorem exists_of_lex_eq_cons (h : lex marker o text = t :: ts) :
    ∃ g after, (∀ c ∈ g, isGap c = true) ∧ text = g ++ (t.text ++ after) ∧
      t.Cut marker (t.text ++ after) ∧ t.offset = o + g.length ∧
      ts = lex marker (t.offset + t.text.length) after := by
  induction text generalizing o with
  | nil => simp at h
  | cons c rest ih =>
    by_cases hc : isGap c = true
    · rw [lex_gap hc] at h
      obtain ⟨g, after, hg, htext, hcut, ho, hts⟩ := ih h
      refine ⟨c :: g, after, List.forall_mem_cons.mpr ⟨hc, hg⟩, by rw [htext]; rfl, hcut, ?_, hts⟩
      rw [ho, List.length_cons]
      omega
    · rw [Bool.not_eq_true] at hc
      rw [lex_token hc] at h
      obtain ⟨ht, hts⟩ := List.cons.inj h
      have hcut : t.Cut marker (c :: rest) := ht ▸ Token.cut_lexeme hc o
      have hlen := List.length_take_of_le (lexeme_le_length marker c rest)
      generalize (lexeme marker c rest).2 = n at ht hts hlen
      have hparts : t.text ++ rest.drop n = c :: rest := by
        rw [← ht, List.cons_append, List.take_append_drop]
      refine ⟨[], rest.drop n, by simp, hparts.symm, hparts.symm ▸ hcut, by simp [← ht], ?_⟩
      rw [← hts, ← ht, List.length_cons, hlen]
      congr 1
      push_cast
      omega

theorem Token.Cut.classed_before {after : Text} (h : t.Cut marker (t.text ++ after)) :
    Classed t.kind t.text after := by
  have hcl := h.classed
  rwa [List.drop_left] at hcl

end Cuts

section Marker

/-- Two characters occur in a row on one side of a seam, unless they meet at it. -/
theorem pair_infix_append_iff {a b : Char} {l r : Text}
    (h : l.getLast? = some a → r.head? ≠ some b) :
    [a, b] <:+: l ++ r ↔ [a, b] <:+: l ∨ [a, b] <:+: r := by
  constructor
  · intro hi
    rcases List.infix_append_iff.mp hi with hl | hr | ⟨left, right, hpair, hleft, hright⟩
    · exact .inl hl
    · exact .inr hr
    · rcases List.cons_eq_append_iff.mp hpair with ⟨rfl, rfl⟩ | ⟨left, rfl, hb⟩
      · exact .inr hright.isInfix
      · rcases List.cons_eq_append_iff.mp hb with ⟨rfl, rfl⟩ | ⟨left, rfl, hnil⟩
        · -- one character on each side
          obtain ⟨pre, rfl⟩ := hleft
          obtain ⟨post, rfl⟩ := hright
          exact absurd rfl (h (by simp))
        · obtain ⟨rfl, -⟩ := List.append_eq_nil_iff.mp hnil.symm
          exact .inl hleft.isInfix
  · rintro (hl | hr)
    · exact hl.trans (List.prefix_append l r).isInfix
    · exact hr.trans (List.suffix_append l r).isInfix

/-- No colon that could begin a marker is cut off from what follows. -/
theorem Classed.not_torn {kind : TokenKind} {w after : Text} (h : Classed kind w after)
    (hlast : w.getLast? = some ':') : after.head? ≠ some '=' := by
  have hmem : ':' ∈ w := List.mem_of_mem_getLast? hlast
  cases kind with
  | identifier =>
    have hc := isNameChar_of_mem_name h.1 hmem
    exact absurd hc (by decide)
  | hexNumber =>
    have hc := isNameChar_of_mem_literal h.1 hmem
    exact absurd hc (by decide)
  | operator =>
    obtain ⟨c, rfl, hc⟩ := h
    obtain rfl := List.mem_singleton.mp hmem
    exact absurd hc (by decide)
  | assign =>
    obtain rfl : w = [':', '='] := h
    exact absurd hlast (by decide)
  | bracketOpen =>
    obtain rfl : w = ['('] := h
    exact absurd hmem (by decide)
  | bracketClose =>
    obtain rfl : w = [')'] := h
    exact absurd hmem (by decide)
  | comment =>
    obtain rfl : after = [] := h
    simp
  | unknown =>
    obtain ⟨c, rfl, -, -, -, -, -, hc⟩ := h
    exact fun hhead => hc ⟨(List.mem_singleton.mp hmem).symm, hhead⟩

theorem assign_infix_iff_mem_lex (marker text : Text) (o : Int) :
    [':', '='] <:+: text ↔ ∃ t ∈ lex marker o text, [':', '='] <:+: t.text := by
  generalize hts : lex marker o text = ts
  induction ts generalizing o text with
  | nil =>
    have hcolon : ':' ∉ text := fun hc => absurd (isGap_of_lex_eq_nil hts ':' hc) (by decide)
    simpa using fun hi => hcolon (hi.subset List.mem_cons_self)
  | cons t ts ih =>
    obtain ⟨g, after, hg, rfl, hcut, -, hrest⟩ := exists_of_lex_eq_cons hts
    have hcolon : ':' ∉ g := fun hc => absurd (hg ':' hc) (by decide)
    have hseam := hcut.classed_before.not_torn
    have hgap : g.getLast? = some ':' → (t.text ++ after).head? ≠ some '=' := fun hl =>
      absurd (List.mem_of_mem_getLast? hl) hcolon
    have hnone : ¬ [':', '='] <:+: g := fun hi => hcolon (hi.subset List.mem_cons_self)
    rw [pair_infix_append_iff hgap, pair_infix_append_iff hseam, ih after _ hrest.symm,
      List.exists_mem_cons_iff, or_iff_right hnone]

theorem assign_infix_iff (text : Text) :
    standard.assignMarker <:+: text ↔ ∃ w ∈ spelled text, standard.assignMarker <:+: w.2 := by
  have hlex := assign_infix_iff_mem_lex standard.commentMarker text 0
  simpa [spelled, Token.spelling, standard] using hlex

end Marker

section Statement

variable {text before after : Text}

theorem exists_of_lex_trimmed {marker : Text} {t : Token} {ts : List Token} (ht : Trimmed text)
    (h : lex marker 0 text = t :: ts) :
    ∃ after, text = t.text ++ after ∧ t.Cut marker text ∧ ts = lex marker t.text.length after := by
  obtain ⟨g, after, hg, htext, hcut, ho, hts⟩ := exists_of_lex_eq_cons h
  cases g with
  | nil =>
    rw [List.nil_append] at htext
    rw [ho, List.length_nil] at hts
    exact ⟨after, htext, htext ▸ hcut, by simpa using hts⟩
  | cons c g =>
    subst htext
    have hc := hg c List.mem_cons_self
    rw [Trimmed.isGap_head ht] at hc
    exact absurd hc Bool.false_ne_true

theorem comment_iff (ht : Trimmed text) :
    standard.commentMarker <+: text ↔ ∃ w, (spelled text).head? = some (.comment, w) := by
  cases hts : lex standard.commentMarker 0 text with
  | nil =>
    obtain rfl := (lex_eq_nil_iff ht _ 0).mp hts
    simp [spelled, standard]
  | cons t ts =>
    obtain ⟨-, -, hcut, -⟩ := exists_of_lex_trimmed ht hts
    rw [← hcut.comment_iff, spelled, hts]
    simp [Token.spelling]

theorem lex_blanks {b : Text} (hb : Blank b) (o : Int) (rest : Text) :
    ∃ strays : List Token, (∀ s ∈ strays, Blank s.text) ∧
      lex standard.commentMarker o (b ++ rest) =
        strays ++ lex standard.commentMarker (o + b.length) rest := by
  induction b generalizing o with
  | nil => exact ⟨[], by simp, by simp⟩
  | cons c b ih =>
    have hc : isBlank c = true := hb c List.mem_cons_self
    obtain ⟨strays, hs, hlex⟩ := ih (fun d hd => hb d (List.mem_cons_of_mem c hd)) (o + 1)
    have hlen : o + 1 + (b.length : Int) = o + (c :: b).length := by
      rw [List.length_cons]
      omega
    rw [hlen] at hlex
    by_cases hg : isGap c = true
    · exact ⟨strays, hs, by rw [List.cons_append, lex_gap hg, hlex]⟩
    · rw [Bool.not_eq_true] at hg
      have hplain : ¬ standard.commentMarker <+: c :: ([] ++ (b ++ rest)) := by
        rintro ⟨post, hpost⟩
        obtain ⟨rfl, -⟩ := List.cons.inj hpost
        exact absurd hc (by decide)
      have hstray := lex_of_classed hg hplain (by decide) (classed_of_isBlank hc (b ++ rest)) o
      rw [List.length_nil, Int.natCast_zero, Int.add_zero, List.nil_append, hlex] at hstray
      exact ⟨⟨.unknown, [c], o⟩ :: strays, List.forall_mem_cons.mpr ⟨blank_singleton hc, hs⟩, hstray⟩

theorem targets_of_assigns (ht : Trimmed text) (ha : Assigns standard text before after)
    (hn : isName (trim before) = true) :
    Targets (trim before) (rightTokens standard before after) (lex standard.commentMarker 0 text) := by
  obtain ⟨b, hbefore, hb⟩ := ha.exists_eq_trim_append ht
  obtain ⟨strays, hs, hlex⟩ := lex_blanks hb (trim before).length (':' :: '=' :: after)
  have hplain : ¬ standard.commentMarker <+: ':' :: '=' :: after := by simp [standard]
  have hlen : ((trim before).length : Int) + b.length = before.length := by
    rw [← Int.natCast_add, ← List.length_append, ← hbefore]
  rw [lex_target ha hn hbefore hb, hlex, hlen, lex_assign hplain]
  exact ⟨_, strays, _, rfl, rfl, rfl, hs, rfl⟩

theorem exists_of_lex_strays {o : Int} {strays right : List Token} {marker : Token}
    (h : lex standard.commentMarker o text = strays ++ marker :: right)
    (hs : ∀ s ∈ strays, Blank s.text) (hm : marker.kind = .assign) :
    ∃ b after, Blank b ∧ text = b ++ ':' :: '=' :: after ∧
      right = lex standard.commentMarker (o + b.length + 2) after := by
  induction strays generalizing o text with
  | nil =>
    obtain ⟨g, after, hg, rfl, hcut, ho, hright⟩ := exists_of_lex_eq_cons h
    have hmarker : marker.text = [':', '='] := by
      have hcl := hcut.classed_before
      rwa [hm] at hcl
    refine ⟨g, after, fun c hc => isBlank_of_isGap (hg c hc), by rw [hmarker]; rfl, ?_⟩
    rw [hright, hmarker, ho]
    rfl
  | cons s strays ih =>
    obtain ⟨g, rest, hg, rfl, -, ho, hrest⟩ := exists_of_lex_eq_cons h
    obtain ⟨hsb, hs⟩ := List.forall_mem_cons.mp hs
    obtain ⟨b, after, hb, rfl, hright⟩ := ih hrest.symm hs
    have hgb : Blank g := fun c hc => isBlank_of_isGap (hg c hc)
    refine ⟨g ++ (s.text ++ b), after, hgb.append (hsb.append hb), by simp, ?_⟩
    rw [hright, ho]
    congr 1
    simp only [List.length_append]
    omega

theorem exists_assigns_of_targets {name : Text} {right : List Token} (ht : Trimmed text)
    (h : Targets name right (lex standard.commentMarker 0 text)) :
    ∃ before after, Assigns standard text before after ∧ trim before = name ∧ isName name = true ∧
      right = rightTokens standard before after := by
  obtain ⟨target, strays, marker, hlex, hk, rfl, hs, hm⟩ := h
  obtain ⟨rest, hrest, hcut, htail⟩ := exists_of_lex_trimmed ht hlex
  obtain ⟨b, after, hb, rfl, hright⟩ := exists_of_lex_strays htail.symm hs hm
  have hn : isName target.text = true := by
    have hcl := (hrest ▸ hcut).classed_before
    rw [hk] at hcl
    exact hcl.1
  have hcolon : ':' ∉ target.text ++ b := by
    rw [List.mem_append, not_or]
    exact ⟨notMem_of_isName hn (by decide), fun hc => absurd (hb ':' hc) (by decide)⟩
  have hplain : ¬ standard.commentMarker <+: text := by
    rw [← hcut.comment_iff, hk]
    decide
  have hcutAt := firstCut_of_notMem hcolon ['='] after
  have hparts : target.text ++ b ++ [':', '='] ++ after = text := by
    rw [hrest]
    simp
  refine ⟨target.text ++ b, after, ⟨hplain, hparts ▸ hcutAt⟩,
    trim_append_right (trimmed_of_isName hn) hb, hn, ?_⟩
  rw [hright, rightTokens]
  congr 1
  simp [standard]

end Statement

section Spelling

variable {text text' before after : Text}

theorem Targets.exists_of_spelling {name : Text} {right tokens tokens' : List Token}
    (h : Targets name right tokens)
    (hs : tokens'.map Token.spelling = tokens.map Token.spelling) :
    ∃ right', Targets name right' tokens' ∧
      right'.map Token.spelling = right.map Token.spelling := by
  obtain ⟨target, strays, marker, rfl, hk, rfl, hb, hm⟩ := h
  rw [List.map_cons, List.map_append, List.map_cons] at hs
  obtain ⟨target', rest, rfl, htarget, hrest⟩ := List.map_eq_cons_iff.mp hs
  obtain ⟨strays', tail, rfl, hstrays, htail⟩ := List.map_eq_append_iff.mp hrest
  obtain ⟨marker', right', rfl, hmarker, hright⟩ := List.map_eq_cons_iff.mp htail
  obtain ⟨hk', ht'⟩ := Prod.mk.inj htarget
  refine ⟨right', ⟨target', strays', marker', rfl, hk'.trans hk, ht', fun s hmem => ?_,
    (Prod.mk.inj hmarker).1.trans hm⟩, hright⟩
  have hspelled : s.spelling ∈ strays.map Token.spelling :=
    hstrays ▸ List.mem_map_of_mem hmem
  obtain ⟨u, hu, he⟩ := List.mem_map.mp hspelled
  exact (Prod.mk.inj he).2 ▸ hb u hu

theorem Assigns.exists_of_spelled (ht : Trimmed text) (ht' : Trimmed text')
    (hs : spelled text' = spelled text) (ha : Assigns standard text before after)
    (hn : isName (trim before) = true) :
    ∃ before' after', Assigns standard text' before' after' ∧ trim before' = trim before ∧
      (rightTokens standard before' after').map Token.spelling =
        (rightTokens standard before after).map Token.spelling := by
  obtain ⟨right', htargets, hright⟩ := (targets_of_assigns ht ha hn).exists_of_spelling hs
  obtain ⟨before', after', ha', hname, -, rfl⟩ := exists_assigns_of_targets ht' htargets
  exact ⟨before', after', ha', hname, hright⟩

theorem Bare.of_spelled (ht : Trimmed text) (ht' : Trimmed text')
    (hs : spelled text' = spelled text) (hb : Bare standard text) : Bare standard text' := by
  constructor
  · rw [comment_iff ht', hs, ← comment_iff ht]
    exact hb.plain
  · rw [assign_infix_iff, hs, ← assign_infix_iff]
    exact hb.uncut

theorem Assigns.exists_of_spelled_of_not_name (ht : Trimmed text) (ht' : Trimmed text')
    (hs : spelled text' = spelled text) (ha : Assigns standard text before after)
    (hn : isName (trim before) = false) :
    ∃ before' after', Assigns standard text' before' after' ∧ isName (trim before') = false := by
  rcases shape_cases standard text' with hp | ⟨before', after', ha'⟩ | hb
  · rw [comment_iff ht', hs, ← comment_iff ht] at hp
    exact absurd hp ha.plain
  · refine ⟨before', after', ha', Bool.eq_false_iff.mpr fun hn' => ?_⟩
    obtain ⟨b, a, hback, hname, -⟩ := ha'.exists_of_spelled ht' ht hs.symm hn'
    obtain ⟨rfl, -⟩ := hback.cut.unique ha.cut
    rw [hname, hn'] at hn
    exact Bool.noConfusion hn
  · exact absurd ha.cut.isInfix (hb.of_spelled ht' ht hs.symm).uncut

end Spelling

end HexLang
