import HexLang.Proofs.Runs

/-! Reading an accepted statement again from the text that its outcome shows.
The tokenizer skips fewer blanks than trimming takes off: an assignment reads
as it was accepted exactly if no other blank stands before its marker. -/

namespace HexLang

/-- The tokens behind those of a target and its marker, if they stand in front. -/
def withoutTarget : List Token → List Token
  | x :: a :: rest => if x.kind = .identifier ∧ a.kind = .assign then rest else x :: a :: rest
  | tokens => tokens

/-- The expression in the text of a statement is one for the form check too. -/
def Rereads (t : Text) : Prop :=
  checkForm (if standard.assignMarker <:+: t then withoutTarget (lex standard.commentMarker 0 t)
    else lex standard.commentMarker 0 t) = .ok ()

instance (t : Text) : Decidable (Rereads t) :=
  inferInstanceAs (Decidable (_ = _))

theorem between_of_isNameChar {c : Char} (h : isNameChar c = true) : '0' ≤ c ∧ c ≤ 'z' := by
  change (c == '_' || ((c.isUpper || c.isLower) || c.isDigit)) = true at h
  simp only [Bool.or_eq_true, beq_iff_eq] at h
  rcases h with rfl | (hupper | hlower) | hdigit
  · decide
  · obtain ⟨hA, hZ⟩ : 'A' ≤ c ∧ c ≤ 'Z' := of_decide_eq_true hupper
    exact ⟨Char.le_trans (by decide) hA, Char.le_trans hZ (by decide)⟩
  · obtain ⟨ha, hz⟩ := isLower_iff.mp hlower
    exact ⟨Char.le_trans (by decide) ha, hz⟩
  · obtain ⟨hfirst, hlast⟩ := Bool.and_eq_true_iff.mp hdigit
    have h9 : c ≤ '9' := of_decide_eq_true hlast
    exact ⟨of_decide_eq_true hfirst, Char.le_trans h9 (by decide)⟩

theorem isNameChar_of_isBlank {c : Char} (h : isBlank c = true) : isNameChar c = false := by
  by_contra hn
  rw [Bool.not_eq_false] at hn
  obtain ⟨hfirst, hlast⟩ := between_of_isNameChar hn
  have hge : 0x30 ≤ c.toNat := UInt32.le_iff_toNat_le.mp hfirst
  have hle : c.toNat ≤ 0x7A := UInt32.le_iff_toNat_le.mp hlast
  simp only [isBlank, blankRanges, List.any_cons, List.any_nil, Bool.or_false, Bool.or_eq_true,
    decide_eq_true_eq] at h
  omega

theorem isBlank_of_isNameChar {c : Char} (h : isNameChar c = true) : isBlank c = false := by
  by_contra hb
  rw [Bool.not_eq_false] at hb
  rw [isNameChar_of_isBlank hb] at h
  exact Bool.false_ne_true h

theorem isNameChar_of_mem_name {name : Text} (h : isName name = true) {c : Char} (hc : c ∈ name) :
    isNameChar c = true := by
  cases name with
  | nil => simp at hc
  | cons d w =>
    simp only [isName, Bool.and_eq_true] at h
    rcases List.mem_cons.mp hc with rfl | hc
    · exact isNameChar_of_isNameStart h.1
    · exact List.all_eq_true.mp h.2 c hc

theorem isNameChar_of_mem_literal {w : Text} (h : isLiteral w = true) {c : Char} (hc : c ∈ w) :
    isNameChar c = true := by
  cases w with
  | nil => simp at hc
  | cons d w =>
    simp only [isLiteral, Bool.and_eq_true] at h
    rcases List.mem_cons.mp hc with rfl | hc
    · exact isNameChar_of_isDigit h.1
    · exact isNameChar_of_isHexDigit (List.all_eq_true.mp h.2 c hc)

/-- A blank that is no gap is a token of its own. -/
theorem classed_of_isBlank {c : Char} (h : isBlank c = true) (after : Text) :
    Classed .unknown [c] after := by
  have hname := isNameChar_of_isBlank h
  have hne : ∀ d, isBlank d = false → c ≠ d := by
    rintro d hd rfl
    exact absurd (hd.symm.trans h) Bool.false_ne_true
  refine ⟨c, rfl, ?_, ?_, ?_, hne '(' (by decide), hne ')' (by decide),
    fun hc => hne ':' (by decide) hc.1⟩
  · exact Bool.eq_false_iff.mpr fun hs => by simp [isNameChar_of_isNameStart hs] at hname
  · exact Bool.eq_false_iff.mpr fun hd => by simp [isNameChar_of_isDigit hd] at hname
  · simp [isOperatorSign, hne '+' (by decide), hne '-' (by decide), hne '*' (by decide),
      hne '/' (by decide)]

theorem lex_of_classed {marker w after : Text} {c : Char} {kind : TokenKind}
    (hc : isGap c = false) (hm : ¬ marker <+: c :: (w ++ after)) (hk : kind ≠ .comment)
    (h : Classed kind (c :: w) after) (o : Int) :
    lex marker o (c :: (w ++ after)) = ⟨kind, c :: w, o⟩ :: lex marker (o + 1 + w.length) after := by
  rw [lex_token hc, lexeme_of_classed hm hk h]
  simp

theorem lex_gaps {g : Text} (hg : ∀ c ∈ g, isGap c = true) (marker : Text) (o : Int)
    (rest : Text) : lex marker o (g ++ rest) = lex marker (o + g.length) rest := by
  induction g generalizing o with
  | nil => simp
  | cons c g ih =>
    rw [List.cons_append, lex_gap (hg c List.mem_cons_self),
      ih fun d hd => hg d (List.mem_cons_of_mem c hd), List.length_cons]
    congr 1
    omega

/-- A word of name characters is cut off where its class ends. -/
theorem lex_word {marker w after : Text} {kind : TokenKind} (hne : w ≠ [])
    (hw : ∀ c ∈ w, isNameChar c = true) (hk : kind ≠ .comment) (h : Classed kind w after)
    (hm : ¬ marker <+: w ++ after) (o : Int) :
    lex marker o (w ++ after) = ⟨kind, w, o⟩ :: lex marker (o + w.length) after := by
  obtain ⟨c, w, rfl⟩ := List.exists_cons_of_ne_nil hne
  have hg : isGap c = false := isGap_of_isNameChar (hw c List.mem_cons_self)
  rw [List.cons_append] at hm ⊢
  rw [lex_of_classed hg hm hk h, List.length_cons]
  congr 2
  omega

theorem lex_name {marker name after : Text} (hn : isName name = true)
    (hnext : ∀ c, after.head? = some c → isNameChar c = false) (hm : ¬ marker <+: name ++ after)
    (o : Int) : lex marker o (name ++ after) =
      ⟨.identifier, name, o⟩ :: lex marker (o + name.length) after := by
  have hne : name ≠ [] := by
    rintro rfl
    simp [isName] at hn
  have h : Classed .identifier name after := ⟨hn, hnext⟩
  exact lex_word hne (fun _ => isNameChar_of_mem_name hn) (by decide) h hm o

theorem lex_literal {marker w after : Text} (hw : isLiteral w = true)
    (hnext : ∀ c, after.head? = some c → isHexDigit c = false) (hm : ¬ marker <+: w ++ after)
    (o : Int) : lex marker o (w ++ after) =
      ⟨.hexNumber, w, o⟩ :: lex marker (o + w.length) after := by
  have hne : w ≠ [] := by
    rintro rfl
    simp [isLiteral] at hw
  have h : Classed .hexNumber w after := ⟨hw, hnext⟩
  exact lex_word hne (fun _ => isNameChar_of_mem_literal hw) (by decide) h hm o

theorem lex_assign {marker after : Text} (hm : ¬ marker <+: ':' :: '=' :: after) (o : Int) :
    lex marker o (':' :: '=' :: after) = ⟨.assign, [':', '='], o⟩ :: lex marker (o + 2) after := by
  have h : Classed .assign (':' :: ['=']) after := rfl
  have hlex := lex_of_classed (by decide) hm (by decide) h o
  rwa [List.length_singleton, Int.add_assoc] at hlex

section Assignment

variable {t before after : Text}

/-- Trimming takes blanks off the end of a left side only. -/
theorem Assigns.exists_eq_trim_append (ha : Assigns standard t before after) (ht : Trimmed t) :
    ∃ r, before = trim before ++ r ∧ Blank r := by
  obtain ⟨l, r, hsplit, hl, hr⟩ := exists_eq_append_trim before
  cases l with
  | nil => exact ⟨r, hsplit, hr⟩
  | cons c l =>
    have hc : isBlank c = false := ht.front c (by rw [← ha.cut.parts, hsplit]; rfl)
    rw [hl c List.mem_cons_self] at hc
    exact absurd hc.symm Bool.false_ne_true

theorem lex_target (ha : Assigns standard t before after) (hn : isName (trim before) = true)
    {r : Text} (hr : before = trim before ++ r) (hb : Blank r) :
    lex standard.commentMarker 0 t = ⟨.identifier, trim before, 0⟩ ::
      lex standard.commentMarker (trim before).length (r ++ ':' :: '=' :: after) := by
  have ht : t = trim before ++ (r ++ ':' :: '=' :: after) := by
    have hparts : before ++ [':', '='] ++ after = t := ha.cut.parts
    rw [← hparts, ← List.append_assoc, ← hr]
    simp
  have hnext : ∀ c, (r ++ ':' :: '=' :: after).head? = some c → isNameChar c = false := by
    intro c hc
    cases r with
    | nil =>
      obtain rfl : ':' = c := Option.some.inj hc
      decide
    | cons d r =>
      obtain rfl : d = c := Option.some.inj hc
      exact isNameChar_of_isBlank (hb d List.mem_cons_self)
  have hm : ¬ standard.commentMarker <+: trim before ++ (r ++ ':' :: '=' :: after) := ht ▸ ha.plain
  conv_lhs => rw [ht, lex_name hn hnext hm, Int.zero_add]

theorem lex_of_gaps (ha : Assigns standard t before after) (hn : isName (trim before) = true)
    {r : Text} (hr : before = trim before ++ r) (hb : Blank r) (hg : ∀ c ∈ r, isGap c = true) :
    lex standard.commentMarker 0 t =
      ⟨.identifier, trim before, 0⟩ :: ⟨.assign, [':', '='], before.length⟩ ::
        rightTokens standard before after := by
  have hm : ¬ standard.commentMarker <+: ':' :: '=' :: after := by simp [standard]
  have hlen : ((trim before).length : Int) + r.length = before.length := by
    rw [← Int.natCast_add, ← List.length_append, ← hr]
  rw [lex_target ha hn hr hb, lex_gaps hg, hlen, lex_assign hm]
  rfl

theorem lex_of_stray {c : Char} (ha : Assigns standard t before after)
    (hn : isName (trim before) = true) {g r : Text} (hr : before = trim before ++ (g ++ c :: r))
    (hb : Blank (g ++ c :: r)) (hg : ∀ c ∈ g, isGap c = true) (hc : isGap c = false) :
    ∃ o rest, lex standard.commentMarker 0 t =
      ⟨.identifier, trim before, 0⟩ :: ⟨.unknown, [c], o⟩ :: rest := by
  have hbc : isBlank c = true := hb c (by simp)
  have hm : ¬ standard.commentMarker <+: c :: ([] ++ (r ++ ':' :: '=' :: after)) := by
    rintro ⟨post, hpost⟩
    obtain ⟨rfl, -⟩ := List.cons.inj hpost
    exact absurd hbc (by decide)
  have hlex := fun o => lex_of_classed hc hm (by decide) (classed_of_isBlank hbc _) o
  rw [lex_target ha hn hr hb, List.append_assoc, lex_gaps hg, List.cons_append]
  exact ⟨_, _, congrArg _ (hlex _)⟩

/-- An assignment to a name reads again just if only gaps stand between the name and the marker. -/
theorem rereads_iff_of_assigns (ht : Trimmed t) (ha : Assigns standard t before after)
    (hn : isName (trim before) = true)
    (hw : checkForm (rightTokens standard before after) = .ok ()) :
    Rereads t ↔ ∀ c ∈ before, isBlank c = true → isGap c = true := by
  obtain ⟨r, hr, hb⟩ := ha.exists_eq_trim_append ht
  have hsplit : r.takeWhile isGap ++ r.dropWhile isGap = r := List.takeWhile_append_dropWhile
  rw [Rereads, if_pos ha.cut.isInfix]
  cases hd : r.dropWhile isGap with
  | nil =>
    have hg : ∀ c ∈ r, isGap c = true := List.dropWhile_eq_nil_iff.mp hd
    rw [lex_of_gaps ha hn hr hb hg]
    refine iff_of_true hw fun c hc hbc => ?_
    rw [hr] at hc
    rcases List.mem_append.mp hc with hc | hc
    · have hblank := isNameChar_of_isBlank hbc
      rw [isNameChar_of_mem_name hn hc] at hblank
      exact absurd hblank.symm Bool.false_ne_true
    · exact hg c hc
  | cons c rest =>
    have hc : isGap c = false := by
      have hnot := List.head?_dropWhile_not isGap r
      rwa [hd, List.head?_cons] at hnot
    rw [hd] at hsplit
    rw [← hsplit] at hr hb
    obtain ⟨o, ts, hlex⟩ := lex_of_stray ha hn hr hb (fun _ => List.mem_takeWhile_imp) hc
    -- the blank is now the second token, where the marker was, so nothing is taken off the front
    refine iff_of_false (fun hform => ?_) fun hall => ?_
    · rw [hlex] at hform
      have hs := screened_of_checkForm hform ⟨.unknown, [c], o⟩ (by simp [withoutTarget])
      simp [Token.screened] at hs
    · have hbefore : c ∈ before := by
        rw [hr]
        simp
      rw [hall c hbefore (hb c (by simp))] at hc
      exact absurd hc.symm Bool.false_ne_true

end Assignment

theorem rereads_of_bare {t : Text} (hb : Bare standard t)
    (hw : checkForm (lex standard.commentMarker 0 t) = .ok ()) : Rereads t := by
  rwa [Rereads, if_neg hb.uncut]

/-- A statement that was accepted and is no comment reads again from its text, unless it is an
assignment with a blank before its marker that the tokenizer does not skip. -/
theorem runProgram_rereads_iff (source : Text) :
    ∃ run, runProgram standard source = .ok run ∧
      ∀ o ∈ run.outcomes, o.status = .accepted → ¬ "//".toList <+: o.rawText →
        ∃ t, o.rawText = t ++ standard.terminator ∧
          (Rereads t ↔ ∀ before after, FirstCut standard.assignMarker t before after →
            ∀ c ∈ before, isBlank c = true → isGap c = true) := by
  obtain ⟨pieces, last, hsplit⟩ := exists_splitOn_eq standard.terminator source
  have hsegs := segments_eq (by decide) hsplit
  obtain ⟨run, hr⟩ := exists_runs standard ∅ ((statements pieces last).map Segment.trimmed)
  refine ⟨run, runProgram_eq hsegs hr, fun o ho hok hplain => ?_⟩
  obtain ⟨s, hs, table, o', after, hj, rfl⟩ := hr.mem_outcomes ho
  rw [Outcome.terminate_status] at hok
  rw [Outcome.terminate_rawText, if_pos (.inr hok), hj.rawText_eq] at hplain ⊢
  refine ⟨trim s.text, rfl, ?_⟩
  have haccept := (hj.accepted_iff (trimmed_trim s.text)).mp hok
  rcases shape_cases standard (trim s.text) with hp | ⟨before, right, ha⟩ | hb
  · exact absurd (hp.trans (List.prefix_append _ _)) hplain
  · obtain ⟨hn, hw⟩ := ha.acceptable_iff.mp haccept
    rw [rereads_iff_of_assigns (trimmed_trim s.text) ha hn hw.1]
    refine ⟨fun h b a hcut => ?_, fun h => h before right ha.cut⟩
    obtain ⟨rfl, -⟩ := hcut.unique ha.cut
    exact h
  · have hw := (hb.acceptable_iff.mp haccept).resolve_left (trim_ne_nil_of_mem_segments hsegs hs)
    exact iff_of_true (rereads_of_bare hb hw.1) fun b a hcut => absurd hcut.isInfix hb.uncut

/-- A no-break space before the marker is trimmed off the target, but it is a token in the text. -/
theorem not_rereads_noBreakSpace :
    ∃ run, runProgram standard "x\u00a0:= 1;".toList = .ok run ∧
      ∃ o ∈ run.outcomes, o.status = .accepted ∧ ¬ "//".toList <+: o.rawText ∧
        ∃ t, o.rawText = t ++ standard.terminator ∧ ¬ Rereads t := by
  have hshown : (runProgram standard "x\u00a0:= 1;".toList).map
      (fun run => run.outcomes.map fun o => (o.rawText, o.status)) =
      .ok [("x\u00a0:= 1;".toList, .accepted)] := by decide +kernel
  cases hrun : runProgram standard "x\u00a0:= 1;".toList with
  | error f =>
    rw [hrun] at hshown
    cases hshown
  | ok run =>
    rw [hrun] at hshown
    have houtcomes : run.outcomes.map (fun o => (o.rawText, o.status)) =
        [("x\u00a0:= 1;".toList, .accepted)] := Except.ok.inj hshown
    obtain ⟨o, ho, he⟩ := List.mem_map.mp (houtcomes ▸ List.mem_singleton_self _)
    obtain ⟨htext, hstatus⟩ := Prod.mk.inj he
    have hplain : ¬ "//".toList <+: o.rawText := by
      rw [htext]
      decide
    exact ⟨run, rfl, o, ho, hstatus, hplain, "x\u00a0:= 1".toList, htext, by decide +kernel⟩

end HexLang
