import HexLang.Proofs.TokenShape

/-! Layout makes no difference. Two statements with the same tokens, wherever
they stand, get the same verdict, and leave the same table. -/

namespace HexLang

/-- Tokens one behind the other, in a text of the given length. -/
structure Placed (length : Nat) (tokens : List Token) : Prop where
  ordered : tokens.Pairwise fun t u : Token => t.offset < u.offset
  inside : ∀ t ∈ tokens, t.offset < length

/-- The error is reported where the token at this index begins. -/
def Outcome.Blames (o : Outcome) (i : Nat) : Prop :=
  ∃ t, o.tokens[i]? = some t ∧ o.errorOffset = some t.offset

/-- Refused for the left side of an assignment, which the message quotes. -/
def Outcome.BadTarget (o : Outcome) : Prop :=
  o.status = .rejected ∧ ∃ before after, Assigns standard o.rawText before after ∧
    isName (trim before) = false ∧
    o.message = some (Diagnostic.badTarget standard.assignMarker (trim before)).message

/-- The same verdict on another layout. -/
structure Outcome.Respaced (o o' : Outcome) : Prop where
  status : o'.status = o.status
  value : o'.value = o.value
  tokens : o'.tokens.map Token.spelling = o.tokens.map Token.spelling
  message : o'.message = o.message ∨ o.BadTarget ∧ o'.BadTarget
  located : o'.errorOffset.isSome = o.errorOffset.isSome
  blames : ∀ i, o'.Blames i ↔ o.Blames i

theorem placed_lex (marker : Text) (base : Nat) (text : Text) :
    Placed (base + text.length) (lex marker base text) := by
  have h := (segmentation_iff_eq_lex marker base text _).mpr rfl
  constructor
  · refine h.ordered.imp_of_mem fun {t u} ht _ hle => ?_
    have hpos := (h.cut t ht).length_pos
    omega
  · intro t ht
    have hcut := h.cut t ht
    have hpos := hcut.length_pos
    have hle := hcut.sliced.length_le
    have hbase := h.from_base t ht
    rw [Token.ahead, List.length_drop] at hle
    omega

theorem Assigns.placed_rightTokens {text before after : Text}
    (ha : Assigns standard text before after) :
    Placed text.length (rightTokens standard before after) := by
  have hlen : before.length + standard.assignMarker.length + after.length = text.length := by
    rw [← ha.cut.parts, List.length_append, List.length_append]
  exact hlen ▸ placed_lex standard.commentMarker _ after

section Moving

variable {ts us : List Token}

/-- Tokens that are spelled alike differ by a move. -/
theorem exists_eq_map_move (h : us.map Token.spelling = ts.map Token.spelling)
    (hts : ts.Pairwise fun t u : Token => t.offset < u.offset) :
    ∃ f, us = ts.map (Token.move f) := by
  induction ts generalizing us with
  | nil => exact ⟨id, List.map_eq_nil_iff.mp h⟩
  | cons t ts ih =>
    obtain ⟨u, us, rfl, hu, hus⟩ := List.map_eq_cons_iff.mp h
    obtain ⟨hlater, hrest⟩ := List.pairwise_cons.mp hts
    obtain ⟨f, rfl⟩ := ih hus hrest
    obtain ⟨hk, htext⟩ := Prod.mk.inj hu
    refine ⟨Function.update f t.offset u.offset, ?_⟩
    have hhead : u = t.move (Function.update f t.offset u.offset) := by
      rw [Token.move, Function.update_self, ← hk, ← htext]
    have htail : ∀ v ∈ ts, v.move f = v.move (Function.update f t.offset u.offset) := by
      intro v hv
      have hne : v.offset ≠ t.offset := (hlater v hv).ne'
      rw [Token.move, Token.move, Function.update_of_ne hne]
    rw [List.map_cons, ← hhead, List.map_congr_left htail]

theorem Outcome.Blames.move {raw : Text} {d : Diagnostic} {i : Nat} (hd : d.Concerns ts)
    (hp : Placed raw.length ts) (h : (Outcome.ofDiagnostic raw ts d).Blames i) (f : Int → Int)
    (raw' : Text) :
    (Outcome.ofDiagnostic raw' (ts.map (Token.move f)) (d.move f)).Blames i := by
  obtain ⟨t, ht, he⟩ := h
  have ht' : ts[i]? = some t := ht
  have hpos : d.position raw.length = t.offset := Option.some.inj he
  have hlt := hp.inside t (List.mem_of_getElem? ht')
  refine ⟨t.move f, by simp [Outcome.ofDiagnostic, ht'], congrArg some ?_⟩
  rcases hd with ⟨u, -, hu⟩ | rfl | rfl
  · have hu' : (d.move f).token? = some (u.move f) := by
      rw [Diagnostic.move_token?, hu, Option.map_some]
    rw [Diagnostic.position_of_token hu] at hpos
    rw [Diagnostic.position_of_token hu', Token.move, Token.move, hpos]
  · exact absurd hpos.symm hlt.ne
  · exact absurd hpos.symm hlt.ne

theorem evaluate_spelled {table : Table} (h : us.map Token.spelling = ts.map Token.spelling)
    {length : Nat} (hts : Placed length ts) {v : Int} (hv : evaluate table ts = .ok v) :
    evaluate table us = .ok v := by
  obtain ⟨f, rfl⟩ := exists_eq_map_move h hts.ordered
  rw [evaluate_move, hv]
  rfl

theorem refuses_spelled {table : Table} {raw raw' : Text}
    (h : us.map Token.spelling = ts.map Token.spelling) (hts : Placed raw.length ts)
    (hus : Placed raw'.length us) {d : Diagnostic}
    (hd : evaluate table ts = .error (.diagnostic d)) :
    ∃ d', evaluate table us = .error (.diagnostic d') ∧
      (Outcome.ofDiagnostic raw ts d).Respaced (.ofDiagnostic raw' us d') := by
  -- moving there carries the blame over, and moving back shows that no other token is blamed
  obtain ⟨f, hf⟩ := exists_eq_map_move h hts.ordered
  obtain ⟨g, hg⟩ := exists_eq_map_move h.symm hus.ordered
  have hd' : evaluate table us = .error (.diagnostic (d.move f)) := by
    rw [hf, evaluate_move, hd]
    rfl
  have hback : d = (d.move f).move g := by
    have hmoved := evaluate_move g table us
    rw [← hg, hd, hd'] at hmoved
    exact Fault.diagnostic.inj (Except.error.inj hmoved)
  refine ⟨d.move f, hd', congrArg Level.status (d.move_level f), rfl, h,
    .inl (congrArg some (d.move_message f)), rfl, fun i => ⟨fun hi => ?_, fun hi => ?_⟩⟩
  · rw [hback, hg]
    exact hi.move (evaluate_concerns hd') hus g raw
  · rw [hf]
    exact hi.move (evaluate_concerns hd) hts f raw'

end Moving

section Verdict

variable {text text' raw raw' : Text}

theorem Outcome.Respaced.of_accepted {ts us : List Token}
    (h : us.map Token.spelling = ts.map Token.spelling) (raw raw' : Text) (v : Option Int) :
    Outcome.Respaced { rawText := raw, status := .accepted, tokens := ts, value := v }
      { rawText := raw', status := .accepted, tokens := us, value := v } where
  status := rfl
  value := rfl
  tokens := h
  message := .inl rfl
  located := rfl
  blames i := by simp [Outcome.Blames]

theorem Assigns.badTarget {before after : Text} (ha : Assigns standard raw before after)
    (hn : isName (trim before) = false) :
    (Outcome.ofDiagnostic raw [] (.badTarget standard.assignMarker (trim before))).BadTarget :=
  ⟨rfl, before, after, ha, hn, rfl⟩

theorem Outcome.Respaced.of_badTarget {target target' : Text}
    (h : (ofDiagnostic raw [] (.badTarget standard.assignMarker target)).BadTarget)
    (h' : (ofDiagnostic raw' [] (.badTarget standard.assignMarker target')).BadTarget) :
    Outcome.Respaced (ofDiagnostic raw [] (.badTarget standard.assignMarker target))
      (ofDiagnostic raw' [] (.badTarget standard.assignMarker target')) where
  status := rfl
  value := rfl
  tokens := rfl
  message := .inr ⟨h, h'⟩
  located := rfl
  blames i := by simp [Outcome.Blames, Outcome.ofDiagnostic]

theorem Judged.respace {table after : Table} {o : Outcome} (ht : Trimmed text)
    (ht' : Trimmed text') (hs : spelled text' = spelled text)
    (h : Judged standard table text o after) :
    ∃ o', Judged standard table text' o' after ∧ o.Respaced o' := by
  have hplaced : Placed text.length (lex standard.commentMarker 0 text) := by
    simpa using placed_lex standard.commentMarker 0 text
  have hplaced' : Placed text'.length (lex standard.commentMarker 0 text') := by
    simpa using placed_lex standard.commentMarker 0 text'
  have hnil : lex standard.commentMarker 0 text' = [] ↔ lex standard.commentMarker 0 text = [] := by
    rw [← spelled_eq_nil_iff, ← spelled_eq_nil_iff, hs]
  cases h with
  | comment hp =>
    rw [comment_iff ht, ← hs, ← comment_iff ht'] at hp
    exact ⟨_, .comment hp, .of_accepted rfl text text' none⟩
  | badTarget ha hn =>
    obtain ⟨before', after', ha', hn'⟩ := ha.exists_of_spelled_of_not_name ht ht' hs hn
    exact ⟨_, .badTarget ha' hn', .of_badTarget (ha.badTarget hn) (ha'.badTarget hn')⟩
  | assigned ha hn hv =>
    obtain ⟨before', after', ha', hname, hright⟩ := ha.exists_of_spelled ht ht' hs hn
    have hv' := evaluate_spelled hright ha.placed_rightTokens hv
    rw [← hname] at hn ⊢
    exact ⟨_, .assigned ha' hn hv', .of_accepted hright text text' _⟩
  | unassigned ha hn hd =>
    obtain ⟨before', after', ha', hname, hright⟩ := ha.exists_of_spelled ht ht' hs hn
    obtain ⟨d', hd', hsame⟩ :=
      refuses_spelled hright ha.placed_rightTokens ha'.placed_rightTokens hd
    rw [← hname] at hn
    exact ⟨_, .unassigned ha' hn hd', hsame⟩
  | empty hb hl =>
    exact ⟨_, .empty (hb.of_spelled ht ht' hs) (hnil.mpr hl),
      .of_accepted rfl text text' none⟩
  | valued hb hl hv =>
    have hv' := evaluate_spelled hs hplaced hv
    exact ⟨_, .valued (hb.of_spelled ht ht' hs) (mt hnil.mp hl) hv',
      .of_accepted hs text text' _⟩
  | unvalued hb hl hd =>
    obtain ⟨d', hd', hsame⟩ := refuses_spelled hs hplaced hplaced' hd
    exact ⟨_, .unvalued (hb.of_spelled ht ht' hs) (mt hnil.mp hl) hd', hsame⟩

end Verdict

/-- Statements with the same tokens get the same verdict, whatever stands between the tokens. Only
the text that is quoted for a bad left side may differ. -/
theorem judge_ignores_spacing (table : Table) {text text' : Text}
    (h : spelled (trim text') = spelled (trim text)) :
    ∃ o o' after, judge standard table text = .ok (o, after) ∧
      judge standard table text' = .ok (o', after) ∧ o.Respaced o' := by
  obtain ⟨o, after, hj⟩ := exists_judged standard table (trim text)
  obtain ⟨o', hj', hsame⟩ := hj.respace (trimmed_trim text) (trimmed_trim text') h
  exact ⟨o, o', after, hj.judge_eq, hj'.judge_eq, hsame⟩

theorem judge_ignores_spacing_noBreakSpace :
    let text := "x\u00a0:= y /  0".toList
    let text' := "\tx \u00a0 :=y/0".toList
    let table : Table := (∅ : Table).insert ['y'] 1
    spelled (trim text') = spelled (trim text) ∧
      ∃ o o' after, judge standard table text = .ok (o, after) ∧
        judge standard table text' = .ok (o', after) ∧ o.Respaced o' := by
  intro text text' table
  have h : spelled (trim text') = spelled (trim text) := by
    decide +kernel
  exact ⟨h, judge_ignores_spacing table h⟩

end HexLang
