import HexLang.Proofs.SourceOrder
import HexLang.Proofs.Spacing

/-! The parts of an outcome agree with each other and with the text that was
judged: the tokens stand where their offsets say, and a message comes with the
place of what it blames. -/

namespace HexLang

/-- The tokens stand in the text, each where its offset says, one behind the other. -/
structure Located (raw : Text) (tokens : List Token) : Prop where
  ordered : tokens.Pairwise fun t u : Token => t.offset < u.offset
  inside : ∀ t ∈ tokens, 0 ≤ t.offset ∧ t.offset < raw.length
  sliced : ∀ t ∈ tokens, slice raw t.offset (t.offset + t.text.length) = t.text

/-- The left side of the assignment is no name. -/
def Mistargets (d : Dialect) (raw : Text) : Prop :=
  ∃ before after, Assigns d raw before after ∧ isName (trim before) = false

/-- The token has no value, and the message says why. -/
def Token.Lacks (t : Token) (message : Text) : Prop :=
  t.kind = .identifier ∧ message = "Undefined variable '".toList ++ t.text ++ "'".toList ∨
    t.Spells .div ∧ message = "Division by zero".toList

/-- What holds of the outcome of the trimmed text, judged over the table. -/
structure Outcome.Coherent (d : Dialect) (table : Table) (raw : Text) (o : Outcome) : Prop where
  rawText : o.rawText = raw
  located : Located raw o.tokens
  rejected : o.status = .rejected →
    (∃ m, o.message = some m ∧ m ≠ []) ∧ o.value = none ∧ o.errorOffset.isSome = true
  warned : o.status = .accepted → ∀ m, o.message = some m →
    o.value = none ∧ ∃ t ∈ o.tokens, o.errorOffset = some t.offset ∧ t.Lacks m
  silent : o.status = .accepted → o.message = none →
    o.errorOffset = none ∧ (o.value = none ↔ d.commentMarker <+: raw ∨ raw = [])
  bounded : ∀ i, o.errorOffset = some i → 0 ≤ i ∧ i ≤ raw.length
  mistargeted : Mistargets d raw → o.errorOffset = some 0
  blamed : ¬ Mistargets d raw → ∀ i, o.errorOffset = some i →
    ∃ diag, evaluate table o.tokens = .error (.diagnostic diag) ∧ o.message = some diag.message ∧
      match diag.token? with
      | some t => t ∈ o.tokens ∧ i = t.offset
      | none => i = raw.length

section Tokens

theorem exists_of_mem_lex {marker text : Text} {o : Int} {t : Token} (h : t ∈ lex marker o text) :
    ∃ before after, text = before ++ (t.text ++ after) ∧ t.offset = o + before.length := by
  have hseg := (segmentation_iff_eq_lex marker o text _).mpr rfl
  have hcut := hseg.cut t h
  have hbase := hseg.from_base t h
  obtain ⟨after, hafter⟩ := hcut.sliced
  have hpos := hcut.length_pos
  have hle := hcut.sliced.length_le
  rw [Token.ahead] at hafter hle
  generalize hk : (t.offset - o).toNat = k at hafter hle
  rw [List.length_drop] at hle
  refine ⟨text.take k, after, by rw [hafter, List.take_append_drop], ?_⟩
  rw [List.length_take]
  omega

theorem located_nil (raw : Text) : Located raw [] :=
  ⟨.nil, by simp, by simp⟩

theorem located_lex (marker before text : Text) :
    Located (before ++ text) (lex marker before.length text) := by
  have hplaced := placed_lex marker before.length text
  rw [← List.length_append] at hplaced
  refine ⟨hplaced.ordered, fun t ht => ⟨?_, hplaced.inside t ht⟩, fun t ht => ?_⟩
  · obtain ⟨ahead, after, -, ho⟩ := exists_of_mem_lex ht
    omega
  · obtain ⟨ahead, after, rfl, ho⟩ := exists_of_mem_lex ht
    have hslice := slice_append (before ++ ahead) t.text after
    rwa [List.length_append, Int.natCast_add, ← ho, List.append_assoc] at hslice

theorem Assigns.located_rightTokens {d : Dialect} {raw before after : Text}
    (ha : Assigns d raw before after) : Located raw (rightTokens d before after) := by
  have hlex := located_lex d.commentMarker (before ++ d.assignMarker) after
  rwa [ha.cut.parts, List.length_append] at hlex

end Tokens

section Diagnostics

variable {table : Table} {tokens : List Token} {diag : Diagnostic}

theorem Diagnostic.message_ne_nil (diag : Diagnostic) : diag.message ≠ [] := by
  have hhead : ∃ c, diag.message.head? = some c := by cases diag <;> exact ⟨_, rfl⟩
  intro hnil
  simp [hnil] at hhead

/-- A value is lacking for a name that is not bound, or at a division by zero. -/
theorem exists_lacking (hr : ∀ t ∈ tokens, t.Regular)
    (h : evaluate table tokens = .error (.diagnostic diag)) (hl : diag.level = .semantic) :
    ∃ t ∈ tokens, diag.token? = some t ∧ t.Lacks diag.message := by
  cases hp : parse tokens with
  | error f =>
    simp only [evaluate, hp, bind, Except.bind, Except.error.injEq] at h
    obtain ⟨diag', hd, hl', -⟩ := parse_error hr hp
    obtain rfl := Fault.diagnostic.inj (h.symm.trans hd)
    simp [hl] at hl'
  | ok e =>
    have hends := (derives_of_parse hp).ends table
    rw [← evaluate_of_parse hp, h] at hends
    cases hends with
    | unbound ht hreached => exact ⟨_, hreached.mem, rfl, .inl ⟨ht.1, rfl⟩⟩
    | zeroDivisor ht hreached => exact ⟨_, hreached.mem, rfl, .inr ⟨ht, rfl⟩⟩

end Diagnostics

section Verdict

variable {d : Dialect} {table after : Table} {raw : Text} {tokens : List Token} {o : Outcome}

theorem Outcome.Coherent.of_silent {v : Option Int} (hm : ¬ Mistargets d raw)
    (hl : Located raw tokens) (hv : v = none ↔ d.commentMarker <+: raw ∨ raw = []) :
    Outcome.Coherent d table raw { rawText := raw, status := .accepted, tokens, value := v } where
  rawText := rfl
  located := hl
  rejected h := nomatch h
  warned _ _ h := nomatch h
  silent _ _ := ⟨rfl, hv⟩
  bounded _ h := nomatch h
  mistargeted h := absurd h hm
  blamed _ _ h := nomatch h

theorem Outcome.Coherent.of_badTarget (hm : Mistargets d raw) (target : Text) :
    Outcome.Coherent d table raw (.ofDiagnostic raw [] (.badTarget d.assignMarker target)) where
  rawText := rfl
  located := located_nil raw
  rejected _ := ⟨⟨_, rfl, Diagnostic.message_ne_nil _⟩, rfl, rfl⟩
  warned h := nomatch h
  silent h := nomatch h
  bounded := by
    intro i h
    obtain rfl := Option.some.inj h
    exact ⟨Int.le_refl 0, Int.natCast_nonneg _⟩
  mistargeted _ := rfl
  blamed h := absurd hm h

theorem Outcome.Coherent.of_error {diag : Diagnostic} (hm : ¬ Mistargets d raw)
    (hl : Located raw tokens) (hr : ∀ t ∈ tokens, t.Regular)
    (h : evaluate table tokens = .error (.diagnostic diag)) :
    Outcome.Coherent d table raw (.ofDiagnostic raw tokens diag) := by
  have hplace : ∀ i, some (diag.position raw.length) = some i →
      match diag.token? with
      | some t => t ∈ tokens ∧ i = t.offset
      | none => i = raw.length := by
    intro i hi
    obtain rfl := Option.some.inj hi
    rcases evaluate_concerns h with ⟨t, ht, hd⟩ | rfl | rfl
    · simp only [hd]
      exact ⟨ht, Diagnostic.position_of_token hd _⟩
    · rfl
    · rfl
  exact {
    rawText := rfl
    located := hl
    rejected := fun _ => ⟨⟨_, rfl, diag.message_ne_nil⟩, rfl, rfl⟩
    warned := by
      intro hs m hmessage
      obtain rfl := Option.some.inj hmessage
      obtain ⟨t, ht, hd, hlacks⟩ := exists_lacking hr h (Level.status_eq_accepted_iff.mp hs)
      exact ⟨rfl, t, ht, congrArg some (Diagnostic.position_of_token hd _), hlacks⟩
    silent := fun _ hmessage => nomatch hmessage
    bounded := by
      intro i hi
      have hat := hplace i hi
      split at hat
      · obtain ⟨ht, rfl⟩ := hat
        have hin := hl.inside _ ht
        exact ⟨hin.1, hin.2.le⟩
      · rw [hat]
        exact ⟨Int.natCast_nonneg _, Int.le_refl _⟩
    mistargeted := fun hmis => absurd hmis hm
    blamed := fun _ i hi => ⟨diag, h, rfl, hplace i hi⟩ }

theorem Assigns.not_mistargets {before right : Text} (ha : Assigns d raw before right)
    (hn : isName (trim before) = true) : ¬ Mistargets d raw := by
  rintro ⟨before', right', ha', hn'⟩
  obtain ⟨rfl, -⟩ := ha'.cut.unique ha.cut
  rw [hn] at hn'
  cases hn'

theorem Assigns.ne_nil {before right : Text} (ha : Assigns d raw before right)
    (hn : isName (trim before) = true) : raw ≠ [] := by
  intro hraw
  have hparts := ha.cut.parts
  rw [hraw, List.append_assoc] at hparts
  rw [(List.append_eq_nil_iff.mp hparts).1] at hn
  cases hn

theorem Judged.coherent (h : Judged d table raw o after) (ht : Trimmed raw) :
    o.Coherent d table raw := by
  have hwhole : Located raw (lex d.commentMarker 0 raw) := located_lex d.commentMarker [] raw
  have hregular : ∀ {marker text : Text} {base : Int}, ∀ t ∈ lex marker base text, t.Regular :=
    fun t ht => regular_of_mem_lex ht
  cases h with
  | comment hp =>
    exact .of_silent (fun ⟨_, _, ha, _⟩ => ha.plain hp) (located_nil raw)
      (iff_of_true rfl (.inl hp))
  | badTarget ha hn => exact .of_badTarget ⟨_, _, ha, hn⟩ _
  | assigned ha hn hv =>
    exact .of_silent (ha.not_mistargets hn) ha.located_rightTokens
      (iff_of_false (nomatch ·) (not_or.mpr ⟨ha.plain, ha.ne_nil hn⟩))
  | unassigned ha hn hd =>
    exact .of_error (ha.not_mistargets hn) ha.located_rightTokens hregular hd
  | empty hb hl =>
    exact .of_silent (fun ⟨_, _, ha, _⟩ => hb.uncut ha.cut.isInfix) (located_nil raw)
      (iff_of_true rfl (.inr ((lex_eq_nil_iff ht _ _).mp hl)))
  | valued hb hl hv =>
    have hne : raw ≠ [] := mt (lex_eq_nil_iff ht _ _).mpr hl
    exact .of_silent (fun ⟨_, _, ha, _⟩ => hb.uncut ha.cut.isInfix) hwhole
      (iff_of_false (nomatch ·) (not_or.mpr ⟨hb.plain, hne⟩))
  | unvalued hb hl hd =>
    exact .of_error (fun ⟨_, _, ha, _⟩ => hb.uncut ha.cut.isInfix) hwhole hregular hd

end Verdict

/-- Every statement has an outcome, and what it shows is of one piece: the text, the tokens at
their places in it, and the message with the place that it is about. -/
theorem judge_coherent (d : Dialect) (table : Table) (text : Text) :
    ∃ o after, judge d table text = .ok (o, after) ∧ o.Coherent d table (trim text) := by
  obtain ⟨o, after, hj⟩ := exists_judged d table (trim text)
  exact ⟨o, after, hj.judge_eq, hj.coherent (trimmed_trim text)⟩

end HexLang
