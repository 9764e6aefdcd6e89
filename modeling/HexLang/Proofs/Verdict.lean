import HexLang.Proofs.Cutting
import HexLang.Proofs.Trimming
import HexLang.Proofs.WellFormed

/-! The verdict on a statement. It always comes, and whether a statement is
accepted depends on its text alone: the table decides on the value, and never
on the status. -/

namespace HexLang

/-- No comment, and an assignment marker between two parts. -/
structure Assigns (d : Dialect) (raw before after : Text) : Prop where
  plain : ¬ d.commentMarker <+: raw
  cut : FirstCut d.assignMarker raw before after

/-- No comment and no assignment. -/
structure Bare (d : Dialect) (raw : Text) : Prop where
  plain : ¬ d.commentMarker <+: raw
  uncut : ¬ d.assignMarker <:+: raw

/-- The tokens on the right side of an assignment. -/
def rightTokens (d : Dialect) (before after : Text) : List Token :=
  lex d.commentMarker (before.length + d.assignMarker.length : Nat) after

/-- All that the verdict on a statement and the table after it can be. -/
inductive Judged (d : Dialect) (table : Table) (raw : Text) : Outcome → Table → Prop where
  | comment : d.commentMarker <+: raw →
      Judged d table raw { rawText := raw, status := .accepted } table
  | badTarget {before after : Text} : Assigns d raw before after → isName (trim before) = false →
      Judged d table raw (.ofDiagnostic raw [] (.badTarget d.assignMarker (trim before))) table
  | assigned {before after : Text} {v : Int} : Assigns d raw before after →
      isName (trim before) = true → evaluate table (rightTokens d before after) = .ok v →
      Judged d table raw
        { rawText := raw, status := .accepted, tokens := rightTokens d before after, value := some v }
        (table.insert (trim before) v)
  | unassigned {before after : Text} {diag : Diagnostic} : Assigns d raw before after →
      isName (trim before) = true →
      evaluate table (rightTokens d before after) = .error (.diagnostic diag) →
      Judged d table raw (.ofDiagnostic raw (rightTokens d before after) diag) table
  | empty : Bare d raw → lex d.commentMarker 0 raw = [] →
      Judged d table raw { rawText := raw, status := .accepted } table
  | valued {v : Int} : Bare d raw → lex d.commentMarker 0 raw ≠ [] →
      evaluate table (lex d.commentMarker 0 raw) = .ok v →
      Judged d table raw
        { rawText := raw, status := .accepted, tokens := lex d.commentMarker 0 raw, value := some v }
        table
  | unvalued {diag : Diagnostic} : Bare d raw → lex d.commentMarker 0 raw ≠ [] →
      evaluate table (lex d.commentMarker 0 raw) = .error (.diagnostic diag) →
      Judged d table raw (.ofDiagnostic raw (lex d.commentMarker 0 raw) diag) table

/-- What makes a trimmed statement acceptable: it is a comment, or an expression that is empty
or well-formed, or it assigns a well-formed expression to a name. -/
def Acceptable (d : Dialect) (t : Text) : Prop :=
  d.commentMarker <+: t ∨
  (¬ d.assignMarker <:+: t ∧ (t = [] ∨ WellFormed (lex d.commentMarker 0 t))) ∨
  ∃ before after, FirstCut d.assignMarker t before after ∧ isName (trim before) = true ∧
    WellFormed (rightTokens d before after)

section Shape

variable {d : Dialect} {raw before after : Text}

theorem Assigns.ofText_eq (h : Assigns d raw before after) : Statement.ofText d raw =
    .assignment (trim before) (before.length + d.assignMarker.length) after := by
  have hp : ¬ d.commentMarker.isPrefixOf raw = true := by
    rw [List.isPrefixOf_iff_prefix]
    exact h.plain
  rw [Statement.ofText, if_neg hp, splitFirst_eq_some_iff.mpr h.cut]

theorem Bare.ofText_eq (h : Bare d raw) : Statement.ofText d raw = .expression := by
  have hp : ¬ d.commentMarker.isPrefixOf raw = true := by
    rw [List.isPrefixOf_iff_prefix]
    exact h.plain
  rw [Statement.ofText, if_neg hp, splitFirst_eq_none_iff.mpr h.uncut]

theorem shape_cases (d : Dialect) (raw : Text) :
    d.commentMarker <+: raw ∨ (∃ before after, Assigns d raw before after) ∨ Bare d raw := by
  by_cases hp : d.commentMarker <+: raw
  · exact .inl hp
  · cases hs : splitFirst d.assignMarker raw with
    | some parts => exact .inr (.inl ⟨parts.1, parts.2, hp, splitFirst_eq_some_iff.mp hs⟩)
    | none => exact .inr (.inr ⟨hp, splitFirst_eq_none_iff.mp hs⟩)

theorem Assigns.acceptable_iff (h : Assigns d raw before after) :
    Acceptable d raw ↔ isName (trim before) = true ∧ WellFormed (rightTokens d before after) := by
  constructor
  · rintro (hp | ⟨hn, -⟩ | ⟨b, a, hcut, hname, hw⟩)
    · exact absurd hp h.plain
    · exact absurd h.cut.isInfix hn
    · obtain ⟨rfl, rfl⟩ := hcut.unique h.cut
      exact ⟨hname, hw⟩
  · rintro ⟨hname, hw⟩
    exact .inr (.inr ⟨before, after, h.cut, hname, hw⟩)

theorem Bare.acceptable_iff (h : Bare d raw) :
    Acceptable d raw ↔ raw = [] ∨ WellFormed (lex d.commentMarker 0 raw) := by
  constructor
  · rintro (hp | ⟨-, hw⟩ | ⟨b, a, hcut, -⟩)
    · exact absurd hp h.plain
    · exact hw
    · exact absurd hcut.isInfix h.uncut
  · exact fun hw => .inr (.inl ⟨h.uncut, hw⟩)

end Shape

theorem judgeAssignment_of_name {target : Text} (h : isName target = true) (d : Dialect)
    (table : Table) (raw right : Text) (start : Nat) :
    judgeAssignment d table raw target start right = do
      let outcome ← conclude raw (lex d.commentMarker start right)
        (evaluate table (lex d.commentMarker start right))
      match outcome.value with
      | some v => return (outcome, table.insert target v)
      | none => return (outcome, table) := by
  have hn : ¬ (!isName target) = true := by simp [h]
  have hu : ¬ startsUppercase target = true := by simp [startsUppercase_of_isName h]
  rw [← evaluateRight_eq_evaluate]
  exact (if_neg hn).trans (if_neg hu)

theorem judgeExpression_of_tokens {d : Dialect} {raw : Text} (h : lex d.commentMarker 0 raw ≠ [])
    (table : Table) : judgeExpression d table raw =
      conclude raw (lex d.commentMarker 0 raw) (evaluate table (lex d.commentMarker 0 raw)) := by
  rw [judgeExpression]
  split
  · rename_i hnil
    exact absurd hnil h
  · rw [evaluateBare_eq_evaluate]

section Verdict

variable {d : Dialect} {table after : Table} {raw : Text} {o : Outcome}

theorem Judged.judge_eq {text : Text} (h : Judged d table (trim text) o after) :
    judge d table text = .ok (o, after) := by
  cases h with
  | comment hp =>
    have hp' := List.isPrefixOf_iff_prefix.mpr hp
    simp only [judge, Statement.ofText, hp', if_true]
  | badTarget ha hn =>
    simp only [judge, ha.ofText_eq, judgeAssignment, hn, Bool.not_false, if_true]
  | assigned ha hn hv =>
    simp only [judge, ha.ofText_eq, judgeAssignment_of_name hn]
    simp only [rightTokens] at hv
    simp only [hv]
    rfl
  | unassigned ha hn hv =>
    simp only [judge, ha.ofText_eq, judgeAssignment_of_name hn]
    simp only [rightTokens] at hv
    simp only [hv]
    rfl
  | empty hb hl =>
    simp only [judge, hb.ofText_eq, judgeExpression, hl]
    rfl
  | valued hb hl hv =>
    simp only [judge, hb.ofText_eq, judgeExpression_of_tokens hl, hv]
    rfl
  | unvalued hb hl hv =>
    simp only [judge, hb.ofText_eq, judgeExpression_of_tokens hl, hv]
    rfl

theorem Judged.judge_of_trimmed (h : Judged d table raw o after) (ht : Trimmed raw) :
    judge d table raw = .ok (o, after) := by
  rw [← trim_of_trimmed ht] at h
  exact h.judge_eq

theorem evaluate_lex (table : Table) (marker : Text) (base : Int) (text : Text) :
    (∃ v, evaluate table (lex marker base text) = .ok v) ∨
      ∃ diag, evaluate table (lex marker base text) = .error (.diagnostic diag) := by
  have hr : ∀ t ∈ lex marker base text, t.Regular := fun t ht => regular_of_mem_lex ht
  by_cases hw : WellFormed (lex marker base text)
  · rcases evaluate_of_wellFormed (signed_of_regular hr) hw table with hv | ⟨diag, hd, -⟩
    · exact .inl hv
    · exact .inr ⟨diag, hd⟩
  · obtain ⟨diag, -, -, hd⟩ := evaluate_of_not_wellFormed hr hw
    exact .inr ⟨diag, hd table⟩

theorem exists_judged_assigned {before right : Text} (ha : Assigns d raw before right)
    (hn : isName (trim before) = true) (table : Table) :
    ∃ o after, Judged d table raw o after ∧ o.tokens = rightTokens d before right := by
  rcases evaluate_lex table d.commentMarker (before.length + d.assignMarker.length : Nat) right with
    ⟨v, hv⟩ | ⟨diag, hd⟩
  · exact ⟨_, _, .assigned ha hn hv, rfl⟩
  · exact ⟨_, _, .unassigned ha hn hd, rfl⟩

theorem exists_judged_bare (hb : Bare d raw) (table : Table) :
    ∃ o after, Judged d table raw o after ∧ o.tokens = lex d.commentMarker 0 raw := by
  by_cases hl : lex d.commentMarker 0 raw = []
  · exact ⟨_, _, .empty hb hl, hl.symm⟩
  · rcases evaluate_lex table d.commentMarker 0 raw with ⟨v, hv⟩ | ⟨diag, hd⟩
    · exact ⟨_, _, .valued hb hl hv, rfl⟩
    · exact ⟨_, _, .unvalued hb hl hd, rfl⟩

theorem exists_judged (d : Dialect) (table : Table) (raw : Text) :
    ∃ o after, Judged d table raw o after := by
  rcases shape_cases d raw with hp | ⟨before, right, ha⟩ | hb
  · exact ⟨_, _, .comment hp⟩
  · cases hn : isName (trim before) with
    | false => exact ⟨_, _, .badTarget ha hn⟩
    | true =>
      obtain ⟨o, after, hj, -⟩ := exists_judged_assigned ha hn table
      exact ⟨o, after, hj⟩
  · obtain ⟨o, after, hj, -⟩ := exists_judged_bare hb table
    exact ⟨o, after, hj⟩

theorem Judged.of_judge {text : Text} (h : judge d table text = .ok (o, after)) :
    Judged d table (trim text) o after := by
  obtain ⟨o', after', hj⟩ := exists_judged d table (trim text)
  have he := hj.judge_eq.symm.trans h
  rw [Except.ok.injEq, Prod.mk.injEq] at he
  exact he.1 ▸ he.2 ▸ hj

theorem Judged.rawText_eq (h : Judged d table raw o after) : o.rawText = raw := by
  cases h <;> rfl

/-- With another table in its place, the verdict is on the same tokens. -/
theorem Judged.exists_tokens_eq (h : Judged d table raw o after) (table' : Table) :
    ∃ o' after', Judged d table' raw o' after' ∧ o'.tokens = o.tokens := by
  cases h with
  | comment hp => exact ⟨_, _, .comment hp, rfl⟩
  | badTarget ha hn => exact ⟨_, _, .badTarget ha hn, rfl⟩
  | assigned ha hn _ => exact exists_judged_assigned ha hn table'
  | unassigned ha hn _ => exact exists_judged_assigned ha hn table'
  | empty hb hl => exact ⟨_, _, .empty hb hl, rfl⟩
  | valued hb _ _ => exact exists_judged_bare hb table'
  | unvalued hb _ _ => exact exists_judged_bare hb table'

theorem Level.status_eq_accepted_iff {l : Level} : l.status = .accepted ↔ l = .semantic := by
  cases l <;> simp [Level.status]

theorem Status.eq_of_accepted_iff {s s' : Status} (h : s = .accepted ↔ s' = .accepted) : s = s' := by
  cases s <;> cases s' <;> simp_all

/-- A diagnostic on tokens costs the value only, if they are well-formed, and else the statement. -/
theorem semantic_iff_wellFormed {marker text : Text} {base : Int} {diag : Diagnostic}
    (h : evaluate table (lex marker base text) = .error (.diagnostic diag)) :
    diag.level = .semantic ↔ WellFormed (lex marker base text) := by
  have hr : ∀ t ∈ lex marker base text, t.Regular := fun t ht => regular_of_mem_lex ht
  by_cases hw : WellFormed (lex marker base text)
  · rcases evaluate_of_wellFormed (signed_of_regular hr) hw table with ⟨v, hv⟩ | ⟨diag', hd, hl⟩
    · simp [hv] at h
    · rw [hd, Except.error.injEq, Fault.diagnostic.injEq] at h
      exact iff_of_true (h ▸ hl) hw
  · obtain ⟨diag', hl, -, hd⟩ := evaluate_of_not_wellFormed hr hw
    rw [hd table, Except.error.injEq, Fault.diagnostic.injEq] at h
    exact iff_of_false (by simp [← h, hl]) hw

theorem wellFormed_of_evaluate {marker text : Text} {base v : Int}
    (h : evaluate table (lex marker base text) = .ok v) : WellFormed (lex marker base text) := by
  by_contra hw
  obtain ⟨diag, -, -, hd⟩ := evaluate_of_not_wellFormed (fun t ht => regular_of_mem_lex ht) hw
  simp [hd table] at h

theorem Trimmed.isGap_head {c : Char} {rest : Text} (ht : Trimmed (c :: rest)) :
    isGap c = false := by
  by_contra hg
  rw [Bool.not_eq_false] at hg
  have hb := isBlank_of_isGap hg
  rw [ht.front c rfl] at hb
  exact absurd hb Bool.false_ne_true

theorem lex_eq_nil_iff {t : Text} (ht : Trimmed t) (marker : Text) (base : Int) :
    lex marker base t = [] ↔ t = [] := by
  cases t with
  | nil => simp
  | cons c rest => simp [lex_token ht.isGap_head]

theorem Judged.accepted_iff (h : Judged d table raw o after) (ht : Trimmed raw) :
    o.status = .accepted ↔ Acceptable d raw := by
  cases h with
  | comment hp => exact iff_of_true rfl (.inl hp)
  | badTarget ha hn =>
    rw [ha.acceptable_iff, hn]
    exact iff_of_false (by simp [Outcome.ofDiagnostic, Diagnostic.level, Level.status]) (by simp)
  | assigned ha hn hv =>
    exact iff_of_true rfl (ha.acceptable_iff.mpr ⟨hn, wellFormed_of_evaluate hv⟩)
  | unassigned ha hn hd =>
    rw [ha.acceptable_iff, and_iff_right hn]
    exact Level.status_eq_accepted_iff.trans (semantic_iff_wellFormed hd)
  | empty hb hl => exact iff_of_true rfl (hb.acceptable_iff.mpr (.inl ((lex_eq_nil_iff ht _ _).mp hl)))
  | valued hb _ hv =>
    exact iff_of_true rfl (hb.acceptable_iff.mpr (.inr (wellFormed_of_evaluate hv)))
  | unvalued hb hl hd =>
    have hne : raw ≠ [] := fun h => hl ((lex_eq_nil_iff ht _ _).mpr h)
    rw [hb.acceptable_iff, or_iff_right hne]
    exact Level.status_eq_accepted_iff.trans (semantic_iff_wellFormed hd)

/-- A statement that is rejected is rejected over every table, in the same words. -/
theorem Judged.of_rejected (h : Judged d table raw o after) (hr : o.status = .rejected)
    (table' : Table) : Judged d table' raw o table' := by
  have hstay : ∀ {marker text : Text} {base : Int} {diag : Diagnostic},
      evaluate table (lex marker base text) = .error (.diagnostic diag) →
      diag.level.status = .rejected →
      evaluate table' (lex marker base text) = .error (.diagnostic diag) := by
    intro marker text base diag hd hs
    have hw : ¬ WellFormed (lex marker base text) := fun hw => by
      simp [(semantic_iff_wellFormed hd).mpr hw, Level.status] at hs
    obtain ⟨diag', -, -, hd'⟩ := evaluate_of_not_wellFormed (fun t ht => regular_of_mem_lex ht) hw
    rw [hd' table', ← hd' table, hd]
  cases h with
  | comment _ => simp at hr
  | badTarget ha hn => exact .badTarget ha hn
  | assigned _ _ _ => simp at hr
  | unassigned ha hn hd => exact .unassigned ha hn (hstay hd hr)
  | empty _ _ => simp at hr
  | valued _ _ _ => simp at hr
  | unvalued hb hl hd => exact .unvalued hb hl (hstay hd hr)

/-- A statement is accepted for its form, whatever the table holds: over another table the
status, the tokens and the text are the same, and a rejection is the same in everything. -/
theorem judge_accepts_by_form (d : Dialect) (text : Text) (table : Table) :
    ∃ o after, judge d table text = .ok (o, after) ∧
      (o.status = .accepted ↔ Acceptable d (trim text)) ∧
      ∀ table', ∃ o' after', judge d table' text = .ok (o', after') ∧
        o'.status = o.status ∧ o'.tokens = o.tokens ∧ o'.rawText = o.rawText ∧
        (o.status = .rejected → o' = o) := by
  obtain ⟨o, after, hj⟩ := exists_judged d table (trim text)
  have haccept := hj.accepted_iff (trimmed_trim text)
  refine ⟨o, after, hj.judge_eq, haccept, fun table' => ?_⟩
  obtain ⟨o', after', hj', htokens⟩ := hj.exists_tokens_eq table'
  have haccept' := hj'.accepted_iff (trimmed_trim text)
  refine ⟨o', after', hj'.judge_eq, Status.eq_of_accepted_iff (haccept'.trans haccept.symm), htokens,
    hj'.rawText_eq.trans hj.rawText_eq.symm, fun hr => ?_⟩
  have he := hj'.judge_eq.symm.trans (hj.of_rejected hr table').judge_eq
  rw [Except.ok.injEq, Prod.mk.injEq] at he
  exact he.1

end Verdict

end HexLang
