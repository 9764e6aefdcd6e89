import HexLang.Proofs.Footprint

/-! What a statement does to the table. An assignment that goes through binds
its target, and no other statement binds anything. Which binding it is depends
on the names in the statement and on nothing else in the table. -/

namespace HexLang

/-- An assignment that is accepted and has nothing to remark. -/
structure GoesThrough (d : Dialect) (raw : Text) (o : Outcome) : Prop where
  plain : ¬ d.commentMarker <+: raw
  marked : d.assignMarker <:+: raw
  accepted : o.status = .accepted
  silent : o.message = none

/-- The later table is the earlier one with the binding, if there is one, and alike elsewhere. -/
structure Table.Gains (table : Table) (binding : Option (Text × Int)) (after : Table) : Prop where
  bound : ∀ x v, binding = some (x, v) → after.get? x = some v
  kept : ∀ x, (∀ v, binding ≠ some (x, v)) → after.get? x = table.get? x

theorem Table.gains_rebind (table : Table) (binding : Option (Text × Int)) :
    table.Gains binding (table.rebind binding) where
  bound := by
    rintro x v rfl
    exact Table.get?_insert_self table x v
  kept := fun _ hx => Table.get?_rebind_of_ne hx table

section Verdict

variable {d : Dialect} {table after : Table} {raw : Text} {o : Outcome}

theorem Judged.eq_of_not_goesThrough (h : Judged d table raw o after)
    (hn : ¬ GoesThrough d raw o) : after = table := by
  cases h with
  | assigned ha _ _ => exact absurd ⟨ha.plain, ha.cut.isInfix, rfl, rfl⟩ hn
  | _ => rfl

theorem Judged.gains_of_goesThrough (h : Judged d table raw o after) (hg : GoesThrough d raw o) :
    ∃ before right v, FirstCut d.assignMarker raw before right ∧ isName (trim before) = true ∧
      o.tokens = rightTokens d before right ∧ o.value = some v ∧
      evaluate table (rightTokens d before right) = .ok v ∧
      table.Gains (some (trim before, v)) after := by
  have hsilent := hg.silent
  cases h with
  | comment hp => exact absurd hp hg.plain
  | badTarget _ _ => cases hsilent
  | unassigned _ _ _ => cases hsilent
  | assigned ha hn hv =>
    exact ⟨_, _, _, ha.cut, hn, rfl, rfl, hv, Table.gains_rebind table (some (_, _))⟩
  | empty hb _ => exact absurd hg.marked hb.uncut
  | valued hb _ _ => exact absurd hg.marked hb.uncut
  | unvalued hb _ _ => exact absurd hg.marked hb.uncut

/-- An outcome has the tokens of the expression, whatever became of them. -/
theorem Judged.tokens_eq (h : Judged d table raw o after) : o.tokens = expressionTokens d raw := by
  cases h with
  | comment hp =>
    rw [expressionTokens, Statement.ofText, if_pos (List.isPrefixOf_iff_prefix.mpr hp)]
  | badTarget ha hn =>
    rw [expressionTokens, ha.ofText_eq]
    simp [hn, Outcome.ofDiagnostic]
  | assigned ha hn _ => exact (expressionTokens_of_assigns ha hn).symm
  | unassigned ha hn _ => exact (expressionTokens_of_assigns ha hn).symm
  | empty hb hl => rw [expressionTokens_of_bare hb, hl]
  | valued hb _ _ => exact (expressionTokens_of_bare hb).symm
  | unvalued hb _ _ => exact (expressionTokens_of_bare hb).symm

end Verdict

/-- A statement leaves the table as it was, unless it is an assignment that goes through. Then its
target is bound to the value that the right side has over the table as it was. -/
theorem judge_binds_or_keeps (d : Dialect) (table : Table) (text : Text) :
    ∃ o after, judge d table text = .ok (o, after) ∧
      (¬ GoesThrough d (trim text) o → after = table) ∧
      (GoesThrough d (trim text) o → ∃ before right v,
        FirstCut d.assignMarker (trim text) before right ∧ isName (trim before) = true ∧
        o.tokens = rightTokens d before right ∧ o.value = some v ∧
        evaluate table (rightTokens d before right) = .ok v ∧
        table.Gains (some (trim before, v)) after) := by
  obtain ⟨o, after, hj⟩ := exists_judged d table (trim text)
  exact ⟨o, after, hj.judge_eq, hj.eq_of_not_goesThrough, hj.gains_of_goesThrough⟩

theorem judge_binds_or_keeps_own_target :
    let table := (∅ : Table).insert ['n'] 31
    ∃ o after, judge standard table "n := n + 1".toList = .ok (o, after) ∧
      GoesThrough standard "n := n + 1".toList o ∧ table.Gains (some (['n'], 32)) after := by
  intro table
  obtain ⟨o, after, hjudge, -, hgains⟩ := judge_binds_or_keeps standard table "n := n + 1".toList
  have hcut : FirstCut standard.assignMarker "n := n + 1".toList "n ".toList " n + 1".toList :=
    firstCut_of_splitFirst (by decide)
  have ha : Assigns standard (trim "n := n + 1".toList) "n ".toList " n + 1".toList :=
    ⟨by decide, hcut⟩
  have hvalue : evaluate table (rightTokens standard "n ".toList " n + 1".toList) = .ok 32 := by
    decide +kernel
  have hjudged := (Judged.assigned ha (by decide) hvalue).judge_eq
  obtain ⟨rfl, rfl⟩ := Prod.mk.inj (Except.ok.inj (hjudged.symm.trans hjudge))
  obtain ⟨before, right, v, hcut', -, -, hv, -, hafter⟩ := hgains ⟨ha.plain, hcut.isInfix, rfl, rfl⟩
  obtain ⟨rfl, rfl⟩ := hcut'.unique hcut
  obtain rfl : 32 = v := Option.some.inj hv
  exact ⟨_, _, hjudge, ⟨ha.plain, hcut.isInfix, rfl, rfl⟩, hafter⟩

/-- Over tables that agree on the names in a statement it has one outcome, and gives both tables
the same binding or none. -/
theorem judge_depends_on_names (d : Dialect) (table : Table) (text : Text) :
    ∃ o after binding, judge d table text = .ok (o, after) ∧ table.Gains binding after ∧
      ∀ table' : Table, AgreeOn o.tokens table table' →
        ∃ after', judge d table' text = .ok (o, after') ∧ table'.Gains binding after' := by
  obtain ⟨o, after, hj⟩ := exists_judged d table (trim text)
  obtain ⟨binding, rfl, -, hover⟩ := hj.exists_binding
  refine ⟨o, _, binding, hj.judge_eq, table.gains_rebind binding, fun table' ha => ?_⟩
  have hreads := agreeOn_expressionTokens_iff.mp (hj.tokens_eq ▸ ha)
  exact ⟨_, (hover table' hreads).judge_eq, table'.gains_rebind binding⟩

theorem judge_depends_on_names_elsewhere :
    let table := (∅ : Table).insert ['y'] 5
    let table' := (table.insert ['x'] 8).insert ['z'] (-1)
    ∃ o after after' binding, AgreeOn o.tokens table table' ∧
      judge standard table "x := y / (y - y)".toList = .ok (o, after) ∧
      judge standard table' "x := y / (y - y)".toList = .ok (o, after') ∧
      table.Gains binding after ∧ table'.Gains binding after' := by
  intro table table'
  obtain ⟨o, after, binding, hjudge, hgains, hover⟩ :=
    judge_depends_on_names standard table "x := y / (y - y)".toList
  have hnames : AgreeOn (expressionTokens standard (trim "x := y / (y - y)".toList)) table table' := by
    decide +kernel
  have ha : AgreeOn o.tokens table table' := (Judged.of_judge hjudge).tokens_eq ▸ hnames
  obtain ⟨after', hjudge', hgains'⟩ := hover table' ha
  exact ⟨o, after, after', binding, ha, hjudge, hjudge', hgains, hgains'⟩

end HexLang
