import HexLang.Proofs.Conversation
import HexLang.Proofs.Log

/-! The report on a run: its outcomes, and then its table. Only a value that is
too long for base ten cannot be shown. Whatever the table holds was the value of
an outcome, so the report ends at the first outcome with such a value, and the
table behind the outcomes has none. -/

namespace HexLang

def Outcome.Overlong (o : Outcome) : Prop :=
  ∃ v, o.value = some v ∧ 10 ^ decimalDigits ≤ v.natAbs

/-- An outcome as text, with the caret window or without it. -/
def render (pointed : Bool) (o : Outcome) : Except Fault Text :=
  if pointed then showPointed o else showOutcome o

/-- The outcomes one after another, and the table behind them. -/
def report (pointed : Bool) (run : Run) : Except Fault (List Text) := do
  let lines ← run.outcomes.mapM (render pointed)
  let table ← showTable run.table
  return lines ++ [table]

/-- The first overlong outcome cannot be rendered, and those in front of it can. -/
def StopsOverlong (pointed : Bool) (outcomes : List Outcome) : Prop :=
  ∃ pre o post, outcomes = pre ++ o :: post ∧
    (∀ p ∈ pre, ¬ p.Overlong ∧ ∃ text, render pointed p = .ok text) ∧
    o.Overlong ∧ render pointed o = .error .decimalTooLong

section Outcomes

variable {o : Outcome} {f : Fault} {v : Int}

theorem showValue_eq_error_iff :
    showValue v = .error f ↔ f = .decimalTooLong ∧ 10 ^ decimalDigits ≤ v.natAbs := by
  rw [showValue, Nat.pow_eq]
  split
  · rename_i hle
    simp [hle, eq_comm]
  · rename_i hlt
    simp [hlt]

theorem showOutcome_eq_error_iff (hm : ∀ v, o.value = some v → o.message = none) :
    showOutcome o = .error f ↔ f = .decimalTooLong ∧ o.Overlong := by
  cases hv : o.value with
  | none =>
    have hshort : ¬ o.Overlong := by simp [Outcome.Overlong, hv]
    cases hr : o.remark <;> simp [showOutcome, hr, hv, hshort]
  | some v =>
    have hr : o.remark = none := by simp [Outcome.remark, hm v hv]
    have hlong : o.Overlong ↔ 10 ^ decimalDigits ≤ v.natAbs := by simp [Outcome.Overlong, hv]
    rw [hlong, ← showValue_eq_error_iff]
    cases hs : showValue v <;> simp [showOutcome, hr, hv, hs, bind, Except.bind, pure, Except.pure]

/-- The caret window cannot fail. -/
theorem render_eq_error_iff_showOutcome (pointed : Bool) :
    render pointed o = .error f ↔ showOutcome o = .error f := by
  cases pointed with
  | false => rfl
  | true =>
    simp only [render, if_true, showPointed]
    cases showOutcome o with
    | error e => simp [bind, Except.bind]
    | ok line =>
      simp only [bind, Except.bind, reduceCtorEq, iff_false]
      split <;> simp [pure, Except.pure]

theorem render_eq_error_iff (hm : ∀ v, o.value = some v → o.message = none) (pointed : Bool) :
    render pointed o = .error f ↔ f = .decimalTooLong ∧ o.Overlong :=
  (render_eq_error_iff_showOutcome pointed).trans (showOutcome_eq_error_iff hm)

end Outcomes

section Report

variable {source : Text} {run : Run}

theorem message_eq_none_of_value (h : runProgram standard source = .ok run) {o : Outcome}
    (ho : o ∈ run.outcomes) (v : Int) (hv : o.value = some v) : o.message = none := by
  obtain ⟨segs, -, hr⟩ := exists_of_runProgram h
  obtain ⟨s, -, before, o', after, hj, rfl⟩ := hr.mem_outcomes ho
  rw [Outcome.terminate_value] at hv
  rw [Outcome.terminate_message]
  by_contra hm
  rw [hj.value_eq_none (.inr hm)] at hv
  cases hv

theorem exists_showTable_of_short (h : runProgram standard source = .ok run)
    (hshort : ∀ o ∈ run.outcomes, ¬ o.Overlong) : ∃ text, showTable run.table = .ok text := by
  have hv : Showable run.outcomes := fun o ho v hval =>
    Nat.lt_of_not_le fun hle => hshort o ho ⟨v, hval, hle⟩
  exact exists_showTable (natAbs_lt_of_mem_entries h hv)

/-- The report is made, or the first overlong outcome stops it. -/
theorem report_ok_or_stops (h : runProgram standard source = .ok run) (pointed : Bool) :
    (∃ lines, report pointed run = .ok lines ∧ ∀ o ∈ run.outcomes, ¬ o.Overlong) ∨
      report pointed run = .error .decimalTooLong ∧ StopsOverlong pointed run.outcomes := by
  -- what has a value has no message, so its value is always among what is rendered
  have herr : ∀ o ∈ run.outcomes, ∀ f,
      render pointed o = .error f ↔ f = .decimalTooLong ∧ o.Overlong :=
    fun o ho f => render_eq_error_iff (message_eq_none_of_value h ho) pointed
  have hshort : ∀ o ∈ run.outcomes, (∃ text, render pointed o = .ok text) → ¬ o.Overlong := by
    rintro o ho ⟨text, ht⟩ hlong
    have hf := (herr o ho .decimalTooLong).mpr ⟨rfl, hlong⟩
    rw [ht] at hf
    cases hf
  rcases mapM_ok_or_stops (render pointed) run.outcomes with
    ⟨lines, hlines, -⟩ | ⟨pre, o, post, f, hsplit, hpre, hf, hlines⟩
  · have hall := exists_ok_of_mapM hlines
    have hnone : ∀ o ∈ run.outcomes, ¬ o.Overlong := fun o ho => hshort o ho (hall o ho)
    obtain ⟨table, htable⟩ := exists_showTable_of_short h hnone
    refine .inl ⟨lines ++ [table], ?_, hnone⟩
    simp only [report, hlines, htable, bind, Except.bind, pure, Except.pure]
  · obtain ⟨rfl, hlong⟩ := (herr o (by simp [hsplit]) f).mp hf
    refine .inr ⟨by simp only [report, hlines, bind, Except.bind], pre, o, post, hsplit, ?_, hlong, hf⟩
    exact fun p hp => ⟨hshort p (by simp [hsplit, hp]) (hpre p hp), hpre p hp⟩

theorem StopsOverlong.exists_overlong {pointed : Bool} {outcomes : List Outcome}
    (h : StopsOverlong pointed outcomes) : ∃ o ∈ outcomes, o.Overlong := by
  obtain ⟨pre, o, post, rfl, -, hlong, -⟩ := h
  exact ⟨o, by simp, hlong⟩

theorem batch_eq_report (h : runProgram standard source = .ok run) (verbose : Bool) :
    ∃ logged, batch verbose source =
      (report true run).map fun lines => ⟨printed lines, logged⟩ := by
  obtain ⟨logged, hlog⟩ := exists_runLogged h verbose
  have hrender : render true = showPointed := rfl
  refine ⟨logged, ?_⟩
  simp only [batch, report, hlog, hrender, bind, Except.bind]
  cases run.outcomes.mapM showPointed with
  | error f => rfl
  | ok lines => cases showTable run.table <;> rfl

end Report

/-- A report fails just if some outcome has a value that is too long, and always for this reason.
The first such outcome is where it stops. The table is no place to stop at: it can be shown
whenever the outcomes can. -/
theorem report_fails_iff_overlong (source : Text) (pointed : Bool) :
    ∃ run, runProgram standard source = .ok run ∧
      ((∃ f, report pointed run = .error f) ↔ ∃ o ∈ run.outcomes, o.Overlong) ∧
      (∀ f, report pointed run = .error f →
        f = .decimalTooLong ∧ StopsOverlong pointed run.outcomes) ∧
      (∀ f, showTable run.table = .error f → StopsOverlong pointed run.outcomes) ∧
      ∀ verbose, ∃ logged, batch verbose source =
        (report true run).map fun lines => ⟨printed lines, logged⟩ := by
  have hterminator : standard.terminator ≠ [] := by decide
  obtain ⟨run, hr⟩ := exists_runProgram hterminator source
  rcases report_ok_or_stops hr pointed with ⟨lines, hok, hshort⟩ | ⟨herr, hstop⟩
  · obtain ⟨table, htable⟩ := exists_showTable_of_short hr hshort
    refine ⟨run, hr, iff_of_false ?_ ?_, ?_, ?_, batch_eq_report hr⟩
    · rintro ⟨f, hf⟩
      exact nomatch hok.symm.trans hf
    · rintro ⟨o, ho, hlong⟩
      exact hshort o ho hlong
    · exact fun f hf => nomatch hok.symm.trans hf
    · exact fun f hf => nomatch htable.symm.trans hf
  · have hlong := hstop.exists_overlong
    refine ⟨run, hr, iff_of_true ⟨_, herr⟩ hlong, fun f hf => ?_, fun _ _ => hstop,
      batch_eq_report hr⟩
    exact ⟨Except.error.inj (hf.symm.trans herr), hstop⟩

theorem report_fails_iff_overlong_power :
    let source := ("a := 10000; a := a * a * a * a; a := a * a * a * a; a := a * a * a * a; " ++
      "a := a * a * a * a; a := a * a * a * a; 0").toList
    ∃ run, runProgram standard source = .ok run ∧ (∃ o ∈ run.outcomes, o.Overlong) ∧
      report true run = .error .decimalTooLong ∧ batch false source = .error .decimalTooLong := by
  intro source
  obtain ⟨run, hr, hiff, hcause, -, hbatch⟩ := report_fails_iff_overlong source true
  have hvalue : (runProgram standard source).map (fun run => run.outcomes[5]?.bind (·.value)) =
      .ok (some (2 ^ 16384)) := by decide +kernel
  have hlarge : 10 ^ decimalDigits ≤ (2 ^ 16384 : Int).natAbs := by decide +kernel
  rw [hr] at hvalue
  obtain ⟨o, ho, hv⟩ := Option.bind_eq_some_iff.mp (Except.ok.inj hvalue)
  have hlong : ∃ o ∈ run.outcomes, o.Overlong := ⟨o, List.mem_of_getElem? ho, _, hv, hlarge⟩
  obtain ⟨f, hf⟩ := hiff.mpr hlong
  obtain ⟨rfl, -⟩ := hcause f hf
  obtain ⟨logged, hb⟩ := hbatch false
  rw [hf] at hb
  exact ⟨run, hr, hlong, hf, hb⟩

end HexLang
