import HexLang.Proofs.Agreement
import HexLang.Proofs.Evaluation
import HexLang.Proofs.Parsing
import HexLang.Proofs.Segmentation
import HexLang.Statement

/-! Tokens cut from a text are regular: the rules for a single operand never
refuse them. Whether they can be read depends on their form alone, and a
well-formed expression fails at most for want of a value. -/

namespace HexLang

/-- Spelled as its kind is spelled in a text. -/
def Token.Regular (t : Token) : Prop :=
  match t.kind with
  | .hexNumber => isLiteral t.text = true
  | .identifier => startsUppercase t.text = false
  | .operator => ∃ o : BinaryOperator, t.text = [o.sign]
  | _ => True

/-- The diagnostics that no regular token gives rise to. -/
def Diagnostic.isSpare : Diagnostic → Bool
  | .badLiteral _ | .uppercaseName _ | .uppercaseTarget _ => true
  | _ => false

/-- The fault speaks of the form of a statement. -/
def Fault.Refuses (f : Fault) : Prop :=
  ∃ d, f = .diagnostic d ∧ d.level = .syntactic ∧ d.isSpare = false

/-- An expression, as far as its form goes, which the parser can hold. -/
def WellFormed (tokens : List Token) : Prop :=
  checkForm tokens = .ok () ∧ NestsWithin nestingLimit tokens

theorem startsUppercase_of_isName {name : Text} (h : isName name = true) :
    startsUppercase name = false := by
  cases name with
  | nil => rfl
  | cons c rest =>
    simp only [isName, Bool.and_eq_true] at h
    have hstart := h.1
    simp only [isNameStart, Bool.or_eq_true, beq_iff_eq] at hstart
    rw [startsUppercase, List.head?_cons, Option.any_some]
    by_contra hu
    rw [Bool.not_eq_false] at hu
    have hz : c ≤ 'Z' := (of_decide_eq_true hu).2
    rcases hstart with rfl | hl
    · exact absurd hz (by decide)
    · exact absurd (Char.le_trans (isLower_iff.mp hl).1 hz) (by decide)

theorem exists_sign {c : Char} (h : isOperatorSign c = true) :
    ∃ o : BinaryOperator, c = o.sign := by
  simp only [isOperatorSign, Bool.or_eq_true, beq_iff_eq] at h
  rcases h with ((rfl | rfl) | rfl) | rfl
  · exact ⟨.add, rfl⟩
  · exact ⟨.sub, rfl⟩
  · exact ⟨.mul, rfl⟩
  · exact ⟨.div, rfl⟩

theorem Token.Cut.regular {marker ahead : Text} {t : Token} (h : t.Cut marker ahead) :
    t.Regular := by
  have hc := h.classed
  unfold Token.Regular
  unfold Classed at hc
  split
  · rename_i hk
    rw [hk] at hc
    exact hc.1
  · rename_i hk
    rw [hk] at hc
    exact startsUppercase_of_isName hc.1
  · rename_i hk
    rw [hk] at hc
    obtain ⟨c, ht, hs⟩ := hc
    obtain ⟨o, rfl⟩ := exists_sign hs
    exact ⟨o, ht⟩
  · trivial

theorem regular_of_mem_lex {marker text : Text} {base : Int} {t : Token}
    (h : t ∈ lex marker base text) : t.Regular :=
  (((segmentation_iff_eq_lex marker base text _).mpr rfl).cut t h).regular

theorem signed_of_regular {tokens : List Token} (h : ∀ t ∈ tokens, t.Regular) : Signed tokens := by
  intro t ht hk
  have hr := h t ht
  rw [Token.Regular, hk] at hr
  exact hr

theorem admitOperand_of_regular {t : Token} (h : t.Regular) : admitOperand t = .ok () := by
  unfold Token.Regular at h
  unfold admitOperand
  split
  · rename_i hk
    rw [hk] at h
    simp only [h, if_true]
  · rename_i hk
    rw [hk] at h
    simp [h]
  · rfl

theorem screenToken_error {t : Token} {f : Fault} (h : screenToken t = .error f) : f.Refuses := by
  unfold screenToken at h
  split at h
  · simp only [refuse, Except.error.injEq] at h
    exact ⟨_, h.symm, rfl, rfl⟩
  · simp only [refuse, Except.error.injEq] at h
    exact ⟨_, h.symm, rfl, rfl⟩
  · simp at h

theorem screen_error {tokens : List Token} {f : Fault} (h : screen tokens = .error f) :
    f.Refuses := by
  induction tokens with
  | nil => simp [screen, pure, Except.pure] at h
  | cons t ts ih =>
    simp only [screen, List.forM_eq_forM, List.forM_cons] at h
    cases hs : screenToken t with
    | error f' =>
      simp only [hs, bind, Except.bind, Except.error.injEq] at h
      exact screenToken_error (h ▸ hs)
    | ok u =>
      simp only [hs] at h
      exact ih h

theorem Draft.step_error {first t : Token} {draft : Draft} {f : Fault} (ht : t.Regular)
    (h : draft.step first t = .error f) :
    f.Refuses := by
  obtain ⟨openings, w, operand⟩ := draft
  have ha := admitOperand_of_regular ht
  cases operand with
  | none =>
    simp only [Draft.step, ha] at h
    cases hk : t.kind <;> simp only [hk] at h
    case identifier | hexNumber => simp [bind, Except.bind, pure, Except.pure] at h
    case bracketOpen =>
      split at h
      · simp at h
      · simp only [refuse, Except.error.injEq] at h
        exact ⟨_, h.symm, rfl, rfl⟩
    all_goals
      simp only [refuse, Except.error.injEq] at h
      exact ⟨_, h.symm, rfl, rfl⟩
  | some e =>
    simp only [Draft.step] at h
    cases hk : t.kind <;> simp only [hk] at h
    case operator =>
      rw [Token.Regular, hk] at ht
      obtain ⟨o, ho⟩ := ht
      simp [ho] at h
    case bracketClose =>
      cases openings with
      | nil =>
        simp only [refuse, Except.error.injEq] at h
        exact ⟨_, h.symm, rfl, rfl⟩
      | cons b openings => simp at h
    all_goals
      simp only [refuse, Except.error.injEq] at h
      exact ⟨_, h.symm, rfl, rfl⟩

theorem Draft.finish_error {draft : Draft} {f : Fault} (h : draft.finish = .error f) :
    f.Refuses := by
  obtain ⟨openings, w, operand⟩ := draft
  cases operand <;> cases openings <;> simp only [Draft.finish, refuse, Except.error.injEq, reduceCtorEq] at h
  all_goals exact ⟨_, h.symm, rfl, rfl⟩

theorem foldlM_draft_error {first : Token} {tokens : List Token} {draft : Draft} {f : Fault}
    (hr : ∀ t ∈ tokens, t.Regular) (h : tokens.foldlM (Draft.step first) draft = .error f) :
    f.Refuses := by
  induction tokens generalizing draft with
  | nil => simp [pure, Except.pure] at h
  | cons t ts ih =>
    cases hs : draft.step first t with
    | error f' =>
      simp only [List.foldlM_cons, hs, bind, Except.bind, Except.error.injEq] at h
      exact Draft.step_error (hr t (by simp)) (h ▸ hs)
    | ok draft' =>
      simp only [List.foldlM_cons, hs] at h
      exact ih (fun u hu => hr u (by simp [hu])) h

/-- Regular tokens that cannot be read are refused, and nothing worse. -/
theorem parse_error {tokens : List Token} {f : Fault} (hr : ∀ t ∈ tokens, t.Regular)
    (h : parse tokens = .error f) :
    f.Refuses := by
  cases hscreen : screen tokens with
  | error f' =>
    simp only [parse, hscreen, bind, Except.bind, Except.error.injEq] at h
    exact screen_error (h ▸ hscreen)
  | ok u =>
    cases tokens with
    | nil =>
      simp only [parse, hscreen, bind, Except.bind, refuse, Except.error.injEq] at h
      exact ⟨_, h.symm, rfl, rfl⟩
    | cons first ts =>
      simp only [parse, hscreen, bind, Except.bind] at h
      cases hfold : (first :: ts).foldlM (Draft.step first) {} with
      | error f' =>
        simp only [hfold, Except.error.injEq] at h
        exact foldlM_draft_error hr (h ▸ hfold)
      | ok draft =>
        simp only [hfold] at h
        exact Draft.finish_error h

theorem wellFormed_of_parse {tokens : List Token} {e : Expr} (hs : Signed tokens)
    (h : parse tokens = .ok e) : WellFormed tokens := by
  have hn : NestsWithin nestingLimit (beforeBlame tokens) := by
    by_contra hn
    obtain ⟨first, -, hp⟩ := parse_tooDeep hs (derives_of_parse h).screened hn
    simp [hp, refuse] at h
  cases hc : checkForm tokens with
  | error f =>
    obtain ⟨d, -, -, -, -, hecho⟩ := parse_echoes_checkForm hs hc
    obtain ⟨d', hp, -⟩ := hecho (.inr hn)
    simp [hp] at h
  | ok u => exact ⟨hc, beforeBlame_of_checkForm hc ▸ hn⟩

/-- The parser holds exactly the expressions that are well-formed. -/
theorem exists_parse_iff {tokens : List Token} (hs : Signed tokens) :
    (∃ e, parse tokens = .ok e) ↔ WellFormed tokens :=
  ⟨fun ⟨_, h⟩ => wellFormed_of_parse hs h, fun h => exists_parse_of_checkForm hs h.1 h.2⟩

theorem Derives.withholds {tier : Tier} {ts : List Token} {e : Expr} (hd : Derives tier ts e)
    {table : Table} {f : Fault} (h : Values table e (.error f)) : ∃ m t, f.Withholds m t := by
  induction hd with
  | literal _ _ => cases h
  | name _ _ =>
    cases h with
    | unbound _ hf => exact ⟨_, _, hf⟩
  | group _ _ _ ih => exact ih h
  | factor _ ih => exact ih h
  | product _ ih => exact ih h
  | scale _ _ _ _ ihl ihr =>
    cases h with
    | left hl => exact ihl hl
    | right _ hr => exact ihr hr
    | zeroDivisor _ _ hf => exact ⟨_, _, hf⟩
  | add _ _ _ _ ihl ihr =>
    cases h with
    | left hl => exact ihl hl
    | right _ hr => exact ihr hr
    | zeroDivisor _ _ hf => exact ⟨_, _, hf⟩

theorem evaluate_of_wellFormed {tokens : List Token} (hs : Signed tokens) (h : WellFormed tokens)
    (table : Table) :
    (∃ v, evaluate table tokens = .ok v) ∨
      ∃ d, evaluate table tokens = .error (.diagnostic d) ∧ d.level = .semantic := by
  obtain ⟨e, hp⟩ := (exists_parse_iff hs).mpr h
  rw [evaluate_of_parse hp]
  cases hv : e.value table with
  | ok v => exact .inl ⟨v, rfl⟩
  | error f =>
    obtain ⟨m, t, d, rfl, hl, -⟩ := (derives_of_parse hp).withholds (hv ▸ values_value table e)
    exact .inr ⟨d, rfl, hl⟩

theorem evaluate_of_not_wellFormed {tokens : List Token} (hr : ∀ t ∈ tokens, t.Regular)
    (h : ¬ WellFormed tokens) :
    ∃ d, d.level = .syntactic ∧ d.isSpare = false ∧
      ∀ table, evaluate table tokens = .error (.diagnostic d) := by
  cases hp : parse tokens with
  | ok e => exact absurd (wellFormed_of_parse (signed_of_regular hr) hp) h
  | error f =>
    obtain ⟨d, rfl, hl, hsp⟩ := parse_error hr hp
    exact ⟨d, hl, hsp, fun table => by simp only [evaluate, hp, bind, Except.bind]⟩

theorem checkForm_operand {t : Token} (hk : t.kind = .hexNumber ∨ t.kind = .identifier) :
    checkForm [t] = admitOperand t := by
  rcases hk with hk | hk <;> cases ha : admitOperand t <;>
    simp [checkForm, screen, screenToken, Reading.step, Reading.finish, hk, ha, bind, Except.bind,
      pure, Except.pure]

theorem evaluate_operand {t : Token} (hk : t.kind = .hexNumber ∨ t.kind = .identifier)
    (table : Table) : evaluate table [t] = (admitOperand t).bind fun _ =>
      if t.kind = .hexNumber then .ok (literalValue t.text : Int) else table.find t.text t := by
  rcases hk with hk | hk <;> cases ha : admitOperand t <;>
    simp [evaluate, parse, screen, screenToken, Draft.step, Draft.finish, hk, ha, bind, Except.bind,
      pure, Except.pure, Waiting.close, Waiting.closeProduct, completeWith, evaluateExpr_eq_value,
      Expr.value]

/-- To be screened twice is to be screened once. -/
theorem evaluateRight_eq_evaluate (table : Table) (tokens : List Token) :
    evaluateRight table tokens = evaluate table tokens := by
  simp only [evaluateRight, evaluate, parse]
  cases screen tokens <;> rfl

/-- The rule for a lone token gives what the parser and the evaluator give. -/
theorem evaluateBare_eq_evaluate (table : Table) (tokens : List Token) :
    evaluateBare table tokens = evaluate table tokens := by
  match tokens with
  | [] => rfl
  | _ :: _ :: _ => rfl
  | [t] =>
    by_cases hk : t.kind = .hexNumber ∨ t.kind = .identifier
    · rw [evaluate_operand hk, evaluateBare, checkForm_operand hk]
      rcases hk with hk | hk <;> simp [hk, bind, pure, Except.pure, evaluateExpr_eq_value, Expr.value]
    · -- any other token is refused, by the check and by the parser alike
      obtain ⟨kind, text, offset⟩ := t
      cases kind with
      | hexNumber => simp at hk
      | identifier => simp at hk
      | _ => rfl

end HexLang
