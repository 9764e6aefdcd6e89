import HexLang.Proofs.Evaluation
import HexLang.Proofs.Parsing

/-! What the diagnostics of an expression point at: one of its tokens, or the
end of them. -/

namespace HexLang

/-- Blames one of the tokens, or finds that they end too soon. -/
def Diagnostic.Concerns (d : Diagnostic) (tokens : List Token) : Prop :=
  (∃ t ∈ tokens, d.token? = some t) ∨ d = .incomplete ∨ d = .missingClosing none

theorem Diagnostic.position_of_token {d : Diagnostic} {t : Token} (h : d.token? = some t)
    (length : Nat) : d.position length = t.offset := by
  cases d <;> simp_all [Diagnostic.token?, Diagnostic.position]

theorem Diagnostic.concerns_of_token {d : Diagnostic} {t : Token} {tokens : List Token}
    (ht : t ∈ tokens) (h : d.token? = some t) : d.Concerns tokens :=
  .inl ⟨t, ht, h⟩

theorem refuse_eq_error_iff {α : Type} {d d' : Diagnostic} :
    refuse d = (.error (.diagnostic d') : Except Fault α) ↔ d = d' := by
  simp [refuse]

theorem token?_of_refuse {α : Type} {d d' : Diagnostic} {t : Token}
    (h : refuse d = (.error (.diagnostic d') : Except Fault α)) (ht : d.token? = some t) :
    d'.token? = some t :=
  refuse_eq_error_iff.mp h ▸ ht

theorem exists_of_foldlM_error {α σ ε : Type} {f : σ → α → Except ε σ} {s : σ} {l : List α} {e : ε}
    (h : l.foldlM f s = .error e) : ∃ mid, ∃ a ∈ l, f mid a = .error e := by
  induction l generalizing s with
  | nil => simp [pure, Except.pure] at h
  | cons a l ih =>
    cases hs : f s a with
    | error e' =>
      simp only [List.foldlM_cons, hs, bind, Except.bind, Except.error.injEq] at h
      exact ⟨s, a, List.mem_cons_self, by rw [hs, h]⟩
    | ok mid =>
      simp only [List.foldlM_cons, hs] at h
      obtain ⟨s', b, hb, he⟩ := ih h
      exact ⟨s', b, List.mem_cons_of_mem a hb, he⟩

section Parsing

variable {first t : Token} {tokens : List Token} {draft : Draft} {d : Diagnostic}

theorem admitOperand_token (h : admitOperand t = .error (.diagnostic d)) : d.token? = some t := by
  unfold admitOperand at h
  split at h
  · split at h
    · cases h
    · exact token?_of_refuse h rfl
  · split at h
    · exact token?_of_refuse h rfl
    · cases h
  · cases h

theorem Draft.step_token (h : draft.step first t = .error (.diagnostic d)) :
    d.token? = some t ∨ d.token? = some first := by
  obtain ⟨openings, w, operand⟩ := draft
  cases operand with
  | none =>
    simp only [Draft.step] at h
    cases hk : t.kind <;> simp only [hk] at h
    case identifier | hexNumber =>
      cases ha : admitOperand t with
      | ok u => simp [ha, bind, Except.bind, pure, Except.pure] at h
      | error f =>
        simp only [ha, bind, Except.bind, Except.error.injEq] at h
        exact .inl (admitOperand_token (h ▸ ha))
    case bracketOpen =>
      split at h
      · cases h
      · exact .inr (token?_of_refuse h rfl)
    all_goals exact .inl (token?_of_refuse h rfl)
  | some e =>
    simp only [Draft.step] at h
    cases hk : t.kind <;> simp only [hk] at h
    case operator =>
      split at h <;> simp at h
    case bracketClose =>
      cases openings with
      | cons b openings => cases h
      | nil => exact .inl (token?_of_refuse h rfl)
    all_goals exact .inl (token?_of_refuse h rfl)

theorem screen_concerns (h : screen tokens = .error (.diagnostic d)) : d.Concerns tokens := by
  have hnot : ¬ ∀ t ∈ tokens, t.screened = true := fun hs => by simp [screen_of_screened hs] at h
  obtain ⟨t, post, d', hsplit, hd, -, ht⟩ := screen_of_not_screened hnot
  have hmem : t ∈ tokens := by
    rw [hsplit]
    simp
  exact Diagnostic.concerns_of_token hmem (token?_of_refuse (hd ▸ h) ht)

theorem Unclosed.subset {opened : List Token} (h : Unclosed opened tokens) : opened ⊆ tokens := by
  induction opened generalizing tokens with
  | nil => simp
  | cons o outer ih =>
    obtain ⟨pre, inner, rfl, -, -, hp⟩ := h
    refine List.cons_subset.mpr ⟨by simp, fun t ht => ?_⟩
    exact List.mem_append_left _ (ih hp ht)

theorem Draft.finish_concerns (hu : draft.openings.map Opening.token ⊆ tokens)
    (h : draft.finish = .error (.diagnostic d)) : d.Concerns tokens := by
  obtain ⟨openings, w, operand⟩ := draft
  cases operand with
  | none =>
    cases openings with
    | nil => exact .inr (.inl (refuse_eq_error_iff.mp h).symm)
    | cons _ _ => exact .inr (.inr (refuse_eq_error_iff.mp h).symm)
  | some e =>
    cases openings with
    | nil => cases h
    | cons innermost _ =>
      have hmem : innermost.token ∈ tokens := hu (by simp)
      exact Diagnostic.concerns_of_token hmem (token?_of_refuse h rfl)

theorem parse_concerns (h : parse tokens = .error (.diagnostic d)) : d.Concerns tokens := by
  cases hscreen : screen tokens with
  | error f =>
    simp only [parse, hscreen, bind, Except.bind, Except.error.injEq] at h
    exact screen_concerns (h ▸ hscreen)
  | ok u =>
    cases tokens with
    | nil =>
      simp only [parse, hscreen, bind, Except.bind] at h
      exact .inr (.inl (refuse_eq_error_iff.mp h).symm)
    | cons first ts =>
      simp only [parse, hscreen, bind, Except.bind] at h
      cases hfold : (first :: ts).foldlM (Draft.step first) {} with
      | ok draft =>
        simp only [hfold] at h
        exact Draft.finish_concerns (unclosed_of_draft hfold).subset h
      | error f =>
        simp only [hfold, Except.error.injEq] at h
        obtain ⟨mid, t, ht, hstep⟩ := exists_of_foldlM_error (h ▸ hfold)
        rcases Draft.step_token hstep with hd | hd
        · exact Diagnostic.concerns_of_token ht hd
        · exact Diagnostic.concerns_of_token List.mem_cons_self hd

end Parsing

theorem Expr.value_token {table : Table} {e : Expr} {d : Diagnostic}
    (h : e.value table = .error (.diagnostic d)) : ∃ t ∈ e.inOrder, d.token? = some t := by
  induction e with
  | number v t => simp [Expr.value] at h
  | stray text => simp [Expr.value] at h
  | var name t =>
    simp only [Expr.value, Table.find] at h
    split at h
    · cases h
    · exact ⟨t, by simp [Expr.inOrder], token?_of_refuse h rfl⟩
  | binary o l r t ihl ihr =>
    simp only [Expr.value, bind, Except.bind] at h
    cases hl : l.value table with
    | error f =>
      simp only [hl, Except.error.injEq] at h
      obtain ⟨u, hu, hd⟩ := ihl (h ▸ hl)
      exact ⟨u, by simp [Expr.inOrder, hu], hd⟩
    | ok a =>
      cases hr : r.value table with
      | error f =>
        simp only [hl, hr, Except.error.injEq] at h
        obtain ⟨u, hu, hd⟩ := ihr (h ▸ hr)
        exact ⟨u, by simp [Expr.inOrder, hu], hd⟩
      | ok b =>
        simp only [hl, hr] at h
        refine ⟨t, by simp [Expr.inOrder], ?_⟩
        cases o with
        | div =>
          simp only [BinaryOperator.apply] at h
          split at h
          · exact token?_of_refuse h rfl
          · cases h
        | _ => simp [BinaryOperator.apply] at h

theorem evaluate_concerns {table : Table} {tokens : List Token} {d : Diagnostic}
    (h : evaluate table tokens = .error (.diagnostic d)) : d.Concerns tokens := by
  cases hp : parse tokens with
  | error f =>
    simp only [evaluate, hp, bind, Except.bind, Except.error.injEq] at h
    exact parse_concerns (h ▸ hp)
  | ok e =>
    rw [evaluate_of_parse hp] at h
    obtain ⟨t, ht, hd⟩ := Expr.value_token h
    rw [(derives_of_parse hp).inOrder_eq] at ht
    exact Diagnostic.concerns_of_token (List.mem_filter.mp ht).1 hd

end HexLang
