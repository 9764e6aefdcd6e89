import HexLang.Precedence
import HexLang.Proofs.Nesting

/-! What one token does to a draft and to a reading, and how that carries over
to a row of tokens, which is taken in from the left. -/

namespace HexLang

section Fold

variable {α σ ε : Type} {f : σ → α → Except ε σ} {s s' : σ} {l : List α}

theorem foldlM_append_of_ok (h : l.foldlM f s = .ok s') (m : List α) :
    (l ++ m).foldlM f s = m.foldlM f s' := by
  rw [List.foldlM_append, h]
  rfl

theorem foldlM_append_of_error {e : ε} (h : l.foldlM f s = .error e) (m : List α) :
    (l ++ m).foldlM f s = .error e := by
  rw [List.foldlM_append, h]
  rfl

theorem foldlM_concat_of_ok (h : l.foldlM f s = .ok s') (a : α) :
    (l ++ [a]).foldlM f s = f s' a := by
  rw [foldlM_append_of_ok h]
  simp

theorem exists_of_foldlM_concat {a : α} (h : (l ++ [a]).foldlM f s = .ok s') :
    ∃ mid, l.foldlM f s = .ok mid ∧ f mid a = .ok s' := by
  cases hl : l.foldlM f s with
  | error e =>
    rw [foldlM_append_of_error hl] at h
    simp at h
  | ok mid => exact ⟨mid, rfl, by rw [← foldlM_concat_of_ok hl, h]⟩

/-- A property of the items passed and the state behind them holds of the whole
fold when every step keeps it. -/
theorem foldlM_induct {P : List α → σ → Prop} (hs : P [] s)
    (hstep : ∀ pre mid a mid', P pre mid → f mid a = .ok mid' → P (pre ++ [a]) mid')
    (h : l.foldlM f s = .ok s') : P l s' := by
  induction l using List.reverseRecOn generalizing s' with
  | nil =>
    have he : s = s' := by simpa [pure, Except.pure] using h
    exact he ▸ hs
  | append_singleton l a ih =>
    obtain ⟨mid, hl, ha⟩ := exists_of_foldlM_concat h
    exact hstep l mid a s' (ih hl) ha

end Fold

def Token.screened (t : Token) : Bool :=
  t.kind ≠ .unknown ∧ t.kind ≠ .comment

theorem screenToken_of_screened {t : Token} (h : t.screened = true) : screenToken t = .ok () := by
  simp only [Token.screened, decide_eq_true_eq] at h
  unfold screenToken
  split
  · rename_i hk
    exact absurd hk h.1
  · rename_i hk
    exact absurd hk h.2
  · rfl

theorem screenToken_of_not_screened {t : Token} (h : t.screened = false) :
    ∃ d, screenToken t = refuse d ∧ d.level = .syntactic ∧ d.token? = some t := by
  simp only [Token.screened, decide_eq_false_iff_not, not_and_or, not_not] at h
  rcases h with h | h
  · exact ⟨.unknownToken t, by simp [screenToken, h], rfl, rfl⟩
  · exact ⟨.commentInside t, by simp [screenToken, h], rfl, rfl⟩

theorem screen_cons_of_screened {t : Token} (h : t.screened = true) (ts : List Token) :
    screen (t :: ts) = screen ts := by
  simp only [screen, List.forM_eq_forM, List.forM_cons, screenToken_of_screened h]
  rfl

theorem screen_of_screened {tokens : List Token} (h : ∀ t ∈ tokens, t.screened = true) :
    screen tokens = .ok () := by
  induction tokens with
  | nil => rfl
  | cons t ts ih =>
    rw [screen_cons_of_screened (h t (by simp))]
    exact ih fun u hu => h u (by simp [hu])

/-- The screen blames the first token that it does not let through. -/
theorem screen_of_not_screened {tokens : List Token} (h : ¬ ∀ t ∈ tokens, t.screened = true) :
    ∃ t post d, tokens = tokens.takeWhile Token.screened ++ t :: post ∧
      screen tokens = refuse d ∧ d.level = .syntactic ∧ d.token? = some t := by
  induction tokens with
  | nil => simp at h
  | cons t ts ih =>
    by_cases ht : t.screened = true
    · obtain ⟨u, post, d, hsplit, hscreen, hd⟩ := ih fun hts => h (by simpa [ht] using hts)
      refine ⟨u, post, d, ?_, ?_, hd⟩
      · rw [List.takeWhile_cons_of_pos ht, List.cons_append, ← hsplit]
      · rw [screen_cons_of_screened ht, hscreen]
    · obtain ⟨d, hscreen, hd⟩ := screenToken_of_not_screened (Bool.eq_false_iff.mpr ht)
      refine ⟨t, ts, d, by simp [ht], ?_, hd⟩
      simp only [screen, List.forM_eq_forM, List.forM_cons, hscreen]
      rfl

theorem parse_cons_of_screened {first : Token} {ts : List Token}
    (h : ∀ t ∈ first :: ts, t.screened = true) :
    parse (first :: ts) = ((first :: ts).foldlM (Draft.step first) {}).bind Draft.finish := by
  simp only [parse, screen_of_screened h]
  rfl

/-- All that a token can do to a reading. -/
inductive Reading.Moves : Reading → Token → Reading → Prop where
  | operand {n : Nat} {t : Token} : t.kind = .hexNumber ∨ t.kind = .identifier →
      admitOperand t = .ok () → Reading.Moves ⟨true, n⟩ t ⟨false, n⟩
  | opening {n : Nat} {t : Token} : t.kind = .bracketOpen →
      Reading.Moves ⟨true, n⟩ t ⟨true, n + 1⟩
  | operator {n : Nat} {t : Token} : t.kind = .operator → Reading.Moves ⟨false, n⟩ t ⟨true, n⟩
  | closing {n : Nat} {t : Token} : t.kind = .bracketClose →
      Reading.Moves ⟨false, n + 1⟩ t ⟨false, n⟩

theorem Reading.Moves.of_step {r r' : Reading} {t : Token} (h : r.step t = .ok r') :
    r.Moves t r' := by
  obtain ⟨due, n⟩ := r
  cases due with
  | true =>
    simp only [Reading.step, if_true] at h
    cases hk : t.kind <;> simp only [hk] at h
    case identifier | hexNumber =>
      cases ha : admitOperand t with
      | error f => simp [ha, bind, Except.bind] at h
      | ok u =>
        simp only [ha, bind, Except.bind, pure, Except.pure, Except.ok.injEq] at h
        exact h ▸ .operand (by simp [hk]) ha
    case bracketOpen =>
      simp only [Except.ok.injEq] at h
      exact h ▸ .opening hk
    all_goals simp [refuse] at h
  | false =>
    simp only [Reading.step, Bool.false_eq_true, if_false] at h
    cases hk : t.kind <;> simp only [hk] at h
    case operator =>
      simp only [Except.ok.injEq] at h
      exact h ▸ .operator hk
    case bracketClose =>
      cases n with
      | zero => simp [refuse] at h
      | succ n =>
        simp only [Nat.add_one_ne_zero, if_false, Nat.add_sub_cancel, Except.ok.injEq] at h
        exact h ▸ .closing hk
    all_goals simp [refuse] at h

theorem Reading.Moves.depth_eq {r r' : Reading} {t : Token} (h : r.Moves t r') :
    (r'.depth : Int) = r.depth + t.lift := by
  cases h with
  | operand hk _ =>
    rcases hk with hk | hk <;> simp [Token.lift, hk]
  | opening hk => simp [Token.lift, hk]
  | operator hk => simp [Token.lift, hk]
  | closing hk =>
    simp only [Token.lift_of_bracketClose hk]
    omega

/-- The depth of a reading counts the open brackets. -/
theorem depth_eq_openCount {tokens : List Token} {r : Reading}
    (h : tokens.foldlM Reading.step {} = .ok r) : (r.depth : Int) = openCount tokens := by
  refine foldlM_induct (P := fun ts r => (r.depth : Int) = openCount ts) rfl ?_ h
  intro ts mid t r' hm hs
  rw [(Reading.Moves.of_step hs).depth_eq, hm]
  simp

/-- All that a token can do to a draft. -/
inductive Draft.Moves : Draft → Token → Draft → Prop where
  | literal {openings : List Opening} {w : Waiting} {t : Token} : t.kind = .hexNumber →
      isLiteral t.text = true →
      Draft.Moves ⟨openings, w, none⟩ t ⟨openings, w, some (.number (literalValue t.text) t)⟩
  | name {openings : List Opening} {w : Waiting} {t : Token} : t.kind = .identifier →
      startsUppercase t.text = false →
      Draft.Moves ⟨openings, w, none⟩ t ⟨openings, w, some (.var t.text t)⟩
  | opening {openings : List Opening} {w : Waiting} {t : Token} : t.kind = .bracketOpen →
      openings.length < nestingLimit →
      Draft.Moves ⟨openings, w, none⟩ t ⟨⟨t, w⟩ :: openings, {}, none⟩
  | operator {openings : List Opening} {w : Waiting} {t : Token} {e : Expr} {o : BinaryOperator} :
      t.kind = .operator → BinaryOperator.ofText? t.text = some o →
      Draft.Moves ⟨openings, w, some e⟩ t ⟨openings, w.await o e t, none⟩
  | closing {openings : List Opening} {w outer : Waiting} {b t : Token} {e : Expr} :
      t.kind = .bracketClose →
      Draft.Moves ⟨⟨b, outer⟩ :: openings, w, some e⟩ t ⟨openings, outer, some (w.close e)⟩

theorem Draft.Moves.step_eq {first t : Token} {draft draft' : Draft} (h : draft.Moves t draft') :
    draft.step first t = .ok draft' := by
  cases h with
  | literal hk hl => simp [Draft.step, hk, admitOperand, hl, bind, Except.bind, pure, Except.pure]
  | name hk hu => simp [Draft.step, hk, admitOperand, hu, bind, Except.bind, pure, Except.pure]
  | opening hk hl => simp [Draft.step, hk, hl]
  | operator hk ho => simp [Draft.step, hk, ho]
  | closing hk => simp [Draft.step, hk]

theorem Draft.Moves.of_step {first t : Token} {draft draft' : Draft}
    (h : draft.step first t = .ok draft') : draft.Moves t draft' := by
  obtain ⟨openings, w, operand⟩ := draft
  cases operand with
  | none =>
    simp only [Draft.step] at h
    split at h
    · rename_i hk
      by_cases hl : isLiteral t.text = true
      · simp only [admitOperand, hk, hl, bind, Except.bind, pure, Except.pure, if_true,
          Except.ok.injEq] at h
        exact h ▸ .literal hk hl
      · simp [admitOperand, hk, hl, bind, Except.bind, refuse] at h
    · rename_i hk
      by_cases hu : startsUppercase t.text = true
      · simp [admitOperand, hk, hu, bind, Except.bind, refuse] at h
      · simp only [admitOperand, hk, hu, bind, Except.bind, pure, Except.pure, if_false,
          Bool.false_eq_true, Except.ok.injEq] at h
        exact h ▸ .name hk (Bool.eq_false_iff.mpr hu)
    · rename_i hk
      split at h
      · rename_i hl
        simp only [Except.ok.injEq] at h
        exact h ▸ .opening hk hl
      · simp [refuse] at h
    · simp [refuse] at h
  | some e =>
    simp only [Draft.step] at h
    split at h
    · rename_i hk
      split at h
      · rename_i o ho
        simp only [Except.ok.injEq] at h
        exact h ▸ .operator hk ho
      · simp at h
    · rename_i hk
      cases openings with
      | nil => simp [refuse] at h
      | cons b openings =>
        simp only [Except.ok.injEq] at h
        exact h ▸ .closing hk
    · simp [refuse] at h

/-- The brackets that a draft keeps open are those without a counterpart. -/
theorem Draft.Moves.unclosed {t : Token} {draft draft' : Draft} {ts : List Token}
    (h : draft.Moves t draft') (hu : Unclosed (draft.openings.map Opening.token) ts) :
    Unclosed (draft'.openings.map Opening.token) (ts ++ [t]) := by
  cases h with
  | literal hk _ => exact hu.plain (by simp [hk]) (by simp [hk])
  | name hk _ => exact hu.plain (by simp [hk]) (by simp [hk])
  | opening hk _ => exact hu.opening hk
  | operator hk _ => exact hu.plain (by simp [hk]) (by simp [hk])
  | closing hk => exact hu.closing hk

theorem unclosed_of_draft {first : Token} {tokens : List Token} {draft : Draft}
    (h : tokens.foldlM (Draft.step first) {} = .ok draft) :
    Unclosed (draft.openings.map Opening.token) tokens := by
  refine foldlM_induct (P := fun ts d => Unclosed (d.openings.map Opening.token) ts) ?_ ?_ h
  · exact Balanced.nil
  · intro ts mid t draft' hu hs
    exact (Draft.Moves.of_step hs).unclosed hu

end HexLang
