import HexLang.Lexeme
import HexLang.Proofs.Evaluation

/-! Where the tokens stand makes no difference to what they say. Tokens moved
to other offsets are read and valued in the same way, and what is wrong with
them is wrong with the moved tokens. -/

namespace HexLang

def Token.move (f : Int → Int) (t : Token) : Token :=
  { t with offset := f t.offset }

namespace Diagnostic

def move (f : Int → Int) : Diagnostic → Diagnostic
  | unknownToken t => unknownToken (t.move f)
  | commentInside t => commentInside (t.move f)
  | badLiteral t => badLiteral (t.move f)
  | uppercaseName t => uppercaseName (t.move f)
  | unexpectedToken t => unexpectedToken (t.move f)
  | missingOpening t => missingOpening (t.move f)
  | missingClosing opening => missingClosing (opening.map (Token.move f))
  | incomplete => incomplete
  | tooDeep first => tooDeep (first.move f)
  | badTarget marker target => badTarget marker target
  | uppercaseTarget target => uppercaseTarget target
  | undefinedVariable name t => undefinedVariable name (t.move f)
  | divisionByZero t => divisionByZero (t.move f)

@[simp] theorem move_level (f : Int → Int) (d : Diagnostic) : (d.move f).level = d.level := by
  cases d <;> rfl

@[simp] theorem move_message (f : Int → Int) (d : Diagnostic) : (d.move f).message = d.message := by
  cases d <;> rfl

@[simp] theorem move_token? (f : Int → Int) (d : Diagnostic) :
    (d.move f).token? = d.token?.map (Token.move f) := by
  cases d <;> rfl

end Diagnostic

def Fault.move (f : Int → Int) : Fault → Fault
  | .diagnostic d => .diagnostic (d.move f)
  | fault => fault

def Expr.move (f : Int → Int) : Expr → Expr
  | .number v t => .number v (t.move f)
  | .var name t => .var name (t.move f)
  | .binary o l r t => .binary o (l.move f) (r.move f) (t.move f)
  | .stray text => .stray text

def Pending.move (f : Int → Int) (p : Pending) : Pending :=
  ⟨p.operator, p.left.move f, p.token.move f⟩

def Waiting.move (f : Int → Int) (w : Waiting) : Waiting :=
  ⟨w.sum.map (Pending.move f), w.product.map (Pending.move f)⟩

def Opening.move (f : Int → Int) (b : Opening) : Opening :=
  ⟨b.token.move f, b.outer.move f⟩

def Draft.move (f : Int → Int) (draft : Draft) : Draft :=
  ⟨draft.openings.map (Opening.move f), draft.waiting.move f, draft.operand.map (Expr.move f)⟩

/-- A result whose parts are changed by `g`, and a fault whose token is moved. -/
def moved {α β : Type} (f : Int → Int) (g : α → β) : Except Fault α → Except Fault β
  | .ok a => .ok (g a)
  | .error e => .error (e.move f)

section Moved

variable {f : Int → Int} {α β γ δ σ τ : Type}

@[simp] theorem moved_refuse (g : α → β) (d : Diagnostic) :
    moved f g (refuse d) = refuse (d.move f) := rfl

@[simp] theorem moved_ok (g : α → β) (a : α) : moved f g (.ok a) = .ok (g a) := rfl

theorem moved_bind {g : α → β} {h : γ → δ} {x : Except Fault α} {k : α → Except Fault γ}
    {k' : β → Except Fault δ} (hk : ∀ a, moved f h (k a) = k' (g a)) :
    moved f h (x >>= k) = moved f g x >>= k' := by
  cases x with
  | error e => rfl
  | ok a => exact hk a

/-- A fold over moved items commutes with moving, if each of its steps does. -/
theorem moved_foldlM {m : α → β} {g : σ → τ} {step : σ → α → Except Fault σ}
    {step' : τ → β → Except Fault τ} (hstep : ∀ s a, step' (g s) (m a) = moved f g (step s a))
    (l : List α) (s : σ) : (l.map m).foldlM step' (g s) = moved f g (l.foldlM step s) := by
  induction l generalizing s with
  | nil => rfl
  | cons a l ih =>
    rw [List.map_cons, List.foldlM_cons, List.foldlM_cons, hstep]
    exact (moved_bind fun mid => (ih mid).symm).symm

end Moved

section Parser

variable (f : Int → Int)

@[simp] theorem Token.move_kind (t : Token) : (t.move f).kind = t.kind := rfl

@[simp] theorem Token.move_text (t : Token) : (t.move f).text = t.text := rfl

theorem screenToken_move (t : Token) : screenToken (t.move f) = moved f id (screenToken t) := by
  obtain ⟨kind, text, offset⟩ := t
  cases kind <;> rfl

theorem screen_move (tokens : List Token) :
    screen (tokens.map (Token.move f)) = moved f id (screen tokens) := by
  induction tokens with
  | nil => rfl
  | cons t ts ih =>
    simp only [screen, List.forM_eq_forM, List.map_cons, List.forM_cons, screenToken_move] at ih ⊢
    exact (moved_bind (g := id) fun _ => ih.symm).symm

theorem admitOperand_move (t : Token) : admitOperand (t.move f) = moved f id (admitOperand t) := by
  obtain ⟨kind, text, offset⟩ := t
  cases kind with
  | hexNumber =>
    by_cases h : isLiteral text = true <;>
      simp [admitOperand, Token.move, Diagnostic.move, h]
  | identifier =>
    by_cases h : startsUppercase text = true <;>
      simp [admitOperand, Token.move, Diagnostic.move, h]
  | _ => rfl

theorem completeWith_move (pending : Option Pending) (e : Expr) :
    completeWith (pending.map (Pending.move f)) (e.move f) = (completeWith pending e).move f := by
  cases pending <;> rfl

theorem Waiting.close_move (w : Waiting) (e : Expr) :
    (w.move f).close (e.move f) = (w.close e).move f := by
  simp only [Waiting.close, Waiting.closeProduct, Waiting.move, completeWith_move]

theorem Waiting.await_move (w : Waiting) (o : BinaryOperator) (e : Expr) (t : Token) :
    (w.move f).await o (e.move f) (t.move f) = (w.await o e t).move f := by
  cases o <;>
    simp [Waiting.await, Waiting.closeProduct, ← Waiting.close_move, Waiting.move, Pending.move,
      ← completeWith_move]

theorem Draft.step_move (first : Token) (draft : Draft) (t : Token) :
    (draft.move f).step (first.move f) (t.move f) = moved f (Draft.move f) (draft.step first t) := by
  obtain ⟨openings, w, operand⟩ := draft
  cases operand with
  | none =>
    simp only [Draft.step, Draft.move, Token.move_kind, Option.map_none]
    cases hk : t.kind <;> simp only
    case hexNumber | identifier =>
      rw [admitOperand_move]
      cases admitOperand t <;> rfl
    case bracketOpen =>
      simp only [List.length_map]
      split <;> rfl
    all_goals rfl
  | some e =>
    simp only [Draft.step, Draft.move, Token.move_kind, Option.map_some]
    cases hk : t.kind <;> simp only
    case operator =>
      rw [Token.move_text]
      cases BinaryOperator.ofText? t.text with
      | none => rfl
      | some o => simp [Draft.move, Waiting.await_move]
    case bracketClose =>
      cases openings with
      | nil => rfl
      | cons b openings => simp [Draft.move, Opening.move, Waiting.close_move]
    all_goals rfl

theorem Draft.finish_move (draft : Draft) :
    (draft.move f).finish = moved f (Expr.move f) draft.finish := by
  obtain ⟨openings, w, operand⟩ := draft
  cases operand <;> cases openings <;> simp [Draft.finish, Draft.move, Waiting.close_move] <;> rfl

theorem parse_move (tokens : List Token) :
    parse (tokens.map (Token.move f)) = moved f (Expr.move f) (parse tokens) := by
  unfold parse
  rw [screen_move]
  refine (moved_bind (g := id) fun _ => ?_).symm
  cases tokens with
  | nil => rfl
  | cons first ts =>
    have hfold : ((first :: ts).map (Token.move f)).foldlM (Draft.step (first.move f)) {} =
        moved f (Draft.move f) ((first :: ts).foldlM (Draft.step first) {}) :=
      moved_foldlM (g := Draft.move f) (Draft.step_move f first) (first :: ts) {}
    rw [List.map_cons] at hfold ⊢
    simp only [hfold]
    exact moved_bind fun draft => (Draft.finish_move f draft).symm

end Parser

section Evaluator

variable (f : Int → Int) (table : Table)

theorem BinaryOperator.apply_move (o : BinaryOperator) (t : Token) (a b : Int) :
    o.apply (t.move f) a b = moved f id (o.apply t a b) := by
  cases o with
  | div =>
    simp only [BinaryOperator.apply]
    split <;> rfl
  | _ => rfl

theorem Expr.value_move (e : Expr) : (e.move f).value table = moved f id (e.value table) := by
  induction e with
  | number v t => rfl
  | stray text => rfl
  | var name t =>
    simp only [Expr.move, Expr.value, Table.find]
    cases table.get? name <;> rfl
  | binary o l r t ihl ihr =>
    simp only [Expr.move, Expr.value, ihl, ihr]
    refine (moved_bind fun a => ?_).symm
    exact moved_bind fun b => (BinaryOperator.apply_move f o t a b).symm

/-- Moved tokens have the value of the tokens, or the same thing is wrong with them. -/
theorem evaluate_move (tokens : List Token) :
    evaluate table (tokens.map (Token.move f)) = moved f id (evaluate table tokens) := by
  rw [evaluate, parse_move]
  refine (moved_bind fun e => ?_).symm
  rw [evaluateExpr_eq_value, evaluateExpr_eq_value, Expr.value_move]

end Evaluator

/-- A text that stands further on has the same tokens further on. -/
theorem lex_add (marker : Text) (base n : Int) (text : Text) :
    lex marker (base + n) text = (lex marker base text).map (Token.move (· + n)) := by
  induction hlen : text.length using Nat.strong_induction_on generalizing base text with
  | _ m ih =>
    subst hlen
    cases text with
    | nil => simp
    | cons c rest =>
      by_cases hc : isGap c = true
      · rw [lex_gap hc, lex_gap hc, ← ih rest.length (Nat.lt_succ_self _) (base + 1) rest rfl,
          Int.add_right_comm]
      · rw [Bool.not_eq_true] at hc
        rw [lex_token hc, lex_token hc, List.map_cons]
        generalize (lexeme marker c rest).2 = k
        have hlt : (rest.drop k).length < (c :: rest).length := by
          simp only [List.length_drop, List.length_cons]
          omega
        have hbase : base + n + 1 + (k : Int) = base + 1 + k + n := by omega
        rw [← ih _ hlt (base + 1 + k) (rest.drop k) rfl, hbase]
        rfl

end HexLang
