import HexLang.Proofs.Grammar
import HexLang.Proofs.Steps

/-! The parser accepts what the grammar derives, and builds the derived tree. A
draft stands for derivations: one for the left side of each operator that
waits, and one for the operand. -/

namespace HexLang

/-- The tokens taken in for an operator that waits on a tier. -/
def PendingReads (tier : Tier) (pending : Option Pending) (ts : List Token) : Prop :=
  match pending with
  | none => ts = []
  | some p => ∃ ls, ts = ls ++ [p.token] ∧ Derives tier ls p.left ∧ p.token.Spells p.operator ∧
      p.operator.tier = tier

def Waiting.Reads (w : Waiting) (ts : List Token) : Prop :=
  ∃ ss ps, ts = ss ++ ps ∧ PendingReads .sum w.sum ss ∧ PendingReads .product w.product ps

def OpeningsRead : List Opening → List Token → Prop
  | [], ts => ts = []
  | b :: openings, ts =>
    ∃ pre ws, ts = pre ++ (ws ++ [b.token]) ∧ b.token.kind = .bracketOpen ∧ b.outer.Reads ws ∧
      OpeningsRead openings pre

/-- The tokens that a draft was read from. -/
def Draft.Reads (draft : Draft) (ts : List Token) : Prop :=
  ∃ pre ws es, ts = pre ++ (ws ++ es) ∧ OpeningsRead draft.openings pre ∧ draft.waiting.Reads ws ∧
    match draft.operand with
    | none => es = []
    | some e => Derives .factor es e

theorem Waiting.reads_nil : Waiting.Reads {} [] :=
  ⟨[], [], rfl, rfl, rfl⟩

theorem PendingReads.complete_product {pending : Option Pending} {ps es : List Token} {e : Expr}
    (hp : PendingReads .product pending ps) (he : Derives .factor es e) :
    Derives .product (ps ++ es) (completeWith pending e) := by
  cases pending with
  | none =>
    obtain rfl : ps = [] := hp
    exact .factor he
  | some p =>
    obtain ⟨ls, rfl, hl, ht, ho⟩ := hp
    simpa [completeWith] using Derives.scale hl ht ho he

theorem PendingReads.complete_sum {pending : Option Pending} {ss es : List Token} {e : Expr}
    (hp : PendingReads .sum pending ss) (he : Derives .product es e) :
    Derives .sum (ss ++ es) (completeWith pending e) := by
  cases pending with
  | none =>
    obtain rfl : ss = [] := hp
    exact .product he
  | some p =>
    obtain ⟨ls, rfl, hl, ht, ho⟩ := hp
    simpa [completeWith] using Derives.add hl ht ho he

theorem Waiting.Reads.close {w : Waiting} {ws es : List Token} {e : Expr} (hw : w.Reads ws)
    (he : Derives .factor es e) : Derives .sum (ws ++ es) (w.close e) := by
  obtain ⟨ss, ps, rfl, hs, hp⟩ := hw
  rw [List.append_assoc]
  exact hs.complete_sum (hp.complete_product he)

theorem Waiting.Reads.await {w : Waiting} {ws es : List Token} {e : Expr} {t : Token}
    {o : BinaryOperator} (hw : w.Reads ws) (he : Derives .factor es e) (ht : t.Spells o) :
    (w.await o e t).Reads (ws ++ (es ++ [t])) := by
  have hsum : o.tier = .sum → Waiting.Reads { sum := some ⟨o, w.close e, t⟩ } (ws ++ (es ++ [t])) :=
    fun ho => ⟨ws ++ (es ++ [t]), [], by simp, ⟨ws ++ es, by simp, hw.close he, ht, ho⟩, rfl⟩
  have hproduct : o.tier = .product →
      Waiting.Reads { w with product := some ⟨o, w.closeProduct e, t⟩ } (ws ++ (es ++ [t])) := by
    intro ho
    obtain ⟨ss, ps, rfl, hs, hp⟩ := hw
    exact ⟨ss, ps ++ (es ++ [t]), by simp, hs, ps ++ es, by simp, hp.complete_product he, ht, ho⟩
  cases o with
  | add => exact hsum rfl
  | sub => exact hsum rfl
  | mul => exact hproduct rfl
  | div => exact hproduct rfl

theorem Draft.Moves.reads {draft draft' : Draft} {t : Token} {ts : List Token}
    (h : draft.Moves t draft') (hr : draft.Reads ts) : draft'.Reads (ts ++ [t]) := by
  obtain ⟨pre, ws, es, rfl, ho, hw, he⟩ := hr
  cases h with
  | literal hk hl =>
    obtain rfl : es = [] := he
    refine ⟨pre, ws, [t], by simp, ho, hw, ?_⟩
    simpa only [literalValue_eq_ofDigits] using Derives.literal hk hl
  | name hk hu =>
    obtain rfl : es = [] := he
    exact ⟨pre, ws, [t], by simp, ho, hw, Derives.name hk hu⟩
  | opening hk _ =>
    obtain rfl : es = [] := he
    exact ⟨pre ++ (ws ++ [t]), [], [], by simp, ⟨pre, ws, rfl, hk, hw, ho⟩, Waiting.reads_nil, rfl⟩
  | operator hk hop =>
    exact ⟨pre, ws ++ (es ++ [t]), [], by simp, ho, hw.await he (spells_of_ofText? hk hop), rfl⟩
  | closing hk =>
    obtain ⟨pre', ws', rfl, hb, hw', ho'⟩ := ho
    exact ⟨pre', ws', _ :: ((ws ++ es) ++ [t]), by simp, ho', hw',
      Derives.group hb hk (hw.close he)⟩

theorem Draft.reads_of_foldlM {first : Token} {tokens : List Token} {draft : Draft}
    (h : tokens.foldlM (Draft.step first) {} = .ok draft) : draft.Reads tokens := by
  refine foldlM_induct (P := fun ts d => d.Reads ts) ?_ ?_ h
  · exact ⟨[], [], [], rfl, rfl, Waiting.reads_nil, rfl⟩
  · intro ts mid t draft' hr hs
    exact (Draft.Moves.of_step hs).reads hr

theorem derives_of_finish {draft : Draft} {tokens : List Token} {e : Expr} (hr : draft.Reads tokens)
    (h : draft.finish = .ok e) : Derives .sum tokens e := by
  obtain ⟨openings, w, operand⟩ := draft
  obtain ⟨pre, ws, es, rfl, ho, hw, he⟩ := hr
  cases operand with
  | none => cases openings <;> simp [Draft.finish, refuse] at h
  | some r =>
    cases openings with
    | cons b openings => simp [Draft.finish, refuse] at h
    | nil =>
      obtain rfl : pre = [] := ho
      obtain rfl : w.close r = e := by simpa [Draft.finish] using h
      exact hw.close he

theorem derives_of_parse {tokens : List Token} {e : Expr} (h : parse tokens = .ok e) :
    Derives .sum tokens e := by
  cases hscreen : screen tokens with
  | error f => simp [parse, hscreen, bind, Except.bind] at h
  | ok u =>
    cases tokens with
    | nil => simp [parse, hscreen, bind, Except.bind, refuse] at h
    | cons first ts =>
      simp only [parse, hscreen, bind, Except.bind] at h
      cases hfold : (first :: ts).foldlM (Draft.step first) {} with
      | error f => simp [hfold] at h
      | ok draft =>
        simp only [hfold] at h
        exact derives_of_finish (Draft.reads_of_foldlM hfold) h

/-- What may wait where an expression of a tier begins. -/
def Waiting.Fresh (w : Waiting) : Tier → Prop
  | .sum => w = {}
  | .product => w.product = none
  | .factor => True

/-- An expression of a tier that began with `w` has come to the operand `r`, with `w'` waiting
for it. -/
def Completes (w w' : Waiting) (r e : Expr) : Tier → Prop
  | .sum => w'.close r = e
  | .product => w'.sum = w.sum ∧ w'.closeProduct r = e
  | .factor => w' = w ∧ r = e

theorem NestsWithin.operands {limit : Int} {ls rs : List Token} {t : Token} {o : BinaryOperator}
    {tier : Tier} {l : Expr} (hn : NestsWithin limit (ls ++ t :: rs)) (hl : Derives tier ls l)
    (ht : t.Spells o) : NestsWithin limit ls ∧ NestsWithin limit rs := by
  refine ⟨hn.of_append_left, ?_⟩
  have hr : NestsWithin (limit - openCount ls) ([t] ++ rs) := hn.of_append_right
  simpa [hl.openCount_eq, ht.lift_eq] using hr.of_append_right

theorem foldlM_operator {first t : Token} {ls : List Token} {draft : Draft}
    {openings : List Opening} {w : Waiting} {l : Expr} {o : BinaryOperator}
    (hl : ls.foldlM (Draft.step first) draft = .ok ⟨openings, w, some l⟩) (ht : t.Spells o)
    (rs : List Token) :
    (ls ++ t :: rs).foldlM (Draft.step first) draft =
      rs.foldlM (Draft.step first) ⟨openings, w.await o l t, none⟩ := by
  rw [foldlM_append_of_ok hl, List.foldlM_cons,
    (Draft.Moves.operator ht.1 ht.ofText?_eq).step_eq]
  rfl

/-- A draft that awaits an operand takes in the tokens of a whole expression. -/
theorem foldlM_of_derives {tier : Tier} {ts : List Token} {e : Expr} (h : Derives tier ts e)
    (first : Token) (openings : List Opening) (w : Waiting) (hw : w.Fresh tier)
    (hn : NestsWithin (nestingLimit - openings.length) ts) :
    ∃ w' r, ts.foldlM (Draft.step first) ⟨openings, w, none⟩ = .ok ⟨openings, w', some r⟩ ∧
      Completes w w' r e tier := by
  -- what already waits stays, so that the left side of a chain can be taken in first
  induction h generalizing openings w with
  | literal hk hl =>
    refine ⟨w, _, ?_, rfl, rfl⟩
    rw [← literalValue_eq_ofDigits, List.foldlM_cons, (Draft.Moves.literal hk hl).step_eq]
    rfl
  | name hk hu =>
    refine ⟨w, _, ?_, rfl, rfl⟩
    rw [List.foldlM_cons, (Draft.Moves.name hk hu).step_eq]
    rfl
  | @group o c ts e ho hc _ ih =>
    have hopen : NestsWithin (nestingLimit - openings.length) ([o] ++ (ts ++ [c])) := hn
    have hl : openings.length < nestingLimit := by
      have := hopen.of_append_left.openCount_le
      simp only [openCount_cons, openCount_nil, Token.lift_of_bracketOpen ho] at this
      omega
    have hin : NestsWithin (nestingLimit - (⟨o, w⟩ :: openings : List Opening).length) ts := by
      have hh := hopen.of_append_right.of_append_left
      simpa [Token.lift_of_bracketOpen ho, Int.sub_sub] using hh
    obtain ⟨w', r, hfold, hr⟩ := ih (⟨o, w⟩ :: openings) {} rfl hin
    refine ⟨w, e, ?_, rfl, rfl⟩
    obtain rfl : w'.close r = e := hr
    rw [List.foldlM_cons, (Draft.Moves.opening ho hl).step_eq]
    exact (foldlM_concat_of_ok hfold c).trans (Draft.Moves.closing hc).step_eq
  | factor _ ih =>
    obtain ⟨w', r, hfold, rfl, rfl⟩ := ih openings w trivial hn
    have hp : w'.product = none := hw
    exact ⟨w', r, hfold, rfl, by simp [Waiting.closeProduct, completeWith, hp]⟩
  | product _ ih =>
    obtain rfl : w = {} := hw
    obtain ⟨w', r, hfold, hs, hr⟩ := ih openings {} rfl hn
    exact ⟨w', r, hfold, by simp [Completes, Waiting.close, completeWith, hs, hr]⟩
  | @scale ls rs t l r o hl ht ho _ ihl ihr =>
    obtain ⟨hnl, hnr⟩ := hn.operands hl ht
    obtain ⟨w₁, l', hfold, hs, rfl⟩ := ihl openings w hw hnl
    have hawait : w₁.await o l' t = { w₁ with product := some ⟨o, w₁.closeProduct l', t⟩ } := by
      cases o <;> first | rfl | cases ho
    obtain ⟨w₂, r', hfold', rfl, rfl⟩ := ihr openings (w₁.await o l' t) trivial hnr
    refine ⟨_, r', (foldlM_operator hfold ht rs).trans hfold', ?_, ?_⟩
    · rw [hawait, hs]
    · rw [hawait]
      rfl
  | @add ls rs t l r o hl ht ho _ ihl ihr =>
    obtain ⟨hnl, hnr⟩ := hn.operands hl ht
    obtain ⟨w₁, l', hfold, hl'⟩ := ihl openings w hw hnl
    obtain rfl : w₁.close l' = l := hl'
    have hawait : w₁.await o l' t = { sum := some ⟨o, w₁.close l', t⟩ } := by
      cases o <;> first | rfl | cases ho
    obtain ⟨w₂, r', hfold', hs, rfl⟩ := ihr openings (w₁.await o l' t) (by rw [hawait]; rfl) hnr
    refine ⟨w₂, r', (foldlM_operator hfold ht rs).trans hfold', ?_⟩
    simp [Completes, Waiting.close, hs, hawait, completeWith]

theorem Token.Spells.screened {t : Token} {o : BinaryOperator} (h : t.Spells o) :
    t.screened = true := by
  simp [Token.screened, h.1]

theorem Derives.screened {tier : Tier} {ts : List Token} {e : Expr} (h : Derives tier ts e) :
    ∀ t ∈ ts, t.screened = true := by
  induction h with
  | literal hk _ => simp [Token.screened, hk]
  | name hk _ => simp [Token.screened, hk]
  | group ho hc _ ih =>
    exact List.forall_mem_cons.mpr ⟨by simp [Token.screened, ho],
      List.forall_mem_append.mpr ⟨ih, by simp [Token.screened, hc]⟩⟩
  | factor _ ih => exact ih
  | product _ ih => exact ih
  | scale _ ht _ _ ihl ihr =>
    exact List.forall_mem_append.mpr ⟨ihl, List.forall_mem_cons.mpr ⟨ht.screened, ihr⟩⟩
  | add _ ht _ _ ihl ihr =>
    exact List.forall_mem_append.mpr ⟨ihl, List.forall_mem_cons.mpr ⟨ht.screened, ihr⟩⟩

theorem Derives.ne_nil {tier : Tier} {ts : List Token} {e : Expr} (h : Derives tier ts e) :
    ts ≠ [] := by
  induction h with
  | factor _ ih => exact ih
  | product _ ih => exact ih
  | _ => simp

theorem parse_of_derives {tokens : List Token} {e : Expr} (h : Derives .sum tokens e)
    (hn : NestsWithin nestingLimit tokens) : parse tokens = .ok e := by
  cases tokens with
  | nil => exact absurd rfl h.ne_nil
  | cons first ts =>
    obtain ⟨w', r, hfold, hr⟩ := foldlM_of_derives h first [] {} rfl (by simpa using hn)
    obtain rfl : w'.close r = e := hr
    rw [parse_cons_of_screened h.screened]
    exact congrArg (Except.bind · Draft.finish) hfold

/-- The parser returns the one tree that the grammar derives, with every token but the brackets
in its place, as long as the brackets nest within the limit. -/
theorem parse_iff_derives (tokens : List Token) (hn : NestsWithin nestingLimit tokens) :
    (∀ e, parse tokens = .ok e ↔ Derives .sum tokens e) ∧
    (∀ e e', Derives .sum tokens e → Derives .sum tokens e' → e = e') ∧
    (∀ e, parse tokens = .ok e → e.inOrder = tokens.filter fun t => !t.isBracket) := by
  refine ⟨fun e => ⟨derives_of_parse, fun h => parse_of_derives h hn⟩, fun e e' h h' => ?_,
    fun e h => (derives_of_parse h).inOrder_eq⟩
  have he : Except.ok e = (Except.ok e' : Except Fault Expr) :=
    (parse_of_derives h hn).symm.trans (parse_of_derives h' hn)
  simpa using he

theorem parse_iff_derives_nested :
    let a : Token := ⟨.hexNumber, "1f".toList, 0⟩
    let minus : Token := ⟨.operator, ['-'], 3⟩
    let b : Token := ⟨.identifier, ['x'], 5⟩
    let o : Token := ⟨.bracketOpen, ['('], 9⟩
    let c : Token := ⟨.bracketClose, [')'], 15⟩
    let times : Token := ⟨.operator, ['*'], 12⟩
    let tokens := [a, minus, b, minus, o, b, times, a, c]
    NestsWithin nestingLimit tokens ∧
      Derives .sum tokens (.binary .sub (.binary .sub (.number 31 a) (.var ['x'] b) minus)
        (.binary .mul (.var ['x'] b) (.number 31 a) times) minus) := by
  intro a minus b o c times tokens
  have hn : NestsWithin nestingLimit tokens := by decide
  exact ⟨hn, ((parse_iff_derives tokens hn).1 _).mp (by decide)⟩

end HexLang
