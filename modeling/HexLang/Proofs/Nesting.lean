import HexLang.Token
import Mathlib.Data.List.Infix

/-! Brackets in a row of tokens: how many are open behind it, how deep they
nest, and which of them still wait for their counterpart. -/

namespace HexLang

/-- What a token adds to the number of open brackets. -/
def Token.lift (t : Token) : Int :=
  match t.kind with
  | .bracketOpen => 1
  | .bracketClose => -1
  | _ => 0

def openCount : List Token → Int
  | [] => 0
  | t :: ts => t.lift + openCount ts

/-- At no place within the tokens more than `limit` brackets are open. -/
def NestsWithin (limit : Int) (tokens : List Token) : Prop :=
  ∀ pre, pre <+: tokens → openCount pre ≤ limit

@[simp] theorem openCount_nil : openCount [] = 0 := rfl

@[simp] theorem openCount_cons (t : Token) (ts : List Token) :
    openCount (t :: ts) = t.lift + openCount ts := rfl

@[simp] theorem openCount_append (ts us : List Token) :
    openCount (ts ++ us) = openCount ts + openCount us := by
  induction ts with
  | nil => simp
  | cons t ts ih =>
    simp only [List.cons_append, openCount_cons, ih]
    omega

theorem Token.lift_of_bracketOpen {t : Token} (h : t.kind = .bracketOpen) : t.lift = 1 := by
  simp [Token.lift, h]

theorem Token.lift_of_bracketClose {t : Token} (h : t.kind = .bracketClose) : t.lift = -1 := by
  simp [Token.lift, h]

theorem Token.lift_of_plain {t : Token} (ho : t.kind ≠ .bracketOpen)
    (hc : t.kind ≠ .bracketClose) : t.lift = 0 := by
  unfold Token.lift
  split
  · rename_i h
    exact absurd h ho
  · rename_i h
    exact absurd h hc
  · rfl

instance (limit : Int) (tokens : List Token) : Decidable (NestsWithin limit tokens) :=
  decidable_of_iff (∀ pre ∈ tokens.inits, openCount pre ≤ limit) (by
    simp only [NestsWithin, List.mem_inits])

theorem NestsWithin.openCount_le {limit : Int} {ts : List Token} (h : NestsWithin limit ts) :
    openCount ts ≤ limit :=
  h ts (List.prefix_refl ts)

theorem NestsWithin.of_prefix {limit : Int} {ts us : List Token} (h : NestsWithin limit us)
    (hp : ts <+: us) : NestsWithin limit ts :=
  fun pre hpre => h pre (hpre.trans hp)

theorem NestsWithin.of_append_left {limit : Int} {ts us : List Token}
    (h : NestsWithin limit (ts ++ us)) : NestsWithin limit ts :=
  h.of_prefix (List.prefix_append ts us)

theorem NestsWithin.of_append_right {limit : Int} {ts us : List Token}
    (h : NestsWithin limit (ts ++ us)) : NestsWithin (limit - openCount ts) us := by
  intro pre hp
  have hh := h (ts ++ pre) ((List.prefix_append_right_inj ts).mpr hp)
  rw [openCount_append] at hh
  omega

theorem nestsWithin_nil {limit : Int} (h : 0 ≤ limit) : NestsWithin limit [] := by
  intro pre hp
  rw [List.prefix_nil.mp hp]
  exact h

theorem openCount_nonpos {ts : List Token} (h : ∀ t ∈ ts, t.lift ≤ 0) : openCount ts ≤ 0 := by
  induction ts with
  | nil => exact Int.le_refl 0
  | cons t ts ih =>
    obtain ⟨ht, hts⟩ := List.forall_mem_cons.mp h
    exact Int.add_nonpos ht (ih hts)

theorem nestsWithin_of_forall {limit : Int} {ts : List Token} (hl : 0 ≤ limit)
    (h : ∀ t ∈ ts, t.lift ≤ 0) : NestsWithin limit ts :=
  fun _ hp => Int.le_trans (openCount_nonpos fun t ht => h t (hp.subset ht)) hl

theorem nestsWithin_concat_iff {limit : Int} {ts : List Token} {t : Token} :
    NestsWithin limit (ts ++ [t]) ↔ NestsWithin limit ts ∧ openCount (ts ++ [t]) ≤ limit := by
  constructor
  · exact fun h => ⟨h.of_append_left, h.openCount_le⟩
  · rintro ⟨h, hl⟩ pre hp
    rcases List.prefix_concat_iff.mp hp with rfl | hp
    · exact hl
    · exact h pre hp

/-- Every bracket has its counterpart. -/
inductive Balanced : List Token → Prop where
  | nil : Balanced []
  | plain {ts : List Token} {t : Token} : Balanced ts → t.kind ≠ .bracketOpen →
      t.kind ≠ .bracketClose → Balanced (ts ++ [t])
  | group {ts inner : List Token} {o c : Token} : Balanced ts → o.kind = .bracketOpen →
      Balanced inner → c.kind = .bracketClose → Balanced (ts ++ o :: (inner ++ [c]))

/-- The brackets without a counterpart are those in `opened`, the innermost first. -/
def Unclosed : List Token → List Token → Prop
  | [], tokens => Balanced tokens
  | o :: outer, tokens =>
    ∃ pre inner, tokens = pre ++ o :: inner ∧ o.kind = .bracketOpen ∧ Balanced inner ∧
      Unclosed outer pre

theorem Unclosed.plain {opened ts : List Token} {t : Token} (h : Unclosed opened ts)
    (ho : t.kind ≠ .bracketOpen) (hc : t.kind ≠ .bracketClose) : Unclosed opened (ts ++ [t]) := by
  cases opened with
  | nil => exact Balanced.plain h ho hc
  | cons o outer =>
    obtain ⟨pre, inner, rfl, hk, hi, hp⟩ := h
    exact ⟨pre, inner ++ [t], by simp, hk, hi.plain ho hc, hp⟩

theorem Unclosed.opening {opened ts : List Token} {t : Token} (h : Unclosed opened ts)
    (ht : t.kind = .bracketOpen) : Unclosed (t :: opened) (ts ++ [t]) :=
  ⟨ts, [], rfl, ht, .nil, h⟩

theorem Unclosed.closing {opened ts : List Token} {o t : Token} (h : Unclosed (o :: opened) ts)
    (ht : t.kind = .bracketClose) : Unclosed opened (ts ++ [t]) := by
  obtain ⟨pre, inner, rfl, ho, hi, hp⟩ := h
  cases opened with
  | nil =>
    have hb : Balanced (pre ++ o :: (inner ++ [t])) := Balanced.group hp ho hi ht
    simpa [Unclosed] using hb
  | cons o' outer =>
    obtain ⟨pre', inner', rfl, ho', hi', hp'⟩ := hp
    exact ⟨pre', inner' ++ o :: (inner ++ [t]), by simp, ho', hi'.group ho hi ht, hp'⟩

end HexLang
