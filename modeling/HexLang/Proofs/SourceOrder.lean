import HexLang.Proofs.Evaluation
import HexLang.Proofs.Parsing

/-! An expression fails in the order of its tokens. Brackets and precedence
only group the operands: their names are looked up from left to right, and an
operator is applied when every name before it has a value. -/

namespace HexLang

/-- A name that the table does not bind. -/
def Token.Unbound (table : Table) (t : Token) : Prop :=
  t.kind = .identifier ∧ table.get? t.text = none

def Bound (table : Table) (tokens : List Token) : Prop :=
  ∀ t ∈ tokens, ¬ t.Unbound table

instance (table : Table) (t : Token) : Decidable (t.Unbound table) :=
  inferInstanceAs (Decidable (_ ∧ _))

instance (table : Table) (tokens : List Token) : Decidable (Bound table tokens) :=
  inferInstanceAs (Decidable (∀ t ∈ tokens, ¬ t.Unbound table))

/-- Every name before the token has a value. -/
def Reached (table : Table) (tokens : List Token) (t : Token) : Prop :=
  ∃ pre post, tokens = pre ++ t :: post ∧ Bound table pre

/-- The ways in which the evaluation of the tokens can end. -/
inductive Ends (table : Table) (tokens : List Token) : Except Fault Int → Prop where
  | value {v : Int} : Bound table tokens → Ends table tokens (.ok v)
  | unbound {t : Token} : t.Unbound table → Reached table tokens t →
      Ends table tokens (.error (.diagnostic (.undefinedVariable t.text t)))
  | zeroDivisor {t : Token} : t.Spells .div → Reached table tokens t →
      Ends table tokens (.error (.diagnostic (.divisionByZero t)))

section Bound

variable {table : Table} {ts us : List Token} {t : Token}

theorem Bound.append (h : Bound table ts) (h' : Bound table us) : Bound table (ts ++ us) :=
  List.forall_mem_append.mpr ⟨h, h'⟩

theorem Bound.cons (ht : t.kind ≠ .identifier) (h : Bound table ts) : Bound table (t :: ts) :=
  List.forall_mem_cons.mpr ⟨fun hu => ht hu.1, h⟩

theorem bound_singleton (ht : t.kind ≠ .identifier) : Bound table [t] :=
  .cons ht fun _ hu => nomatch hu

theorem Reached.append_right (h : Reached table ts t) (us : List Token) :
    Reached table (ts ++ us) t := by
  obtain ⟨pre, post, rfl, hpre⟩ := h
  exact ⟨pre, post ++ us, by simp, hpre⟩

theorem Reached.append_left (h : Reached table us t) (hts : Bound table ts) :
    Reached table (ts ++ us) t := by
  obtain ⟨pre, post, rfl, hpre⟩ := h
  exact ⟨ts ++ pre, post, by simp, hts.append hpre⟩

theorem Reached.mem (h : Reached table ts t) : t ∈ ts := by
  obtain ⟨pre, post, rfl, -⟩ := h
  simp

/-- No token behind a name without a value is reached. -/
theorem Reached.exists_index {k : Nat} {u : Token} (h : Reached table ts t) (hk : ts[k]? = some u)
    (hu : u.Unbound table) : ∃ j ≤ k, ts[j]? = some t := by
  obtain ⟨pre, post, rfl, hpre⟩ := h
  refine ⟨pre.length, ?_, by simp⟩
  by_contra hlt
  rw [List.getElem?_append_left (by omega)] at hk
  exact hpre u (List.mem_of_getElem? hk) hu

end Bound

section Evaluation

variable {table : Table} {ts ls rs : List Token} {t : Token} {result : Except Fault Int}

theorem Ends.between {pre post : List Token} (h : Ends table ts result) (hpre : Bound table pre)
    (hpost : Bound table post) : Ends table (pre ++ (ts ++ post)) result := by
  cases h with
  | value hts => exact .value (hpre.append (hts.append hpost))
  | unbound ht hr => exact .unbound ht ((hr.append_right post).append_left hpre)
  | zeroDivisor ht hr => exact .zeroDivisor ht ((hr.append_right post).append_left hpre)

theorem Ends.apply {o : BinaryOperator} (ht : t.Spells o) (hls : Bound table ls)
    (hrs : Bound table rs) (a b : Int) : Ends table (ls ++ t :: rs) (o.apply t a b) := by
  by_cases hb : o = .div → b ≠ 0
  · rw [apply_of_divisor hb]
    exact .value (hls.append (.cons (by simp [ht.1]) hrs))
  · obtain ⟨rfl, hzero⟩ := Classical.not_imp.mp hb
    obtain rfl := not_not.mp hzero
    exact .zeroDivisor ht ⟨ls, rs, rfl, hls⟩

/-- The right operand is looked at when every name in the left one has a value. -/
theorem Ends.binary {o : BinaryOperator} {x y : Except Fault Int} (hl : Ends table ls x)
    (ht : t.Spells o) (hr : Ends table rs y) :
    Ends table (ls ++ t :: rs) (x.bind fun a => y.bind fun b => o.apply t a b) := by
  cases hl with
  | unbound hu hreached => exact .unbound hu (hreached.append_right _)
  | zeroDivisor hs hreached => exact .zeroDivisor hs (hreached.append_right _)
  | value hls =>
    have hbefore : Bound table (ls ++ [t]) := hls.append (bound_singleton (by simp [ht.1]))
    cases hr with
    | value hrs => exact Ends.apply ht hls hrs _ _
    | unbound hu hreached =>
      rw [List.append_cons]
      exact .unbound hu (hreached.append_left hbefore)
    | zeroDivisor hs hreached =>
      rw [List.append_cons]
      exact .zeroDivisor hs (hreached.append_left hbefore)

theorem Derives.ends {tier : Tier} {e : Expr} (h : Derives tier ts e) (table : Table) :
    Ends table ts (e.value table) := by
  induction h with
  | literal hk _ => exact .value (bound_singleton (by simp [hk]))
  | @name t hk _ =>
    cases hg : table.get? t.text with
    | none =>
      have hu : t.Unbound table := ⟨hk, hg⟩
      have hreached : Reached table [t] t := ⟨[], [], rfl, fun _ hm => nomatch hm⟩
      simpa [Expr.value, Table.find, hg, refuse] using Ends.unbound hu hreached
    | some v =>
      have hbound : Bound table [t] := by simp [Bound, Token.Unbound, hg]
      simpa [Expr.value, Table.find, hg] using Ends.value hbound
  | @group o c _ _ ho hc _ ih =>
    have hopen : Bound table [o] := bound_singleton (by simp [ho])
    have hclose : Bound table [c] := bound_singleton (by simp [hc])
    exact ih.between hopen hclose
  | factor _ ih => exact ih
  | product _ ih => exact ih
  | scale _ ht _ _ ihl ihr => exact ihl.binary ht ihr
  | add _ ht _ _ ihl ihr => exact ihl.binary ht ihr

theorem Ends.of_leftmost {k : Nat} (h : Ends table ts result) (hk : ts[k]? = some t)
    (ht : t.Unbound table) (hbefore : Bound table (ts.take k)) :
    result = .error (.diagnostic (.undefinedVariable t.text t)) ∨
      ∃ j s, j < k ∧ ts[j]? = some s ∧ s.Spells .div ∧
        result = .error (.diagnostic (.divisionByZero s)) := by
  cases h with
  | value hts => exact absurd ht (hts t (List.mem_of_getElem? hk))
  | @unbound u hu hreached =>
    obtain ⟨j, hj, hju⟩ := hreached.exists_index hk ht
    -- both are leftmost, so neither stands before the other
    rcases Nat.lt_or_eq_of_le hj with hlt | rfl
    · have hmem : u ∈ ts.take k := by
        apply List.mem_of_getElem?
        rw [List.getElem?_take_of_lt hlt, hju]
      exact absurd hu (hbefore u hmem)
    · obtain rfl : t = u := Option.some.inj (hk.symm.trans hju)
      exact .inl rfl
  | @zeroDivisor s hs hreached =>
    obtain ⟨j, hj, hjs⟩ := hreached.exists_index hk ht
    have hne : j ≠ k := by
      rintro rfl
      obtain rfl : t = s := Option.some.inj (hk.symm.trans hjs)
      have hkind : TokenKind.identifier = .operator := ht.1.symm.trans hs.1
      cases hkind
    exact .inr ⟨j, s, by omega, hjs, hs, rfl⟩

theorem Ends.of_bound {f : Fault} (h : Ends table ts (.error f)) (hts : Bound table ts) :
    ∃ s ∈ ts, s.Spells .div ∧ f = .diagnostic (.divisionByZero s) := by
  cases h with
  | unbound hu hreached => exact absurd hu (hts _ hreached.mem)
  | @zeroDivisor s hs hreached => exact ⟨s, hreached.mem, hs, rfl⟩

end Evaluation

/-- With the leftmost name without a value at `k`, evaluation fails there, or at a division by zero
further to the left. With a value for every name, it fails at divisions only. -/
theorem evaluate_fails_in_order {tokens : List Token} {e : Expr} (h : parse tokens = .ok e)
    (table : Table) :
    (∀ k t, tokens[k]? = some t → t.Unbound table → Bound table (tokens.take k) →
      ∃ f, evaluate table tokens = .error f ∧
        (f.Withholds ("Undefined variable '".toList ++ t.text ++ "'".toList) t ∨
          ∃ j s, j < k ∧ tokens[j]? = some s ∧ s.Spells .div ∧
            f.Withholds "Division by zero".toList s)) ∧
      (Bound table tokens → ∀ f, evaluate table tokens = .error f →
        ∃ s ∈ tokens, s.Spells .div ∧ f.Withholds "Division by zero".toList s) := by
  have hends : Ends table tokens (evaluate table tokens) :=
    evaluate_of_parse h table ▸ (derives_of_parse h).ends table
  refine ⟨fun k t hk ht hbefore => ?_, fun hbound f hf => ?_⟩
  · rcases hends.of_leftmost hk ht hbefore with hf | ⟨j, s, hj, hjs, hs, hf⟩
    · exact ⟨_, hf, .inl (withholds_undefinedVariable t.text t)⟩
    · exact ⟨_, hf, .inr ⟨j, s, hj, hjs, hs, withholds_divisionByZero s⟩⟩
  · rw [hf] at hends
    obtain ⟨s, hmem, hs, rfl⟩ := hends.of_bound hbound
    exact ⟨s, hmem, hs, withholds_divisionByZero s⟩

theorem evaluate_fails_in_order_quotient :
    let one : Token := ⟨.hexNumber, ['1'], 0⟩
    let slash : Token := ⟨.operator, ['/'], 2⟩
    let o : Token := ⟨.bracketOpen, ['('], 4⟩
    let y : Token := ⟨.identifier, ['y'], 5⟩
    let minus : Token := ⟨.operator, ['-'], 7⟩
    let y' : Token := ⟨.identifier, ['y'], 9⟩
    let c : Token := ⟨.bracketClose, [')'], 10⟩
    let plus : Token := ⟨.operator, ['+'], 12⟩
    let x : Token := ⟨.identifier, ['x'], 14⟩
    let tokens := [one, slash, o, y, minus, y', c, plus, x]
    let table := (∅ : Table).insert ['y'] 31
    parse tokens = .ok (.binary .add (.binary .div (.number 1 one)
        (.binary .sub (.var ['y'] y) (.var ['y'] y') minus) slash) (.var ['x'] x) plus) ∧
      x.Unbound table ∧ Bound table (tokens.take 8) ∧
      ∃ f, evaluate table tokens = .error f ∧
        (f.Withholds "Undefined variable 'x'".toList x ∨
          ∃ j s, j < 8 ∧ tokens[j]? = some s ∧ s.Spells .div ∧
            f.Withholds "Division by zero".toList s) := by
  intro one slash o y minus y' c plus x tokens table
  have hparse : parse tokens = .ok (.binary .add (.binary .div (.number 1 one)
      (.binary .sub (.var ['y'] y) (.var ['y'] y') minus) slash) (.var ['x'] x) plus) := by decide
  have hx : x.Unbound table := by decide
  have hbefore : Bound table (tokens.take 8) := by decide
  exact ⟨hparse, hx, hbefore, (evaluate_fails_in_order hparse table).1 8 x rfl hx hbefore⟩

end HexLang
