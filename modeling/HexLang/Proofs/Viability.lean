import HexLang.Proofs.Agreement

/-! The form check stops at the first token that no continuation can mend. The
tokens before it are the start of an expression: an operand, where one is due,
and a closing bracket for each open one make them whole. -/

namespace HexLang

/-- The start of tokens that the form check accepts. -/
def Viable (tokens : List Token) : Prop :=
  ∃ more, checkForm (tokens ++ more) = .ok ()

/-- A literal or a name that may stand in an expression. -/
def Token.IsOperand (t : Token) : Prop :=
  t.kind = .hexNumber ∧ isLiteral t.text = true ∨
    t.kind = .identifier ∧ startsUppercase t.text = false

/-- An operand, if the tokens lack one at their end, and the brackets that they lack. -/
structure Completion (tokens operand closers : List Token) : Prop where
  operand : if endsOperand tokens then operand = [] else ∃ t, operand = [t] ∧ t.IsOperand
  closing : ∀ t ∈ closers, t.kind = .bracketClose
  length : (closers.length : Int) = openCount tokens

section Completion

variable {tokens operand closers : List Token} {r : Reading}

theorem Token.IsOperand.screened {t : Token} (h : t.IsOperand) : t.screened = true := by
  rcases h with ⟨hk, -⟩ | ⟨hk, -⟩ <;> simp [Token.screened, hk]

theorem Token.IsOperand.step_eq {t : Token} (h : t.IsOperand) (n : Nat) :
    Reading.step ⟨true, n⟩ t = .ok ⟨false, n⟩ := by
  rcases h with ⟨hk, hl⟩ | ⟨hk, hu⟩
  · simp [Reading.step, admitOperand, hk, hl, bind, Except.bind, pure, Except.pure]
  · simp [Reading.step, admitOperand, hk, hu, bind, Except.bind, pure, Except.pure]

theorem foldlM_closers (h : ∀ t ∈ closers, t.kind = .bracketClose) :
    closers.foldlM Reading.step ⟨false, closers.length⟩ = .ok ⟨false, 0⟩ := by
  induction closers with
  | nil => rfl
  | cons t ts ih =>
    obtain ⟨ht, hts⟩ := List.forall_mem_cons.mp h
    have hstep : Reading.step ⟨false, ts.length + 1⟩ t = .ok ⟨false, ts.length⟩ := by
      simp [Reading.step, ht]
    rw [List.length_cons, List.foldlM_cons, hstep]
    exact ih hts

theorem exists_completion (h : 0 ≤ openCount tokens) :
    ∃ operand closers, Completion tokens operand closers := by
  obtain ⟨n, hn⟩ := Int.eq_ofNat_of_zero_le h
  let zero : Token := ⟨.hexNumber, ['0'], 0⟩
  let closer : Token := ⟨.bracketClose, [')'], 0⟩
  refine ⟨if endsOperand tokens then [] else [zero], List.replicate n closer, ?_, ?_, ?_⟩
  · split
    · rfl
    · exact ⟨zero, rfl, .inl ⟨rfl, by decide⟩⟩
  · intro t ht
    rw [List.eq_of_mem_replicate ht]
  · rw [List.length_replicate, hn]

theorem Completion.foldlM_operand (h : Completion tokens operand closers)
    (hr : tokens.foldlM Reading.step {} = .ok r) :
    operand.foldlM Reading.step r = .ok ⟨false, r.depth⟩ := by
  have hdue := operandDue_eq_endsOperand hr
  have hoperand := h.operand
  obtain ⟨due, n⟩ := r
  split at hoperand
  · rename_i he
    obtain rfl : due = false := by simpa [he] using hdue
    rw [hoperand]
    rfl
  · rename_i he
    obtain rfl : due = true := by simpa [he] using hdue
    obtain ⟨t, rfl, ht⟩ := hoperand
    rw [List.foldlM_cons, ht.step_eq]
    rfl

theorem Completion.screened (h : Completion tokens operand closers) :
    ∀ t ∈ operand ++ closers, t.screened = true := by
  refine List.forall_mem_append.mpr ⟨fun t ht => ?_, fun t ht => ?_⟩
  · have hoperand := h.operand
    split at hoperand
    · simp [hoperand] at ht
    · obtain ⟨u, rfl, hu⟩ := hoperand
      obtain rfl := List.mem_singleton.mp ht
      exact hu.screened
  · simp [Token.screened, h.closing t ht]

/-- What the check has taken in without a complaint lacks nothing but its completion. -/
theorem Completion.checkForm_eq (h : Completion tokens operand closers)
    (hs : ∀ t ∈ tokens, t.screened = true) (hr : tokens.foldlM Reading.step {} = .ok r) :
    checkForm (tokens ++ (operand ++ closers)) = .ok () := by
  have hdepth : r.depth = closers.length := by
    have hopen := depth_eq_openCount hr
    have hlen := h.length
    omega
  have hclosed := foldlM_closers h.closing
  rw [checkForm_of_screened (List.forall_mem_append.mpr ⟨hs, h.screened⟩),
    foldlM_append_of_ok hr, foldlM_append_of_ok (h.foldlM_operand hr), hdepth, hclosed]
  rfl

/-- Tokens are the start of an expression just if the check takes them in. -/
theorem viable_iff : Viable tokens ↔
    (∀ t ∈ tokens, t.screened = true) ∧ ∃ r, tokens.foldlM Reading.step {} = .ok r := by
  constructor
  · rintro ⟨more, hform⟩
    have hscreen := screened_of_checkForm hform
    refine ⟨fun t ht => hscreen t (List.mem_append_left more ht), ?_⟩
    cases hr : tokens.foldlM Reading.step {} with
    | ok r => exact ⟨r, rfl⟩
    | error f =>
      rw [checkForm_of_screened hscreen, foldlM_append_of_error hr more] at hform
      cases hform
  · rintro ⟨hs, r, hr⟩
    have hopen := depth_eq_openCount hr
    have hcompletion : ∃ operand closers, Completion tokens operand closers :=
      exists_completion (by omega)
    obtain ⟨operand, closers, hc⟩ := hcompletion
    exact ⟨operand ++ closers, hc.checkForm_eq hs hr⟩

end Completion

section Blame

variable {tokens : List Token} {f : Fault}

/-- The token at which a reading stops is the first that cannot be mended. -/
theorem exists_first_of_stop (hs : ∀ t ∈ tokens, t.screened = true)
    (h : tokens.foldlM Reading.step {} = .error f) :
    ∃ d t k, f = .diagnostic d ∧ d.level = .syntactic ∧ d.token? = some t ∧
      tokens[k]? = some t ∧ Viable (tokens.take k) ∧ ¬ Viable (tokens.take (k + 1)) := by
  obtain ⟨t, post, mid, hsplit, hpre, hstop⟩ := passed_of_error h
  obtain ⟨d, rfl, hl, ht⟩ := Reading.error_of_step hstop
  generalize Reading.passed {} tokens = pre at hsplit hpre
  subst hsplit
  have htake : (pre ++ t :: post).take (pre.length + 1) = pre ++ [t] :=
    List.take_length_add_append 1
  refine ⟨d, t, pre.length, rfl, hl, ht, by simp, ?_, ?_⟩
  · rw [List.take_left]
    exact viable_iff.mpr ⟨fun u hu => hs u (List.mem_append_left _ hu), mid, hpre⟩
  · rw [htake]
    intro hv
    obtain ⟨-, r, hr⟩ := viable_iff.mp hv
    rw [foldlM_concat_of_ok hpre, hstop] at hr
    cases hr

theorem Reading.finish_error_message {r : Reading} {d : Diagnostic}
    (h : r.finish = .error (.diagnostic d)) :
    d.message = if 0 < r.depth then "Missing closing parenthesis".toList
      else "Expression is incomplete".toList := by
  obtain ⟨due, n⟩ := r
  cases n with
  | succ n =>
    obtain rfl : Diagnostic.missingClosing none = d := by simpa [Reading.finish, refuse] using h
    rfl
  | zero =>
    cases due with
    | false => cases h
    | true =>
      obtain rfl : Diagnostic.incomplete = d := by simpa [Reading.finish, refuse] using h
      rfl

end Blame

/-- The check blames the first token with which no expression can begin as the tokens do. It blames
none just if they can be completed, and then it says what they lack. -/
theorem checkForm_blames_first {tokens : List Token}
    (hk : ∀ t ∈ tokens, t.kind ≠ .unknown ∧ t.kind ≠ .comment) {f : Fault}
    (h : checkForm tokens = .error f) :
    ∃ d, f = .diagnostic d ∧ d.level = .syntactic ∧
      (∀ t, d.token? = some t → ∃ k, tokens[k]? = some t ∧
        Viable (tokens.take k) ∧ ¬ Viable (tokens.take (k + 1))) ∧
      (d.token? = none →
        (∃ operand closers, Completion tokens operand closers) ∧
        (∀ operand closers, Completion tokens operand closers →
          checkForm (tokens ++ (operand ++ closers)) = .ok ()) ∧
        d.message = if 0 < openCount tokens then "Missing closing parenthesis".toList
          else "Expression is incomplete".toList) := by
  have hs : ∀ t ∈ tokens, t.screened = true := by simpa [Token.screened] using hk
  rw [checkForm_of_screened hs] at h
  cases hr : tokens.foldlM Reading.step {} with
  | error f' =>
    rw [hr] at h
    obtain rfl : f' = f := Except.error.inj h
    obtain ⟨d, t, k, rfl, hl, ht, hkt, hviable, hdead⟩ := exists_first_of_stop hs hr
    refine ⟨d, rfl, hl, fun u hu => ?_, fun hnone => by simp [ht] at hnone⟩
    obtain rfl : t = u := Option.some.inj (ht.symm.trans hu)
    exact ⟨k, hkt, hviable, hdead⟩
  | ok r =>
    rw [hr] at h
    have hfinish : r.finish = .error f := h
    obtain ⟨d, rfl, hl, ht⟩ := Reading.error_of_finish hfinish
    have hopen := depth_eq_openCount hr
    refine ⟨d, rfl, hl, fun u hu => by simp [ht] at hu, fun _ => ⟨exists_completion (by omega),
      fun operand closers hc => hc.checkForm_eq hs hr, ?_⟩⟩
    rw [Reading.finish_error_message hfinish, ← hopen]
    simp only [Int.natCast_pos]

theorem checkForm_blames_first_brackets :
    let o : Token := ⟨.bracketOpen, ['('], 0⟩
    let one : Token := ⟨.hexNumber, ['1'], 1⟩
    let two : Token := ⟨.hexNumber, ['2'], 3⟩
    let plus : Token := ⟨.operator, ['+'], 3⟩
    let c : Token := ⟨.bracketClose, [')'], 4⟩
    (checkForm [o, one, two, c] = .error (.diagnostic (.unexpectedToken two)) ∧
      ∃ k, [o, one, two, c][k]? = some two ∧ Viable ([o, one, two, c].take k) ∧
        ¬ Viable ([o, one, two, c].take (k + 1))) ∧
    checkForm [o, one, plus] = .error (.diagnostic (.missingClosing none)) ∧
      checkForm ([o, one, plus] ++ ([one] ++ [c])) = .ok () := by
  intro o one two plus c
  have hstop : checkForm [o, one, two, c] = .error (.diagnostic (.unexpectedToken two)) := by decide
  have hend : checkForm [o, one, plus] = .error (.diagnostic (.missingClosing none)) := by decide
  refine ⟨⟨hstop, ?_⟩, hend, ?_⟩
  · obtain ⟨d, hd, -, hfirst, -⟩ := checkForm_blames_first (by decide) hstop
    obtain rfl := Fault.diagnostic.inj hd
    exact hfirst two rfl
  · obtain ⟨d, hd, -, -, hlacks⟩ := checkForm_blames_first (by decide) hend
    obtain rfl := Fault.diagnostic.inj hd
    have hcompletion : Completion [o, one, plus] [one] [c] :=
      ⟨⟨one, rfl, .inl ⟨rfl, by decide⟩⟩, by decide, by decide⟩
    exact (hlacks rfl).2.1 [one] [c] hcompletion

end HexLang
