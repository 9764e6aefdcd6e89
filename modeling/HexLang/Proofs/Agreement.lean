import HexLang.Proofs.Steps

/-! The form check and the parser judge alike. The parser runs in step with
the check, on a draft whose reading is that of the check, until one of them
stops; only the nesting limit is the parser's own. -/

namespace HexLang

/-- What a draft leaves open, without the expressions in it. -/
def Draft.reading (draft : Draft) : Reading :=
  ⟨draft.operand.isNone, draft.openings.length⟩

/-- The tokens that the form check takes in before it stops. -/
def Reading.passed (r : Reading) : List Token → List Token
  | [] => []
  | t :: ts =>
    match r.step t with
    | .ok r' => t :: r'.passed ts
    | .error _ => []

/-- The tokens before the place that the form check blames: a token that is no part of an
expression, else the token at which the reading stops, else the end. -/
def beforeBlame (tokens : List Token) : List Token :=
  if tokens.all Token.screened then Reading.passed {} tokens
  else tokens.takeWhile Token.screened

/-- The tokens end after a complete operand. -/
def endsOperand (tokens : List Token) : Bool :=
  tokens.getLast?.any fun t =>
    t.kind = .hexNumber ∨ t.kind = .identifier ∨ t.kind = .bracketClose

/-- A bracket that is open at the end, with none behind it that is. -/
def InnermostOpen (tokens : List Token) (o : Token) : Prop :=
  ∃ pre inner, tokens = pre ++ o :: inner ∧ o.kind = .bracketOpen ∧ Balanced inner

def Signed (tokens : List Token) : Prop :=
  ∀ t ∈ tokens, t.kind = .operator → ∃ o : BinaryOperator, t.text = [o.sign]

/-- What the parser says of the tokens where the form check says `d`: the same about the same
token, except that it finds the bracket that lacks its counterpart behind an operand. -/
def Echoes (tokens : List Token) (d d' : Diagnostic) : Prop :=
  d'.level = .syntactic ∧ d'.message = d.message ∧
    if d = .missingClosing none then
      if endsOperand tokens then ∃ o, d'.token? = some o ∧ InnermostOpen tokens o
      else d'.token? = none
    else d'.token? = d.token?

theorem passed_of_ok {tokens : List Token} {r r' : Reading}
    (h : tokens.foldlM Reading.step r = .ok r') : r.passed tokens = tokens := by
  induction tokens generalizing r with
  | nil => rfl
  | cons t ts ih =>
    cases hs : r.step t with
    | error f => simp [hs, bind, Except.bind] at h
    | ok mid =>
      simp only [List.foldlM_cons, hs] at h
      simp only [Reading.passed, hs, ih h]

theorem passed_of_error {tokens : List Token} {r : Reading} {f : Fault}
    (h : tokens.foldlM Reading.step r = .error f) :
    ∃ t post mid, tokens = r.passed tokens ++ t :: post ∧
      (r.passed tokens).foldlM Reading.step r = .ok mid ∧ mid.step t = .error f := by
  induction tokens generalizing r with
  | nil => simp [pure, Except.pure] at h
  | cons t ts ih =>
    cases hs : r.step t with
    | error f' =>
      simp only [List.foldlM_cons, hs, bind, Except.bind, Except.error.injEq] at h
      exact ⟨t, ts, r, by simp [Reading.passed, hs], by simp [Reading.passed, hs, pure, Except.pure],
        by rw [hs, h]⟩
    | ok mid =>
      simp only [List.foldlM_cons, hs] at h
      obtain ⟨u, post, last, hsplit, hfold, hstop⟩ := ih h
      refine ⟨u, post, last, ?_, ?_, hstop⟩
      · simp only [Reading.passed, hs, List.cons_append, ← hsplit]
      · simp only [Reading.passed, hs, List.foldlM_cons]
        exact hfold

theorem Draft.step_of_reading_error {first t : Token} {draft : Draft} {f : Fault}
    (h : draft.reading.step t = .error f) : draft.step first t = .error f := by
  obtain ⟨openings, w, operand⟩ := draft
  cases operand with
  | none =>
    simp only [Draft.reading, Reading.step, Option.isNone_none, if_true] at h
    simp only [Draft.step]
    cases hk : t.kind <;> simp only [hk] at h ⊢
    case identifier | hexNumber =>
      cases ha : admitOperand t with
      | error f' => simpa [ha, bind, Except.bind] using h
      | ok u => simp [ha, bind, Except.bind, pure, Except.pure] at h
    case bracketOpen => simp at h
    all_goals simpa [refuse] using h
  | some e =>
    simp only [Draft.reading, Reading.step, Option.isNone_some, Bool.false_eq_true, if_false] at h
    simp only [Draft.step]
    cases hk : t.kind <;> simp only [hk] at h ⊢
    case operator => simp at h
    case bracketClose =>
      cases openings with
      | nil => simpa [refuse] using h
      | cons b openings => simp at h
    all_goals simpa [refuse] using h

/-- Where the check goes on, the parser goes on in step with it, unless a bracket is one too many. -/
theorem Draft.step_of_reading_moves (first : Token) {t : Token} {draft : Draft} {r : Reading}
    (ho : t.kind = .operator → ∃ o : BinaryOperator, t.text = [o.sign])
    (hd : draft.openings.length ≤ nestingLimit) (h : draft.reading.Moves t r) :
    (r.depth ≤ nestingLimit ∧ ∃ draft', draft.step first t = .ok draft' ∧ draft'.reading = r) ∨
    (nestingLimit < r.depth ∧ draft.step first t = refuse (.tooDeep first)) := by
  obtain ⟨openings, w, operand⟩ := draft
  generalize hr : Draft.reading ⟨openings, w, operand⟩ = r₀ at h
  cases h with
  | operand hk ha =>
    simp only [Draft.reading, Reading.mk.injEq, Option.isNone_iff_eq_none] at hr
    obtain ⟨rfl, rfl⟩ := hr
    refine .inl ⟨hd, ?_⟩
    rcases hk with hk | hk
    · exact ⟨⟨openings, w, some (.number (literalValue t.text) t)⟩,
        by simp [Draft.step, hk, ha, bind, Except.bind, pure, Except.pure], rfl⟩
    · exact ⟨⟨openings, w, some (.var t.text t)⟩,
        by simp [Draft.step, hk, ha, bind, Except.bind, pure, Except.pure], rfl⟩
  | opening hk =>
    simp only [Draft.reading, Reading.mk.injEq, Option.isNone_iff_eq_none] at hr
    obtain ⟨rfl, rfl⟩ := hr
    by_cases hl : openings.length < nestingLimit
    · exact .inl ⟨hl, ⟨⟨t, w⟩ :: openings, {}, none⟩, by simp [Draft.step, hk, hl], rfl⟩
    · exact .inr ⟨by simp only; omega, by simp [Draft.step, hk, hl]⟩
  | operator hk =>
    simp only [Draft.reading, Reading.mk.injEq, Option.isNone_eq_false_iff,
      Option.isSome_iff_exists] at hr
    obtain ⟨⟨e, rfl⟩, rfl⟩ := hr
    obtain ⟨o, ht⟩ := ho hk
    exact .inl ⟨hd, ⟨openings, w.await o e t, none⟩, by simp [Draft.step, hk, ht], rfl⟩
  | closing hk =>
    simp only [Draft.reading, Reading.mk.injEq, Option.isNone_eq_false_iff,
      Option.isSome_iff_exists] at hr
    obtain ⟨⟨e, rfl⟩, hn⟩ := hr
    cases openings with
    | nil => simp at hn
    | cons b openings =>
      simp only [List.length_cons, Nat.add_right_cancel_iff] at hn hd
      subst hn
      exact .inl ⟨by simp only; omega, ⟨openings, b.outer, some (w.close e)⟩,
        by simp [Draft.step, hk], rfl⟩

/-- Over tokens that the check takes in, the parser keeps step with it or runs out of depth. -/
theorem foldlM_draft_of_reading (first : Token) {tokens : List Token} {r : Reading}
    (hs : Signed tokens) (h : tokens.foldlM Reading.step {} = .ok r) :
    (NestsWithin nestingLimit tokens →
      ∃ draft, tokens.foldlM (Draft.step first) {} = .ok draft ∧ draft.reading = r) ∧
    (¬ NestsWithin nestingLimit tokens →
      tokens.foldlM (Draft.step first) {} = refuse (.tooDeep first)) := by
  -- on the right end: the depth of the reading is what the limit is compared with
  induction tokens using List.reverseRecOn generalizing r with
  | nil =>
    have hr : ({} : Reading) = r := by simpa [pure, Except.pure] using h
    exact ⟨fun _ => ⟨{}, rfl, hr ▸ rfl⟩, fun hn => absurd (nestsWithin_nil (by decide)) hn⟩
  | append_singleton ts t ih =>
    obtain ⟨mid, hmid, hstep⟩ := exists_of_foldlM_concat h
    obtain ⟨hin, hout⟩ := ih (fun u hu => hs u (by simp [hu])) hmid
    by_cases hn : NestsWithin nestingLimit ts
    · obtain ⟨draft, hfold, rfl⟩ := hin hn
      have hlen : (draft.openings.length : Int) = openCount ts := depth_eq_openCount hmid
      have hd : draft.openings.length ≤ nestingLimit := by
        have := hn.openCount_le
        omega
      have hcount : (r.depth : Int) = openCount (ts ++ [t]) := depth_eq_openCount h
      rw [foldlM_concat_of_ok hfold, nestsWithin_concat_iff]
      rcases Draft.step_of_reading_moves first (hs t (by simp)) hd
        (Reading.Moves.of_step hstep) with ⟨hr, hgo⟩ | ⟨hr, hstop⟩
      · exact ⟨fun _ => hgo, fun hdeep => absurd ⟨hn, by omega⟩ hdeep⟩
      · exact ⟨fun hdeep => absurd hdeep.2 (by omega), fun _ => hstop⟩
    · -- the parser has stopped before this token
      have hdeep : ¬ NestsWithin nestingLimit (ts ++ [t]) := fun hh => hn hh.of_append_left
      exact ⟨fun hh => absurd hh hdeep, fun _ => foldlM_append_of_error (hout hn) [t]⟩

theorem Reading.error_of_step {r : Reading} {t : Token} {f : Fault} (h : r.step t = .error f) :
    ∃ d, f = .diagnostic d ∧ d.level = .syntactic ∧ d.token? = some t := by
  obtain ⟨due, n⟩ := r
  cases due with
  | true =>
    simp only [Reading.step, if_true] at h
    cases hk : t.kind <;> simp only [hk] at h
    case identifier =>
      by_cases hu : startsUppercase t.text = true
      · simp only [admitOperand, hk, hu, if_true, refuse, bind, Except.bind,
          Except.error.injEq] at h
        exact ⟨_, h.symm, rfl, rfl⟩
      · simp [admitOperand, hk, hu, bind, Except.bind, pure, Except.pure] at h
    case hexNumber =>
      by_cases hl : isLiteral t.text = true
      · simp [admitOperand, hk, hl, bind, Except.bind, pure, Except.pure] at h
      · simp only [admitOperand, hk, hl, if_false, refuse, bind, Except.bind, Bool.false_eq_true,
          Except.error.injEq] at h
        exact ⟨_, h.symm, rfl, rfl⟩
    case bracketOpen => simp at h
    all_goals
      simp only [refuse, Except.error.injEq] at h
      exact ⟨_, h.symm, rfl, rfl⟩
  | false =>
    simp only [Reading.step, Bool.false_eq_true, if_false] at h
    cases hk : t.kind <;> simp only [hk] at h
    case operator => simp at h
    case bracketClose =>
      by_cases hn : n = 0
      · simp only [hn, if_true, refuse, Except.error.injEq] at h
        exact ⟨_, h.symm, rfl, rfl⟩
      · simp [hn] at h
    all_goals
      simp only [refuse, Except.error.injEq] at h
      exact ⟨_, h.symm, rfl, rfl⟩

theorem operandDue_eq_endsOperand {tokens : List Token} {r : Reading}
    (h : tokens.foldlM Reading.step {} = .ok r) : r.operandDue = !endsOperand tokens := by
  refine foldlM_induct (P := fun ts r => r.operandDue = !endsOperand ts) rfl ?_ h
  intro ts mid t r' _ hs
  simp only [endsOperand, List.getLast?_concat, Option.any_some]
  cases Reading.Moves.of_step hs with
  | operand hk _ => rcases hk with hk | hk <;> simp [hk]
  | opening hk => simp [hk]
  | operator hk => simp [hk]
  | closing hk => simp [hk]

theorem checkForm_of_screened {tokens : List Token} (h : ∀ t ∈ tokens, t.screened = true) :
    checkForm tokens = (tokens.foldlM Reading.step {}).bind Reading.finish := by
  simp only [checkForm, screen_of_screened h]
  rfl

theorem screened_of_checkForm {tokens : List Token} (h : checkForm tokens = .ok ()) :
    ∀ t ∈ tokens, t.screened = true := by
  by_contra hn
  obtain ⟨t, post, d, -, hd, -⟩ := screen_of_not_screened hn
  simp [checkForm, hd, refuse, bind, Except.bind] at h

theorem beforeBlame_of_screened {tokens : List Token} (h : ∀ t ∈ tokens, t.screened = true) :
    beforeBlame tokens = Reading.passed {} tokens := by
  have hall : tokens.all Token.screened = true := List.all_eq_true.mpr h
  simp [beforeBlame, hall]

theorem beforeBlame_of_checkForm {tokens : List Token} (h : checkForm tokens = .ok ()) :
    beforeBlame tokens = tokens := by
  have hscreen := screened_of_checkForm h
  rw [checkForm_of_screened hscreen] at h
  rw [beforeBlame_of_screened hscreen]
  cases hr : tokens.foldlM Reading.step {} with
  | error f => simp [hr, Except.bind] at h
  | ok r => exact passed_of_ok hr

theorem Draft.finish_of_reading_ok {draft : Draft} (h : draft.reading.finish = .ok ()) :
    ∃ e, draft.finish = .ok e := by
  obtain ⟨openings, w, operand⟩ := draft
  cases openings with
  | cons b openings => simp [Draft.reading, Reading.finish, refuse] at h
  | nil =>
    cases operand with
    | none => simp [Draft.reading, Reading.finish, refuse] at h
    | some e => exact ⟨w.close e, rfl⟩

theorem Reading.error_of_finish {r : Reading} {f : Fault} (h : r.finish = .error f) :
    ∃ d, f = .diagnostic d ∧ d.level = .syntactic ∧ d.token? = none := by
  obtain ⟨due, n⟩ := r
  by_cases hn : n = 0
  · cases due with
    | true =>
      simp only [Reading.finish, hn, ne_eq, not_true_eq_false, if_false, if_true, refuse,
        Except.error.injEq] at h
      exact ⟨.incomplete, h.symm, rfl, rfl⟩
    | false => simp [Reading.finish, hn] at h
  · simp only [Reading.finish, hn, ne_eq, not_false_eq_true, if_true, refuse,
      Except.error.injEq] at h
    exact ⟨.missingClosing none, h.symm, rfl, rfl⟩

theorem Draft.finish_echoes {tokens : List Token} {draft : Draft} {d : Diagnostic}
    (hu : Unclosed (draft.openings.map Opening.token) tokens)
    (hend : draft.reading.operandDue = !endsOperand tokens)
    (h : draft.reading.finish = .error (.diagnostic d)) :
    ∃ d', draft.finish = .error (.diagnostic d') ∧ Echoes tokens d d' := by
  obtain ⟨openings, w, operand⟩ := draft
  cases openings with
  | nil =>
    cases operand with
    | none =>
      simp only [Draft.reading, Reading.finish, List.length_nil, ne_eq, not_true_eq_false, if_false,
        Option.isNone_none, if_true, refuse, Except.error.injEq, Fault.diagnostic.injEq] at h
      subst h
      exact ⟨.incomplete, rfl, rfl, rfl, by simp⟩
    | some e => simp [Draft.reading, Reading.finish] at h
  | cons b openings =>
    simp only [Draft.reading, Reading.finish, List.length_cons, ne_eq, Nat.add_one_ne_zero,
      not_false_eq_true, if_true, refuse, Except.error.injEq, Fault.diagnostic.injEq] at h
    subst h
    cases operand with
    | none =>
      have he : endsOperand tokens = false := by simpa [Draft.reading] using hend
      exact ⟨.missingClosing none, rfl, rfl, rfl, by simp [he, Diagnostic.token?]⟩
    | some e =>
      have he : endsOperand tokens = true := by simpa [Draft.reading] using hend
      obtain ⟨pre, inner, hsplit, hk, hb, -⟩ := hu
      refine ⟨.missingClosing (some b.token), rfl, rfl, rfl, ?_⟩
      simp only [he, if_true]
      exact ⟨b.token, rfl, pre, inner, hsplit, hk, hb⟩

theorem echoes_of_token {tokens : List Token} {d : Diagnostic} {t : Token}
    (hl : d.level = .syntactic) (ht : d.token? = some t) : Echoes tokens d d := by
  refine ⟨hl, rfl, ?_⟩
  rw [if_neg]
  rintro rfl
  simp [Diagnostic.token?] at ht

theorem exists_parse_of_checkForm {tokens : List Token} (hs : Signed tokens)
    (hc : checkForm tokens = .ok ()) (hn : NestsWithin nestingLimit tokens) :
    ∃ e, parse tokens = .ok e := by
  have hscreen := screened_of_checkForm hc
  rw [checkForm_of_screened hscreen] at hc
  cases tokens with
  | nil => simp [Except.bind, pure, Except.pure, Reading.finish, refuse] at hc
  | cons first ts =>
    cases hr : (first :: ts).foldlM Reading.step {} with
    | error f => simp [hr, Except.bind] at hc
    | ok r =>
      simp only [hr, Except.bind] at hc
      obtain ⟨draft, hfold, rfl⟩ := (foldlM_draft_of_reading first hs hr).1 hn
      rw [parse_cons_of_screened hscreen, hfold]
      exact Draft.finish_of_reading_ok hc

theorem parse_echoes_of_screened {tokens : List Token} (hs : Signed tokens)
    (hscreen : ∀ t ∈ tokens, t.screened = true) {f : Fault} (hc : checkForm tokens = .error f) :
    ∃ d, f = .diagnostic d ∧ d.level = .syntactic ∧
      (∀ t, d.token? = some t → ∃ post, tokens = beforeBlame tokens ++ t :: post) ∧
      (d.token? = none → beforeBlame tokens = tokens) ∧
      (NestsWithin nestingLimit (beforeBlame tokens) →
        ∃ d', parse tokens = .error (.diagnostic d') ∧ Echoes tokens d d') := by
  rw [checkForm_of_screened hscreen] at hc
  rw [beforeBlame_of_screened hscreen]
  cases tokens with
  | nil =>
    have hf : f = .diagnostic .incomplete := by
      simpa [Except.bind, pure, Except.pure, Reading.finish, refuse, eq_comm] using hc
    exact ⟨.incomplete, hf, rfl, by simp [Diagnostic.token?], fun _ => rfl,
      fun _ => ⟨.incomplete, rfl, rfl, rfl, by simp⟩⟩
  | cons first ts =>
    rw [parse_cons_of_screened hscreen]
    cases hr : (first :: ts).foldlM Reading.step {} with
    | ok r =>
      simp only [hr, Except.bind] at hc
      obtain ⟨d, rfl, hl, ht⟩ := Reading.error_of_finish hc
      rw [passed_of_ok hr]
      refine ⟨d, rfl, hl, by simp [ht], fun _ => rfl, fun hn => ?_⟩
      obtain ⟨draft, hfold, rfl⟩ := (foldlM_draft_of_reading first hs hr).1 hn
      rw [hfold]
      exact Draft.finish_echoes (unclosed_of_draft hfold) (operandDue_eq_endsOperand hr) hc
    | error f' =>
      simp only [hr, Except.bind, Except.error.injEq] at hc
      obtain ⟨t, post, mid, hsplit, hpre, hstop⟩ := passed_of_error hr
      obtain ⟨d, rfl, hl, ht⟩ := Reading.error_of_step hstop
      refine ⟨d, hc.symm, hl, ?_, by simp [ht], fun hn => ⟨d, ?_, echoes_of_token hl ht⟩⟩
      · intro u hu
        obtain rfl : t = u := by simpa [ht] using hu
        exact ⟨post, hsplit⟩
      · have hs' : Signed (Reading.passed {} (first :: ts)) :=
          fun u hu => hs u (by rw [hsplit]; simp [hu])
        obtain ⟨draft, hfold, rfl⟩ := (foldlM_draft_of_reading first hs' hpre).1 hn
        rw [hsplit, foldlM_append_of_ok hfold, List.foldlM_cons,
          Draft.step_of_reading_error hstop]
        rfl

theorem parse_echoes_checkForm {tokens : List Token} (hs : Signed tokens) {f : Fault}
    (hc : checkForm tokens = .error f) :
    ∃ d, f = .diagnostic d ∧ d.level = .syntactic ∧
      (∀ t, d.token? = some t → ∃ post, tokens = beforeBlame tokens ++ t :: post) ∧
      (d.token? = none → beforeBlame tokens = tokens) ∧
      ((∃ t ∈ tokens, t.kind = .unknown ∨ t.kind = .comment) ∨
          NestsWithin nestingLimit (beforeBlame tokens) →
        ∃ d', parse tokens = .error (.diagnostic d') ∧ Echoes tokens d d') := by
  by_cases hscreen : ∀ t ∈ tokens, t.screened = true
  · obtain ⟨d, hf, hl, ht, hend, hecho⟩ := parse_echoes_of_screened hs hscreen hc
    refine ⟨d, hf, hl, ht, hend, fun hcovered => hecho ?_⟩
    rcases hcovered with ⟨t, hmem, hk⟩ | hn
    · have hplain : t.kind ≠ .unknown ∧ t.kind ≠ .comment := by
        simpa [Token.screened] using hscreen t hmem
      exact absurd hk (not_or.mpr hplain)
    · exact hn
  · obtain ⟨t, post, d, hsplit, hd, hl, ht⟩ := screen_of_not_screened hscreen
    have hb : beforeBlame tokens = tokens.takeWhile Token.screened := by
      unfold beforeBlame
      rw [if_neg (by simpa only [List.all_eq_true] using hscreen)]
    have hf : f = .diagnostic d := by
      simpa [checkForm, hd, refuse, bind, Except.bind, eq_comm] using hc
    refine ⟨d, hf, hl, ?_, by simp [ht], fun _ => ⟨d, ?_, echoes_of_token hl ht⟩⟩
    · intro u hu
      obtain rfl : t = u := by simpa [ht] using hu
      exact ⟨post, hb ▸ hsplit⟩
    · simp [parse, hd, refuse, bind, Except.bind]

/-- Where more brackets are open than may be, the parser says so before it can meet the place
that the check blames. -/
theorem parse_tooDeep {tokens : List Token} (hs : Signed tokens)
    (hscreen : ∀ t ∈ tokens, t.screened = true)
    (hn : ¬ NestsWithin nestingLimit (beforeBlame tokens)) :
    ∃ first, tokens.head? = some first ∧ parse tokens = refuse (.tooDeep first) := by
  rw [beforeBlame_of_screened hscreen] at hn
  cases tokens with
  | nil => exact absurd (nestsWithin_nil (by decide)) hn
  | cons first ts =>
    refine ⟨first, rfl, ?_⟩
    rw [parse_cons_of_screened hscreen]
    cases hr : (first :: ts).foldlM Reading.step {} with
    | ok r =>
      rw [passed_of_ok hr] at hn
      rw [(foldlM_draft_of_reading first hs hr).2 hn]
      rfl
    | error f =>
      obtain ⟨t, post, mid, hsplit, hpre, -⟩ := passed_of_error hr
      have hs' : Signed (Reading.passed {} (first :: ts)) :=
        fun u hu => hs u (by rw [hsplit]; simp [hu])
      rw [hsplit, foldlM_append_of_error ((foldlM_draft_of_reading first hs' hpre).2 hn)]
      rfl

/-- The check and the parser agree on every row of tokens: on what is accepted, and on the
first thing that is wrong, unless more brackets are open before it than the parser allows. Of a
row with a token that is no part of an expression, the brackets are not counted. -/
theorem parse_agrees_with_checkForm {tokens : List Token} (hs : Signed tokens) :
    (checkForm tokens = .ok () → beforeBlame tokens = tokens ∧
      (NestsWithin nestingLimit tokens → ∃ e, parse tokens = .ok e)) ∧
    (∀ f, checkForm tokens = .error f →
      ∃ d, f = .diagnostic d ∧ d.level = .syntactic ∧
        (∀ t, d.token? = some t → ∃ post, tokens = beforeBlame tokens ++ t :: post) ∧
        (d.token? = none → beforeBlame tokens = tokens) ∧
        ((∃ t ∈ tokens, t.kind = .unknown ∨ t.kind = .comment) ∨
            NestsWithin nestingLimit (beforeBlame tokens) →
          ∃ d', parse tokens = .error (.diagnostic d') ∧ Echoes tokens d d')) ∧
    ((∀ t ∈ tokens, t.kind ≠ .unknown ∧ t.kind ≠ .comment) →
      ¬ NestsWithin nestingLimit (beforeBlame tokens) →
        ∃ d, parse tokens = .error (.diagnostic d) ∧ d.level = .syntactic ∧
          d.message = "Expression is too deeply nested".toList ∧ d.token? = tokens.head?) := by
  refine ⟨fun hc => ⟨beforeBlame_of_checkForm hc, exists_parse_of_checkForm hs hc⟩,
    fun f hc => parse_echoes_checkForm hs hc, fun hk hn => ?_⟩
  have hscreen : ∀ t ∈ tokens, t.screened = true := by simpa [Token.screened] using hk
  obtain ⟨first, hfirst, hp⟩ := parse_tooDeep hs hscreen hn
  exact ⟨.tooDeep first, hp, rfl, rfl, hfirst.symm⟩

theorem parse_agrees_on_brackets :
    let o : Token := ⟨.bracketOpen, ['('], 0⟩
    let c : Token := ⟨.bracketClose, [')'], 2⟩
    let n : Token := ⟨.hexNumber, ['1'], 1⟩
    (∃ e, parse [o, n, c] = .ok e) ∧
    (∃ d', parse [o, n] = .error (.diagnostic d') ∧ Echoes [o, n] (.missingClosing none) d') ∧
    ∃ d, parse (List.replicate 329 o) = .error (.diagnostic d) ∧ d.level = .syntactic ∧
      d.message = "Expression is too deeply nested".toList ∧
      d.token? = (List.replicate 329 o).head? := by
  intro o c n
  have hplain : ∀ ts : List Token, (∀ t ∈ ts, t.kind ≠ .operator) → Signed ts :=
    fun ts h t ht hk => absurd hk (h t ht)
  have hclosed := parse_agrees_with_checkForm (hplain [o, n, c] (by decide))
  have hopen := parse_agrees_with_checkForm (hplain [o, n] (by decide))
  have hdeep := parse_agrees_with_checkForm (hplain (List.replicate 329 o)
    (fun t ht => by rw [List.eq_of_mem_replicate ht]; decide))
  refine ⟨(hclosed.1 (by decide)).2 (by decide), ?_, hdeep.2.2 ?_ ?_⟩
  · obtain ⟨d, hd, -, -, -, he⟩ := hopen.2.1 (.diagnostic (.missingClosing none)) (by decide)
    obtain rfl : Diagnostic.missingClosing none = d := by simpa using hd
    exact he (.inr (by decide))
  · intro t ht
    rw [List.eq_of_mem_replicate ht]
    decide
  · exact fun hn => absurd hn.openCount_le (by decide +kernel)

end HexLang
