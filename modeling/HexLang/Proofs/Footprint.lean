import HexLang.Proofs.Verdict

/-! What a statement reads and writes. Its verdict depends on a table only
through the names it reads, and changes at most the name it writes, so two
statements commute if neither writes what the other reads or writes. -/

namespace HexLang

/-- The tokens of the expression in a trimmed statement. An assignment to no name is refused
before its right side is read. -/
def expressionTokens (d : Dialect) (raw : Text) : List Token :=
  match Statement.ofText d raw with
  | .comment => []
  | .assignment target start right => if isName target then lex d.commentMarker start right else []
  | .expression => lex d.commentMarker 0 raw

def reads (d : Dialect) (raw : Text) : List Text :=
  ((expressionTokens d raw).filter fun t => t.kind = .identifier).map Token.text

def writes (d : Dialect) (raw : Text) : List Text :=
  match Statement.ofText d raw with
  | .assignment target _ _ => if isName target then [target] else []
  | _ => []

/-- One of the statements writes a name that the other reads or writes. -/
def Dependent (d : Dialect) (raw raw' : Text) : Prop :=
  (∃ x ∈ writes d raw, x ∈ reads d raw' ∨ x ∈ writes d raw') ∨ ∃ x ∈ writes d raw', x ∈ reads d raw

instance (d : Dialect) (raw raw' : Text) : Decidable (Dependent d raw raw') :=
  inferInstanceAs (Decidable (_ ∨ _))

/-- For each name among the tokens, both tables hold one value or neither holds any. -/
def AgreeOn (tokens : List Token) (table table' : Table) : Prop :=
  ∀ t ∈ tokens, t.kind = .identifier → table'.get? t.text = table.get? t.text

instance (tokens : List Token) (table table' : Table) : Decidable (AgreeOn tokens table table') :=
  inferInstanceAs (Decidable (∀ t ∈ tokens, t.kind = .identifier → _))

def Table.rebind (table : Table) : Option (Text × Int) → Table
  | some (name, v) => table.insert name v
  | none => table

section Names

variable {d : Dialect} {raw before after : Text}

theorem expressionTokens_of_assigns (ha : Assigns d raw before after)
    (hn : isName (trim before) = true) : expressionTokens d raw = rightTokens d before after := by
  rw [expressionTokens, ha.ofText_eq]
  exact if_pos hn

theorem expressionTokens_of_bare (hb : Bare d raw) :
    expressionTokens d raw = lex d.commentMarker 0 raw := by
  rw [expressionTokens, hb.ofText_eq]

theorem mem_writes_of_assigns (ha : Assigns d raw before after)
    (hn : isName (trim before) = true) : trim before ∈ writes d raw := by
  rw [writes, ha.ofText_eq]
  simp [hn]

theorem mem_reads_iff {x : Text} :
    x ∈ reads d raw ↔ ∃ t ∈ expressionTokens d raw, t.kind = .identifier ∧ t.text = x := by
  simp [reads, and_assoc]

theorem agreeOn_expressionTokens_iff {table table' : Table} :
    AgreeOn (expressionTokens d raw) table table' ↔
      ∀ x ∈ reads d raw, table'.get? x = table.get? x := by
  constructor
  · intro h x hx
    obtain ⟨t, ht, hk, rfl⟩ := mem_reads_iff.mp hx
    exact h t ht hk
  · exact fun h t ht hk => h t.text (mem_reads_iff.mpr ⟨t, ht, hk, rfl⟩)

end Names

section Tables

theorem Table.insert_comm {name other : Text} (h : name ≠ other) (table : Table) (v w : Int) :
    (table.insert name v).insert other w = (table.insert other w).insert name v := by
  apply Table.ext_get?
  intro x
  by_cases hx : x = name
  · subst hx
    rw [Table.get?_insert_of_ne h, Table.get?_insert_self, Table.get?_insert_self]
  · rw [Table.get?_insert_of_ne hx]
    by_cases hy : x = other
    · subst hy
      rw [Table.get?_insert_self, Table.get?_insert_self]
    · rw [Table.get?_insert_of_ne hy, Table.get?_insert_of_ne hx, Table.get?_insert_of_ne hy]

theorem Table.get?_rebind_of_ne {x : Text} {binding : Option (Text × Int)}
    (h : ∀ v, binding ≠ some (x, v)) (table : Table) :
    (table.rebind binding).get? x = table.get? x := by
  cases binding with
  | none => rfl
  | some entry =>
    obtain ⟨name, v⟩ := entry
    have hne : x ≠ name := by
      rintro rfl
      exact h v rfl
    exact Table.get?_insert_of_ne hne table v

theorem Table.rebind_comm {binding binding' : Option (Text × Int)}
    (h : ∀ x v w, binding = some (x, v) → binding' ≠ some (x, w)) (table : Table) :
    (table.rebind binding).rebind binding' = (table.rebind binding').rebind binding := by
  cases binding with
  | none => rfl
  | some entry =>
    cases binding' with
    | none => rfl
    | some entry' =>
      obtain ⟨name, v⟩ := entry
      obtain ⟨other, w⟩ := entry'
      have hne : name ≠ other := by
        rintro rfl
        exact h name v w rfl rfl
      exact Table.insert_comm hne table v w

end Tables

section Reading

variable {table table' : Table}

theorem Derives.value_congr {tier : Tier} {ts : List Token} {e : Expr} (h : Derives tier ts e)
    (ha : AgreeOn ts table table') :
    e.value table' = e.value table := by
  induction h with
  | literal _ _ => rfl
  | @name t hk _ =>
    have ht := ha t List.mem_cons_self hk
    simp only [Expr.value, Table.find, ht]
  | group _ _ _ ih => exact ih fun t ht => ha t (by simp [ht])
  | factor _ ih => exact ih ha
  | product _ ih => exact ih ha
  | scale _ _ _ _ ihl ihr | add _ _ _ _ ihl ihr =>
    have hl := ihl fun t ht => ha t (by simp [ht])
    have hr := ihr fun t ht => ha t (by simp [ht])
    rw [Expr.value, Expr.value, hl, hr]

/-- Tokens have the same value over two tables that agree on their names. -/
theorem evaluate_congr {tokens : List Token} (ha : AgreeOn tokens table table') :
    evaluate table' tokens = evaluate table tokens := by
  cases hp : parse tokens with
  | error f => simp only [evaluate, hp, bind, Except.bind]
  | ok e => rw [evaluate_of_parse hp, evaluate_of_parse hp, (derives_of_parse hp).value_congr ha]

theorem evaluate_expressionTokens {d : Dialect} {raw : Text} {tokens : List Token}
    (ht : expressionTokens d raw = tokens)
    (h : ∀ x ∈ reads d raw, table'.get? x = table.get? x) :
    evaluate table' tokens = evaluate table tokens :=
  ht ▸ evaluate_congr (agreeOn_expressionTokens_iff.mpr h)

end Reading

section Verdict

variable {d : Dialect} {table mid after : Table} {raw raw' : Text} {o o' : Outcome}

/-- A verdict holds over every table that agrees on what the statement reads, and has the same
effect on each: one binding, of a name that the statement writes, or none. -/
theorem Judged.exists_binding (h : Judged d table raw o after) :
    ∃ binding : Option (Text × Int), after = table.rebind binding ∧
      (∀ x v, binding = some (x, v) → x ∈ writes d raw) ∧
      ∀ table' : Table, (∀ x ∈ reads d raw, table'.get? x = table.get? x) →
        Judged d table' raw o (table'.rebind binding) := by
  have hnone : ∀ x v, (none : Option (Text × Int)) = some (x, v) → x ∈ writes d raw :=
    fun _ _ hb => nomatch hb
  cases h with
  | comment hp => exact ⟨none, rfl, hnone, fun _ _ => .comment hp⟩
  | badTarget ha hn => exact ⟨none, rfl, hnone, fun _ _ => .badTarget ha hn⟩
  | @assigned before _ v ha hn hv =>
    refine ⟨some (trim before, v), rfl, fun x w hb => ?_, fun table' hagree => ?_⟩
    · obtain ⟨rfl, -⟩ := Prod.mk.inj (Option.some.inj hb)
      exact mem_writes_of_assigns ha hn
    · have hsame := evaluate_expressionTokens (expressionTokens_of_assigns ha hn) hagree
      exact .assigned ha hn (hsame.trans hv)
  | unassigned ha hn hd =>
    refine ⟨none, rfl, hnone, fun table' hagree => ?_⟩
    have hsame := evaluate_expressionTokens (expressionTokens_of_assigns ha hn) hagree
    exact .unassigned ha hn (hsame.trans hd)
  | empty hb hl => exact ⟨none, rfl, hnone, fun _ _ => .empty hb hl⟩
  | valued hb hl hv =>
    refine ⟨none, rfl, hnone, fun table' hagree => ?_⟩
    have hsame := evaluate_expressionTokens (expressionTokens_of_bare hb) hagree
    exact .valued hb hl (hsame.trans hv)
  | unvalued hb hl hd =>
    refine ⟨none, rfl, hnone, fun table' hagree => ?_⟩
    have hsame := evaluate_expressionTokens (expressionTokens_of_bare hb) hagree
    exact .unvalued hb hl (hsame.trans hd)

/-- Two statements that are not dependent may be judged in either order. -/
theorem Judged.swap (h : Judged d table raw o mid) (h' : Judged d mid raw' o' after)
    (hi : ¬ Dependent d raw raw') :
    ∃ mid', Judged d table raw' o' mid' ∧ Judged d mid' raw o after := by
  obtain ⟨binding, rfl, hwrites, hover⟩ := h.exists_binding
  obtain ⟨binding', rfl, hwrites', hover'⟩ := h'.exists_binding
  have hfirst : ∀ x ∈ reads d raw', table.get? x = (table.rebind binding).get? x := by
    intro x hx
    refine (Table.get?_rebind_of_ne (fun v hb => hi ?_) table).symm
    exact .inl ⟨x, hwrites x v hb, .inl hx⟩
  have hsecond : ∀ x ∈ reads d raw, (table.rebind binding').get? x = table.get? x := by
    intro x hx
    refine Table.get?_rebind_of_ne (fun v hb => hi ?_) table
    exact .inr ⟨x, hwrites' x v hb, hx⟩
  have hcomm : (table.rebind binding).rebind binding' = (table.rebind binding').rebind binding := by
    refine Table.rebind_comm (fun x v w hb hb' => hi ?_) table
    exact .inl ⟨x, hwrites x v hb, .inr (hwrites' x w hb')⟩
  rw [hcomm]
  exact ⟨_, hover' table hfirst, hover (table.rebind binding') hsecond⟩

end Verdict

end HexLang
