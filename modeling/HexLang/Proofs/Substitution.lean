import HexLang.Proofs.Blame
import HexLang.Proofs.WellFormed

/-! A variable stands for its value. Any expression of that value, set in
brackets, can take its place, wherever the variable occurs. -/

namespace HexLang

/-- Puts the bracketed body in the place of each occurrence of the name. -/
def substitute (name : Text) (o c : Token) (body tokens : List Token) : List Token :=
  tokens.flatMap fun t => if t.kind = .identifier ∧ t.text = name then o :: (body ++ [c]) else [t]

def Expr.substitute (e : Expr) (name : Text) (body : Expr) : Expr :=
  match e with
  | .var other t => if other = name then body else .var other t
  | .binary op l r t => .binary op (l.substitute name body) (r.substitute name body) t
  | e => e

section Tokens

variable {name : Text} {o c : Token} {body : List Token}

@[simp] theorem substitute_nil : substitute name o c body [] = [] := rfl

theorem substitute_cons_of_ne {t : Token} (h : ¬ (t.kind = .identifier ∧ t.text = name))
    (ts : List Token) : substitute name o c body (t :: ts) = t :: substitute name o c body ts := by
  rw [substitute, List.flatMap_cons, if_neg h]
  rfl

theorem substitute_name {t : Token} (h : t.kind = .identifier ∧ t.text = name) :
    substitute name o c body [t] = o :: (body ++ [c]) := by
  simp [substitute, h]

theorem substitute_append (ts us : List Token) :
    substitute name o c body (ts ++ us) =
      substitute name o c body ts ++ substitute name o c body us :=
  List.flatMap_append

end Tokens

/-- What is put in comes back as one factor, in every context. -/
theorem Derives.substitute {tier : Tier} {ts body : List Token} {e r : Expr} {o c : Token}
    (h : Derives tier ts e) (hr : Derives .sum body r) (ho : o.kind = .bracketOpen)
    (hc : c.kind = .bracketClose) (name : Text) :
    Derives tier (substitute name o c body ts) (e.substitute name r) := by
  induction h with
  | literal hk hl =>
    rw [substitute_cons_of_ne (by simp [hk]), substitute_nil]
    exact .literal hk hl
  | @name t hk hu =>
    by_cases hn : t.text = name
    · rw [substitute_name ⟨hk, hn⟩, Expr.substitute, if_pos hn]
      exact .group ho hc hr
    · rw [substitute_cons_of_ne (by simp [hn]), substitute_nil, Expr.substitute, if_neg hn]
      exact .name hk hu
  | group ho' hc' _ ih =>
    rw [substitute_cons_of_ne (by simp [ho']), substitute_append,
      substitute_cons_of_ne (by simp [hc']), substitute_nil]
    exact .group ho' hc' ih
  | factor _ ih => exact .factor ih
  | product _ ih => exact .product ih
  | scale _ ht htier _ ihl ihr =>
    rw [substitute_append, substitute_cons_of_ne (by simp [ht.1])]
    exact .scale ihl ht htier ihr
  | add _ ht htier _ ihl ihr =>
    rw [substitute_append, substitute_cons_of_ne (by simp [ht.1])]
    exact .add ihl ht htier ihr

theorem Expr.value_substitute {table : Table} {body : Expr} {v : Int}
    (h : body.value table = .ok v) (name : Text) (e : Expr) :
    (e.substitute name body).value table = e.value (table.insert name v) := by
  induction e with
  | number w t => rfl
  | stray text => rfl
  | var other t =>
    by_cases hn : other = name
    · rw [Expr.substitute, if_pos hn, h, hn, Expr.value, Table.find, Table.get?_insert_self]
    · rw [Expr.substitute, if_neg hn, Expr.value, Expr.value, Table.find, Table.find,
        Table.get?_insert_of_ne hn]
  | binary op l r t ihl ihr => rw [Expr.substitute, Expr.value, Expr.value, ihl, ihr]

/-- An expression that is read has a value, or a token of it withholds the value. -/
theorem evaluate_cases_of_parse {tokens : List Token} {e : Expr} (hp : parse tokens = .ok e)
    (table : Table) : (∃ w, evaluate table tokens = .ok w) ∨
      ∃ f message, ∃ t ∈ tokens, evaluate table tokens = .error f ∧ f.Withholds message t := by
  cases hv : evaluate table tokens with
  | ok w => exact .inl ⟨w, rfl⟩
  | error f =>
    have hvalue : e.value table = .error f := by rw [← evaluate_of_parse hp, hv]
    have hvalues : Values table e (.error f) := hvalue ▸ values_value table e
    obtain ⟨message, t, hf⟩ := (derives_of_parse hp).withholds hvalues
    obtain ⟨d, rfl, hl, hm, ht⟩ := hf
    have hmem : t ∈ tokens := by
      rcases evaluate_concerns hv with ⟨u, hu, hd⟩ | rfl | rfl
      · obtain rfl : u = t := Option.some.inj (hd.symm.trans ht)
        exact hu
      · cases hl
      · cases hl
    exact .inr ⟨_, message, t, hmem, rfl, d, rfl, hl, hm, ht⟩

/-- Bracketed tokens that have the value of a variable may take its place: the tokens are still
read, and end with the same value, or for the same reason at the same token. -/
theorem evaluate_substitute {tokens body : List Token} {e : Expr} {table : Table} {v : Int}
    {name : Text} {o c : Token} (hp : parse tokens = .ok e) (hb : evaluate table body = .ok v)
    (ho : o.kind = .bracketOpen) (hc : c.kind = .bracketClose)
    (hn : NestsWithin nestingLimit (substitute name o c body tokens)) :
    (∃ e', parse (substitute name o c body tokens) = .ok e') ∧
      evaluate table (substitute name o c body tokens) = evaluate (table.insert name v) tokens ∧
      ((∃ w, evaluate (table.insert name v) tokens = .ok w) ∨
        ∃ f message, ∃ t ∈ tokens, evaluate (table.insert name v) tokens = .error f ∧
          f.Withholds message t) := by
  obtain ⟨r, hr⟩ : ∃ r, parse body = .ok r := by
    cases hparse : parse body with
    | ok r => exact ⟨r, rfl⟩
    | error f => simp [evaluate, hparse, bind, Except.bind] at hb
  have hbody : r.value table = .ok v := by rw [← evaluate_of_parse hr, hb]
  have hderives := (derives_of_parse hp).substitute (derives_of_parse hr) ho hc name
  have hparse := parse_of_derives hderives hn
  refine ⟨⟨_, hparse⟩, ?_, evaluate_cases_of_parse hp _⟩
  rw [evaluate_of_parse hparse, evaluate_of_parse hp, Expr.value_substitute hbody]

theorem evaluate_substitute_nested :
    let x : Token := ⟨.identifier, ['x'], 0⟩
    let minus : Token := ⟨.operator, ['-'], 2⟩
    let slash : Token := ⟨.operator, ['/'], 4⟩
    let y : Token := ⟨.identifier, ['y'], 6⟩
    let one : Token := ⟨.hexNumber, ['1'], 8⟩
    let o : Token := ⟨.bracketOpen, ['('], 10⟩
    let c : Token := ⟨.bracketClose, [')'], 12⟩
    let tokens := [one, slash, o, x, minus, x, c]
    let body := [y, minus, one]
    let table := Table.ofList [(['x'], 9), (['y'], 3)]
    let quotient : Expr :=
      .binary .div (.number 1 one) (.binary .sub (.var ['x'] x) (.var ['x'] x) minus) slash
    (parse tokens = .ok quotient ∧ evaluate table body = .ok 2 ∧ o.kind = .bracketOpen ∧
      c.kind = .bracketClose ∧ NestsWithin nestingLimit (substitute ['x'] o c body tokens)) ∧
      (∃ e', parse (substitute ['x'] o c body tokens) = .ok e') ∧
      evaluate table (substitute ['x'] o c body tokens) =
        evaluate (table.insert ['x'] 2) tokens ∧
      ((∃ w, evaluate (table.insert ['x'] 2) tokens = .ok w) ∨
        ∃ f message, ∃ t ∈ tokens, evaluate (table.insert ['x'] 2) tokens = .error f ∧
          f.Withholds message t) := by
  intro x minus slash y one o c tokens body table quotient
  have hp : parse tokens = .ok quotient := by decide
  have hb : evaluate table body = .ok 2 := by decide +kernel
  have hn : NestsWithin nestingLimit (substitute ['x'] o c body tokens) := by decide
  exact ⟨⟨hp, hb, rfl, rfl, hn⟩, evaluate_substitute hp hb rfl rfl hn⟩

end HexLang
