import HexLang.Precedence
import HexLang.Table

/-! The value of an expression over a table of variables: exact integers,
and a quotient rounded to the floor. -/

namespace HexLang

def BinaryOperator.apply (o : BinaryOperator) (t : Token) (a b : Int) : Except Fault Int :=
  match o with
  | .add => .ok (a + b)
  | .sub => .ok (a - b)
  | .mul => .ok (a * b)
  | .div => if b = 0 then refuse (.divisionByZero t) else .ok (a.fdiv b)

def Table.find (table : Table) (name : Text) (t : Token) : Except Fault Int :=
  match table.get? name with
  | some v => .ok v
  | none => refuse (.undefinedVariable name t)

/-- The left operand comes first, and the operator after both operands. -/
def Expr.value (table : Table) : Expr → Except Fault Int
  | .number v _ => .ok v
  | .var name t => table.find name t
  | .binary o l r t => do
    let a ← l.value table
    let b ← r.value table
    o.apply t a b
  | .stray text => .error (.strayLeaf text)

/-- What is left to do: visit an expression, or apply an operator to the last two results. -/
inductive Task where
  | visit (e : Expr)
  | apply (o : BinaryOperator) (t : Token)

def Expr.nodes : Expr → Nat
  | .binary _ l r _ => l.nodes + r.nodes + 1
  | _ => 1

def Task.cost : Task → Nat
  | .visit e => 2 * e.nodes
  | .apply _ _ => 1

/-- Does the tasks in order on a stack of results, so that a long chain of operators needs no
deep recursion. -/
def perform (table : Table) : List Task → List Int → Except Fault Int
  | [], [] => .error .emptyStack
  | [], v :: _ => .ok v
  | .visit (.number v _) :: tasks, results => perform table tasks (v :: results)
  | .visit (.var name t) :: tasks, results =>
    match table.find name t with
    | .ok v => perform table tasks (v :: results)
    | .error f => .error f
  | .visit (.binary o l r t) :: tasks, results =>
    perform table (.visit l :: .visit r :: .apply o t :: tasks) results
  | .visit (.stray text) :: _, _ => .error (.strayLeaf text)
  | .apply o t :: tasks, b :: a :: results =>
    match o.apply t a b with
    | .ok v => perform table tasks (v :: results)
    | .error f => .error f
  | .apply _ _ :: _, _ => .error .emptyStack
termination_by tasks => tasks.foldr (·.cost + ·) 0
decreasing_by all_goals simp only [List.foldr_cons, Task.cost, Expr.nodes]; omega

def evaluateExpr (table : Table) (e : Expr) : Except Fault Int :=
  perform table [.visit e] []

theorem perform_visit (table : Table) (e : Expr) (tasks : List Task) (results : List Int) :
    perform table (.visit e :: tasks) results =
      match e.value table with
      | .ok v => perform table tasks (v :: results)
      | .error f => .error f := by
  induction e generalizing tasks results with
  | number v t => rw [perform]; rfl
  | var name t => rw [perform]; rfl
  | stray text => rw [perform]; rfl
  | binary o l r t ihl ihr =>
    rw [perform, ihl]
    simp only [Expr.value, bind, Except.bind]
    cases l.value table with
    | error f => rfl
    | ok a =>
      simp only [ihr]
      cases r.value table with
      | error f => rfl
      | ok b => simp only [perform]

/-- The whole expression is read before any of it is valued. -/
def evaluate (table : Table) (tokens : List Token) : Except Fault Int := do
  let e ← parse tokens
  evaluateExpr table e

end HexLang
