import Mathlib.Algebra.BigOperators.Group.List.Basic
import Mathlib.Algebra.Ring.Int.Defs
import Mathlib.Data.List.Induction

/-! Expressions with sums and products as they are written, where products bind tighter. -/
namespace OncRpc

variable {α : Type*}

/-- A symbol of an expression. -/
inductive ExprToken (α : Type*) where
  | atom (a : α)
  | plus
  | times
  | lparen
  | rparen
  deriving DecidableEq, Repr

/-- What is known in the middle of an expression: the terms of the sum that are complete, the
product that the next factor goes to, and both for each parenthesis around. -/
structure ExprState where
  sum : Int
  prod : Int
  outer : List (Int × Int)
  wantsFactor : Bool
  deriving DecidableEq, Repr

def ExprState.start : ExprState := ⟨0, 1, [], true⟩

/-- Go on by one symbol. -/
def ExprToken.read (value : α → Int) (s : ExprState) : ExprToken α → Option ExprState
  | .atom a =>
      if s.wantsFactor then some { s with prod := s.prod * value a, wantsFactor := false } else none
  | .lparen =>
      if s.wantsFactor then some ⟨0, 1, (s.sum, s.prod) :: s.outer, true⟩ else none
  | .plus => if s.wantsFactor then none else some ⟨s.sum + s.prod, 1, s.outer, true⟩
  | .times => if s.wantsFactor then none else some { s with wantsFactor := true }
  | .rparen =>
      match s.outer with
      | [] => none
      | (sum, prod) :: outer =>
          if s.wantsFactor then none else some ⟨sum, prod * (s.sum + s.prod), outer, false⟩

/-- The state after some symbols. -/
def readExpr (value : α → Int) (s : ExprState) (ts : List (ExprToken α)) : Option ExprState :=
  ts.foldlM (ExprToken.read value) s

/-- The value of an expression, if it is one. -/
def evalExpr (value : α → Int) (ts : List (ExprToken α)) : Option Int :=
  (readExpr value .start ts).bind fun s =>
    if s.wantsFactor = false ∧ s.outer = [] then some (s.sum + s.prod) else none

example : evalExpr id [.atom 2, .plus, .atom 3, .times, .atom 4] = some 14 := by decide

variable {value : α → Int}

theorem readExpr_append (s : ExprState) (ts us : List (ExprToken α)) :
    readExpr value s (ts ++ us) = (readExpr value s ts).bind fun s => readExpr value s us :=
  List.foldlM_append

@[simp] theorem readExpr_nil (s : ExprState) : readExpr value s [] = some s := rfl

@[simp] theorem readExpr_cons (s : ExprState) (t : ExprToken α) (ts : List (ExprToken α)) :
    readExpr value s (t :: ts) = (t.read value s).bind fun s => readExpr value s ts := rfl

/-- The atoms with a plus before each but the first. -/
def sumOf : List α → List (ExprToken α)
  | [] => []
  | a :: as => .atom a :: as.flatMap fun b => [.plus, .atom b]

theorem sumOf_concat {as : List α} (h : as ≠ []) (b : α) :
    sumOf (as ++ [b]) = sumOf as ++ [.plus, .atom b] := by
  cases as with
  | nil => exact absurd rfl h
  | cons a as => simp [sumOf]

/-- A sum leaves its last term for the factors that may follow. -/
theorem readExpr_sumOf (as : List α) (b : α) (sum : Int) (outer : List (Int × Int)) :
    readExpr value ⟨sum, 1, outer, true⟩ (sumOf (as ++ [b])) =
      some ⟨sum + (as.map value).sum, value b, outer, false⟩ := by
  induction as using List.reverseRecOn generalizing b with
  | nil => simp [sumOf, ExprToken.read]
  | append_singleton as a ih =>
      rw [sumOf_concat (by simp), readExpr_append, ih]
      simp [ExprToken.read, add_assoc]

/-- A product behind a sum takes the last term of the sum only. -/
theorem evalExpr_sumOf_times (as : List α) (b c : α) :
    evalExpr value (sumOf (as ++ [b]) ++ [.times, .atom c]) =
      some ((as.map value).sum + value b * value c) := by
  rw [evalExpr, readExpr_append, ExprState.start, readExpr_sumOf]
  simp [ExprToken.read]

/-- In parentheses it takes the whole sum. -/
theorem evalExpr_paren_times (as : List α) (b c : α) :
    evalExpr value (.lparen :: sumOf (as ++ [b]) ++ [.rparen, .times, .atom c]) =
      some (((as.map value).sum + value b) * value c) := by
  rw [evalExpr, List.cons_append, readExpr_cons]
  simp only [ExprToken.read, ExprState.start, if_true, Option.bind_some]
  rw [readExpr_append, readExpr_sumOf]
  simp [ExprToken.read]

end OncRpc
