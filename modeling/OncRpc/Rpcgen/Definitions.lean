import Mathlib.Tactic.Common

/-! `rpc_parse.h` and `rpc_util.c`: the definitions that rpcgen reads, and what it looks up in
the list of them. -/
namespace OncRpc.Rpcgen

/-- `enum relation`. -/
inductive Relation where
  | vector
  | array
  | pointer
  | alias
  deriving DecidableEq, Repr

/-- `struct declaration`. A name that is NULL is empty. -/
structure Declaration where
  prefixWord : Option String
  type : String
  name : String
  rel : Relation
  arrayMax : String
  deriving DecidableEq, Repr

/-- `struct enumval_list`, one value of it. -/
structure EnumVal where
  name : String
  assignment : Option String
  deriving DecidableEq, Repr

/-- `struct case_list`, one case of it. -/
structure Case where
  caseName : String
  contflag : Bool
  caseDecl : Declaration
  deriving DecidableEq, Repr

/-- `struct union_def`. -/
structure UnionDef where
  enumDecl : Declaration
  cases : List Case
  defaultDecl : Option Declaration
  deriving DecidableEq, Repr

/-- `struct typedef_def`. -/
structure TypedefDef where
  oldPrefix : Option String
  oldType : String
  rel : Relation
  arrayMax : String
  deriving DecidableEq, Repr

/-- `struct arg_list`. -/
structure ArgList where
  argname : String
  decls : List Declaration
  deriving DecidableEq, Repr

/-- `struct proc_list`, one procedure of it. -/
structure Proc where
  procName : String
  procNum : String
  args : ArgList
  argNum : Nat
  resType : String
  resPrefix : Option String
  deriving DecidableEq, Repr

/-- `struct version_list`, one version of it. -/
structure Version where
  versName : String
  versNum : String
  procs : List Proc
  deriving DecidableEq, Repr

/-- `struct program_def`. -/
structure ProgramDef where
  progNum : String
  versions : List Version
  deriving DecidableEq, Repr

/-- The union of `struct definition`, with `def_kind`. -/
inductive DefBody where
  | const (co : String)
  | struct (decls : List Declaration)
  | union (un : UnionDef)
  | enum (vals : List EnumVal)
  | typedef (ty : TypedefDef)
  | program (pr : ProgramDef)
  deriving DecidableEq, Repr

/-- `struct definition`. -/
structure Definition where
  defName : String
  body : DefBody
  deriving DecidableEq, Repr

/-- `typedefed`: the typedef without a prefix that the name stands for. -/
def typedefed (type : String) (d : Definition) : Option TypedefDef :=
  match d.body with
  | .typedef ty => if ty.oldPrefix = none ∧ d.defName = type then some ty else none
  | _ => none

/-- The loop of `isvectordef`, for as many typedefs. -/
def isvectordefSteps (defined : List Definition) : Nat → String → Relation → Option Bool
  | _, type, .vector => some (decide (type ≠ "string"))
  | _, _, .array => some false
  | _, _, .pointer => some false
  | n, type, .alias =>
      match defined.findSome? (typedefed type) with
      | none => some false
      | some ty =>
          match n with
          | 0 => none
          | n + 1 => isvectordefSteps defined n ty.oldType ty.rel

/-- `isvectordef`. There is no result where the typedefs lead in a circle: a way through more
typedefs than there are does not end. -/
def isvectordef (defined : List Definition) (type : String) (rel : Relation) : Option Bool :=
  isvectordefSteps defined defined.length type rel

end OncRpc.Rpcgen
