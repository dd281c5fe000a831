import OncRpc.Base.CTypes
import OncRpc.Rpcgen.Cout

/-! `rpc_util.c` and `rpc_hout.c`: the types that rpcgen prints, and the declarations in the
header. -/
namespace OncRpc.Rpcgen

/-- `fixit`, for as many typedefs. -/
def fixitSteps (defined : List Definition) : Nat → String → String → Option String
  | n, type, orig =>
      match (defined.find? fun d => d.defName = type).map Definition.body with
      | some (.typedef ty) =>
          match ty.rel with
          | .vector => some ty.oldType
          | .alias =>
              match n with
              | 0 => none
              | n + 1 => fixitSteps defined n ty.oldType orig
          | _ => some orig
      | _ => some orig

/-- `fixtype`. There is no result where the typedefs lead in a circle. -/
def fixtype (defined : List Definition) (type : String) : Option String :=
  fixitSteps defined defined.length type type

/-- A type with a word before it, or without one. -/
def worded (word : Option String) (s : String) : CType :=
  match word with
  | none => .name s
  | some k => .tag k s

/-- The type that `ptypedef` prints for the old one. -/
def oldWord (old : String) : String :=
  if old = "string" ∨ old = "opaque" then "char" else if old = "bool" then "bool_t" else old

/-- A structure that holds the length of an array and its elements. -/
def lenVal (name : String) (elem : CType) : CType :=
  .record [(name ++ "_len", .name "unsigned int"), (name ++ "_val", .pointer elem)]

/-- A type that is made from another one. -/
def related (rel : Relation) (name : String) (elem : CType) (amax : String) : CType :=
  match rel with
  | .array => lenVal name elem
  | .pointer => .pointer elem
  | .vector => .array elem amax
  | .alias => elem

/-- Does `pdeclaration` print `struct` by itself? -/
def ownStruct (name : String) (dec : Declaration) : Bool :=
  decide (dec.type = name ∧ dec.prefixWord = none)

/-- The word that `pdeclaration` prints before the type. -/
def declWord (name : String) (dec : Declaration) : Option String :=
  if ownStruct name dec then some "struct"
  else if dec.type = "string" ∨ dec.type = "bool" ∨ dec.type = "opaque" then none
  else dec.prefixWord

/-- The type that `pdeclaration` prints. -/
def declType (name : String) (dec : Declaration) : CType :=
  if dec.type = "string" then .pointer (worded (declWord name dec) "char")
  -- The word comes before the structure of the array, which makes `struct struct`.
  else if dec.rel = .array ∧ ownStruct name dec = true then .tag "struct" "struct"
  else related dec.rel dec.name (worded (declWord name dec) (oldWord dec.type)) dec.arrayMax

/-- `pdeclaration`, unless it prints nothing. -/
def pdeclaration (name : String) (dec : Declaration) : Option (String × CType) :=
  if dec.type = "void" then none else some (dec.name, declType name dec)

/-- Does the routine that `print_funcdef` declares take a pointer to the type? -/
def funcPointerp (defined : List Definition) (d : Definition) : Option Bool :=
  match d.body with
  | .typedef ty => (isvectordef defined ty.oldType ty.rel).map not
  | _ => some true

end OncRpc.Rpcgen
