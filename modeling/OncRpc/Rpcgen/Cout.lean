import OncRpc.Base.Expression
import OncRpc.Rpcgen.Definitions

/-! `rpc_cout.c`: the statements that the XDR routines are printed with. -/
namespace OncRpc.Rpcgen

/-- A step of a path to a member. -/
inductive Access where
  | arrow (member : String)
  | dot (member : String)
  deriving DecidableEq, Repr

/-- The printed name of an object: `objp` and a path, perhaps behind `&`. -/
structure ObjName where
  amp : Bool
  path : List Access
  deriving DecidableEq, Repr

/-- An argument that is printed for a filter. -/
inductive IfArg where
  /-- An object, behind a cast. -/
  | obj (cast : String) (name : ObjName)
  | num (text : String)
  /-- The size of an element and the routine for it. -/
  | sizeof (prefixWord : Option String) (type : String) (proc : String)
  deriving DecidableEq, Repr

/-- `if (!xdr_proc(xdrs, args)) return (FALSE);` -/
structure IfStat where
  proc : String
  args : List IfArg
  deriving DecidableEq, Repr

/-- The names whose `_t` is taken away, the last of them with a slip. -/
def kludged : List String :=
  ["rpcprog_t", "rpcvers_t", "rpcproc_t", "rpcprot_t", "rpcport_t", "rpcpinline_t"]

/-- `print_ifopen`. What is copied of a name is not ended, so that the buffer's old contents
follow. -/
def printIfopen (stale : String) (name : String) : String :=
  if name ∈ kludged then String.ofList (name.toList.take (name.length - 2)) ++ stale else name

/-- `undefined`, with `findtype`. -/
def undefined (defined : List Definition) (type : String) : Bool :=
  !defined.any fun d =>
    match d.body with
    | .program _ => false
    | .const _ => false
    | _ => decide (d.defName = type)

/-- `print_ifsizeof`. -/
def printIfsizeof (defined : List Definition) (prefixWord : Option String) (type : String) :
    IfArg :=
  if type = "bool" then .sizeof none "bool_t" "bool"
  else .sizeof (if undefined defined type then prefixWord else none) type type

section Statements

variable (defined : List Definition) (stale : String)

/-- `print_ifstat`. -/
def printIfstat (prefixWord : Option String) (type : String) (rel : Relation) (amax : String)
    (objname : ObjName) (name : String) : IfStat :=
  match rel with
  | .pointer =>
      ⟨printIfopen stale "pointer",
        [.obj "(char **)(void *)" objname, printIfsizeof defined prefixWord type]⟩
  | .vector =>
      if type = "string" then ⟨printIfopen stale "string", [.obj "" objname, .num amax]⟩
      else if type = "opaque" then ⟨printIfopen stale "opaque", [.obj "" objname, .num amax]⟩
      else
        ⟨printIfopen stale "vector",
          [.obj "(char *)(void *)" objname, .num amax, printIfsizeof defined prefixWord type]⟩
  | .array =>
      if type = "string" then ⟨printIfopen stale "string", [.obj "" objname, .num amax]⟩
      else
        let val := name ++ "_val"
        let len := name ++ "_len"
        let objs : List IfArg :=
          if objname.amp then
            [.obj "(char **)(void *)" ⟨true, objname.path ++ [.dot val]⟩,
             .obj "(unsigned int *)" ⟨true, objname.path ++ [.dot len]⟩]
          else
            [.obj "(char **)(void *)" ⟨true, objname.path ++ [.arrow val]⟩,
             .obj "(unsigned int *)" ⟨true, objname.path ++ [.arrow len]⟩]
        if type = "opaque" then ⟨printIfopen stale "bytes", objs ++ [.num amax]⟩
        else ⟨printIfopen stale "array", objs ++ [.num amax, printIfsizeof defined prefixWord type]⟩
  | .alias => ⟨printIfopen stale type, [.obj "" objname]⟩

/-- The name that `print_stat` makes up, unless its buffer is overrun or the typedefs lead in a
circle. -/
def statObjname (dec : Declaration) : Option ObjName :=
  match isvectordef defined dec.type dec.rel with
  | none => none
  | some true => if dec.name.length + 6 < 256 then some ⟨false, [.arrow dec.name]⟩ else none
  | some false => if dec.name.length + 7 < 256 then some ⟨true, [.arrow dec.name]⟩ else none

/-- `print_stat`. -/
def printStat (dec : Declaration) : Option IfStat :=
  (statObjname defined dec).map fun name =>
    printIfstat defined stale dec.prefixWord dec.type dec.rel dec.arrayMax name dec.name

end Statements

end OncRpc.Rpcgen
