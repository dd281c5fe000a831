import OncRpc.Rpcgen.Cout
import OncRpc.Xdr.Stream
import Mathlib.Data.List.Basic

/-! `emit_struct` of `rpc_cout.c` with inline code: the lines it prints, and what a run of the
printed routine does with the members. -/
namespace OncRpc.Rpcgen

/-- `PUT` and `GET`. -/
inductive InlineFlag where
  | put
  | get
  deriving DecidableEq, Repr

/-- What the printed size of a run is made of. -/
inductive SizeAtom where
  | num (n : Int)
  | amax (text : String)
  | bytesPerXdrUnit
  deriving DecidableEq, Repr

/-- The conditions of the printed `if`s: on `xdrs->x_op`, and `buf == NULL`. -/
inductive Cond where
  | encode
  | decode
  | bufNull
  deriving DecidableEq, Repr

/-- The lines of a routine, and where rpcgen does not get on. -/
inductive CoutLine where
  | ifstat (s : IfStat)
  | bufDecl
  | xdrInline (arg : List (ExprToken SizeAtom))
  | openIf (c : Cond)
  | elseIf (c : Cond)
  | elseRest
  | endIf
  | single (flag : InlineFlag) (ixdr : String) (member : String)
  | loop (flag : InlineFlag) (ixdr : String) (type member bound : String)
  | stuck
  deriving DecidableEq, Repr

/-- `struct bas_type`. -/
structure BasType where
  name : String
  length : Int
  deriving DecidableEq, Repr

/-- The types that `c_initialize` adds. -/
def cInitialize : List BasType :=
  [⟨"int", 1⟩, ⟨"long", 1⟩, ⟨"short", 1⟩, ⟨"bool", 1⟩, ⟨"u_int", 1⟩, ⟨"u_long", 1⟩, ⟨"u_short", 1⟩]

def findType (type : String) : Option BasType := cInitialize.find? fun ptr => ptr.name = type

def upcase (str : String) : String := String.ofList (str.toList.map Char.toUpper)

/-- The macro that `emit_single_in_line` prints. -/
def emitSingleInLine (dec : Declaration) (flag : InlineFlag) : String :=
  let uppCase := upcase dec.type
  let uppCase :=
    if uppCase = "INT" then "INT32" else if uppCase = "U_INT" then "U_INT32" else uppCase
  match flag with
  | .put => "IXDR_PUT_" ++ uppCase
  | .get => "IXDR_GET_" ++ uppCase

/-- `emit_inline`. -/
def emitInline (flag : InlineFlag) (dec : Declaration) : CoutLine :=
  match dec.rel with
  | .alias => .single flag (emitSingleInLine dec flag) dec.name
  | .vector => .loop flag (emitSingleInLine dec flag) dec.type dec.name dec.arrayMax
  | _ => .stuck

/-- The test for the members that may be inlined. -/
def inlinable (dec : Declaration) : Option BasType :=
  if dec.prefixWord = none ∧ (dec.rel = .alias ∨ dec.rel = .vector) then findType dec.type else none

/-- The locals of `emit_struct` in its walk down the members. -/
structure RunState where
  i : Nat
  size : Int
  sizestr : Option (List (ExprToken SizeAtom))
  cur : List Declaration

/-- The members from `cur` up to `dl`, which is further down the same list. -/
def membersUntil (cur dl : List Declaration) : List Declaration :=
  cur.take (cur.length - dl.length)

/-- What is printed into `ptemp`. -/
def ptempText (sizestr : Option (List (ExprToken SizeAtom))) (dec : Declaration) (length : Int) :
    List (ExprToken SizeAtom) :=
  (if sizestr = none then [] else [.plus]) ++
    .atom (.amax dec.arrayMax) :: if length ≠ 1 then [.times, .atom (.num length)] else []

/-- How many bytes of `ptemp` that takes. -/
def ptempSize (sizestr : Option (List (ExprToken SizeAtom))) (dec : Declaration) (length : Int) :
    Nat :=
  (if sizestr = none then 0 else 3) + dec.arrayMax.length +
    (if length ≠ 1 then 3 + (toString length).length else 0) + 1

/-- The argument of `XDR_INLINE`. -/
def inlineArg (size : Int) (sizestr : Option (List (ExprToken SizeAtom))) :
    List (ExprToken SizeAtom) :=
  match sizestr with
  | none => [.atom (.num size), .times, .atom .bytesPerXdrUnit]
  | some str =>
      if size = 0 then str ++ [.times, .atom .bytesPerXdrUnit]
      else
        [.lparen, .atom (.num size), .plus] ++ str ++ [.rparen, .times, .atom .bytesPerXdrUnit]

section Emit

variable (defined : List Definition) (stale : String) (doinline : Int)

/-- The line for a call of `print_stat`. -/
def statLine (dec : Declaration) : CoutLine :=
  match printStat defined stale dec with
  | some s => .ifstat s
  | none => .stuck

/-- What is printed when a run ends at `dl`. -/
def flushRun (flag : InlineFlag) (st : RunState) (dl : List Declaration) : List CoutLine :=
  let run := membersUntil st.cur dl
  if st.sizestr = none ∧ st.size < doinline then run.map (statLine defined stale)
  else
    [.xdrInline (inlineArg st.size st.sizestr), .openIf .bufNull] ++
      run.map (statLine defined stale) ++ [.elseRest] ++ run.map (emitInline flag) ++ [.endIf]

/-- The loop over the members, for the encoding and for the decoding branch. -/
def emitBranch (flag : InlineFlag) : List Declaration → RunState → List CoutLine
  | [], st => if 0 < st.i then flushRun defined stale doinline flag st [] else []
  | d :: dl, st =>
      match inlinable d with
      | some ptr =>
          let st := { st with cur := if st.i = 0 then d :: dl else st.cur, i := st.i + 1 }
          if d.rel = .alias then emitBranch flag dl { st with size := st.size + ptr.length }
          else if 256 < ptempSize st.sizestr d ptr.length then [.stuck]
          else
            emitBranch flag dl
              { st with
                sizestr := some (st.sizestr.getD [] ++ ptempText st.sizestr d ptr.length) }
      | none =>
          (if 0 < st.i then flushRun defined stale doinline flag st (d :: dl) else []) ++
            statLine defined stale d ::
              emitBranch flag dl { st with i := 0, size := 0, sizestr := none }

/-- The loop that finds out whether inline code is worth it. -/
def canInline : List Declaration → Int → Bool
  | [], size => decide (size > doinline)
  | d :: dl, size =>
      match inlinable d with
      | some ptr => if d.rel = .alias then canInline dl (size + ptr.length) else true
      | none => if size ≥ doinline then true else canInline dl 0

/-- `emit_struct`. -/
def emitStruct (decls : List Declaration) : List CoutLine :=
  if doinline = 0 then decls.map (statLine defined stale)
  else if canInline doinline decls 0 = false then decls.map (statLine defined stale)
  else
    [.bufDecl, .openIf .encode] ++ emitBranch defined stale doinline .put decls ⟨0, 0, none, []⟩ ++
      [.elseIf .decode] ++ emitBranch defined stale doinline .get decls ⟨0, 0, none, []⟩ ++
      [.elseRest] ++ decls.map (statLine defined stale) ++ [.endIf]

end Emit

end OncRpc.Rpcgen
