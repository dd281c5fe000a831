import OncRpc.Rpcgen.Definitions
import OncRpc.Rpcgen.Scan

/-! `rpc_parse.c`: the parser. A list that is built through a pointer to its last cell is the
list of its elements, and what a local was left at is passed on where a function relies on it. -/
namespace OncRpc.Rpcgen

open Lookahead

/-- `enum defkind`. -/
inductive DefKind where
  | const
  | struct
  | union
  | enum
  | typedef
  | program
  deriving DecidableEq, Repr

def argname : String := "arg"
def argext : String := "argument"

/-- The bound of an array that has none. -/
def unbounded : String := "(unsigned int)~0"

def reservedWords : List String :=
  ["array", "bytes", "destroy", "free", "getpos", "inline", "pointer", "reference", "setpos",
   "sizeof", "union", "vector"]

def reservedTypes : List String := ["opaque", "string"]

/-- `locase`, with the array of a hundred bytes that it fills. -/
def locase (str : String) : Option String :=
  if str.length < 100 then some (String.ofList (str.toList.map Char.toLower)) else none

/-- `make_argname`. -/
def makeArgname (pname vname : String) : Option String :=
  (locase pname).map fun name => name ++ "_" ++ vname ++ "_" ++ argext

namespace Parser

/-- `unsigned_dec`, past the peek at the next token. -/
def unsignedWord : TokKind → Parser String
  | .char => do
      let _ ← getToken
      pure "u_char"
  | .short => do
      let _ ← getToken
      let _ ← peekscan .int
      pure "u_short"
  | .long => do
      let _ ← getToken
      let _ ← peekscan .int
      pure "u_long"
  | .hyper => do
      let _ ← getToken
      let _ ← peekscan .int
      pure "u_longlong_t"
  | .int => do
      let _ ← getToken
      pure "u_int"
  | _ => pure "u_int"

/-- `unsigned_dec`. -/
def unsignedDec : Parser String := do
  let tok ← peek
  unsignedWord tok.kind

/-- `get_type`, past the first token. -/
def typeFrom (dkind : DefKind) (tok : Token) : Parser (Option String × String) :=
  match tok.kind with
  | .ident => pure (none, tok.str)
  | .struct | .enum | .union => do
      let name ← scan .ident
      pure (some tok.str, name.str)
  | .unsigned => do
      let type ← unsignedDec
      pure (none, type)
  | .short => do
      let _ ← peekscan .int
      pure (none, "short")
  | .long => do
      let _ ← peekscan .int
      pure (none, "long")
  | .hyper => do
      let _ ← peekscan .int
      pure (none, "longlong_t")
  | .void =>
      if dkind ≠ .union ∧ dkind ≠ .program then
        error "Void is allowed only inside union and program definitions with one argument"
      else pure (none, tok.str)
  | .string | .opaqueData | .char | .int | .float | .double | .bool | .quad =>
      pure (none, tok.str)
  | _ => error "Type specifier expected"

/-- `get_type`: the prefix and the type. -/
def getType (dkind : DefKind) : Parser (Option String × String) := do
  let tok ← getToken
  typeFrom dkind tok

/-- `check_type_name`. -/
def checkTypeName (name : String) (newType : Bool) : Parser Unit :=
  if name ∈ reservedWords ∨ newType = true ∧ name ∈ reservedTypes then
    error ("Illegal (reserved) name '" ++ name ++ "' in type definition")
  else pure ()

/-- The bound between angle brackets, past the first one. -/
def angleBound : Parser String := do
  match ← peekscan .rangle with
  | some _ => pure unbounded
  | none => do
      let tok ← scanNum
      let _ ← scan .rangle
      pure tok.str

/-- The brackets behind a name in a declaration. -/
def declBound (dec : Declaration) : Parser Declaration := do
  match ← peekscan .lbracket with
  | some _ =>
      if dec.rel = .pointer then error "No array-of-pointer declarations -- use typedef"
      else do
        let tok ← scanNum
        let _ ← scan .rbracket
        pure { dec with rel := .vector, arrayMax := tok.str }
  | none => do
      match ← peekscan .langle with
      | some _ =>
          if dec.rel = .pointer then error "No array-of-pointer declarations -- use typedef"
          else do
            let amax ← angleBound
            pure { dec with rel := .array, arrayMax := amax }
      | none => pure dec

/-- The name in a declaration, and the star before it. -/
def declName (dec : Declaration) : Parser Declaration := do
  let tok ← scan2 .star .ident
  if tok.kind = .star then do
    let tok ← scan .ident
    pure { dec with rel := .pointer, name := tok.str }
  else pure { dec with name := tok.str }

/-- The test at the end of a declaration. -/
def declCheck (dec : Declaration) : Parser Declaration :=
  if dec.type = "opaque" then
    if dec.rel ≠ .array ∧ dec.rel ≠ .vector then error "Array declaration expected" else pure dec
  else if dec.type = "string" then
    if dec.rel ≠ .array then error "Variable-length array declaration expected" else pure dec
  else pure dec

/-- `get_declaration`, which leaves what it does not set in `dec`. -/
def getDeclaration (dec : Declaration) (dkind : DefKind) : Parser Declaration := do
  let r ← getType dkind
  let dec := { dec with prefixWord := r.1, type := r.2, rel := .alias }
  if dec.type = "void" then pure dec
  else do
    let _ ← checkTypeName dec.type false
    let dec ← declName dec
    let dec ← declBound dec
    declCheck dec

/-- The optional name of an argument, in an array of 255 bytes. -/
def argName (num : Nat) : Parser String := do
  match ← peekscan .ident with
  | some tok => if tok.str.length < 255 then pure tok.str else Reader.fail .overrun
  | none => pure (argname ++ toString num)

/-- The star, and perhaps a name, behind the type of an argument. -/
def argPointer (dec : Declaration) : Parser Declaration := do
  match ← peekscan .star with
  | none => pure dec
  | some _ =>
      if dec.type = "string" then error "Pointer to string not allowed in program arguments\n"
      else do
        match ← peekscan .ident with
        | some tok => pure { dec with rel := .pointer, name := tok.str }
        | none => pure { dec with rel := .pointer }

/-- The bound behind an argument. -/
def argBound (dec : Declaration) : Parser Declaration := do
  match ← peekscan .langle with
  | none => pure dec
  | some _ =>
      if dec.type ≠ "string" then
        error "Arrays cannot be declared as arguments to procedures -- use typedef"
      else do
        let amax ← angleBound
        pure { dec with rel := .array, arrayMax := amax }

/-- `get_prog_declaration`, past the test for an empty list. -/
def getProgDeclarationSome (dec : Declaration) (dkind : DefKind) (num : Nat) :
    Parser Declaration := do
  let r ← getType dkind
  let name ← argName num
  let dec := { dec with prefixWord := r.1, type := r.2, rel := .alias, name := name }
  if dec.type = "void" then pure dec
  else if dec.type = "opaque" then error "Opaque -- illegal argument type"
  else do
    let dec ← argPointer dec
    let dec ← argBound dec
    if dec.type = "string" ∧ dec.rel ≠ .array then
      pure { dec with rel := .array, arrayMax := unbounded }
    else pure dec

/-- `get_prog_declaration`. -/
def getProgDeclaration (dec : Declaration) (dkind : DefKind) (num : Nat) :
    Parser Declaration := do
  if dkind = .program then do
    let tok ← peek
    if tok.kind = .rparen then
      pure { dec with rel := .alias, type := "void", prefixWord := none, name := "" }
    else getProgDeclarationSome dec dkind num
  else getProgDeclarationSome dec dkind num

/-- One member in `def_struct`: the declaration that is read last, and all of them. -/
def structMember (r : Declaration × List Declaration) :
    Parser ((Declaration × List Declaration) × Bool) := do
  let dec ← getDeclaration r.1 .struct
  let _ ← scan .semicolon
  let tok ← peek
  pure ((dec, r.2 ++ [dec]), decide (tok.kind ≠ .rbrace))

/-- `def_struct`. -/
def defStruct (stale : Declaration) : Parser Definition := do
  let name ← scan .ident
  let _ ← scan .lbrace
  let r ← Reader.repeating Failure.endless structMember (stale, [])
  let _ ← getToken
  pure ⟨name.str, .struct r.2⟩

/-- The arguments of a procedure behind the first one: the declaration that is read last, the
arguments, their number, and whether one is void. -/
def moreArgs : Declaration × List Declaration × Nat × Bool →
    Parser ((Declaration × List Declaration × Nat × Bool) × Bool) := fun r => do
  match ← peekscan .comma with
  | none => pure (r, false)
  | some _ => do
      let numArgs := r.2.2.1 + 1
      let dec ← getProgDeclaration r.1 .struct numArgs
      pure ((dec, r.2.1 ++ [dec], numArgs, r.2.2.2 || decide (dec.type = "void")), true)

/-- The arguments of a procedure. -/
def procArgs (dec : Declaration) : Parser (Declaration × List Declaration × Nat × Bool) := do
  let dec ← getProgDeclaration dec .program 1
  Reader.repeating Failure.endless moreArgs (dec, [dec], 1, decide (dec.type = "void"))

/-- One procedure of `def_program`, without the name of its argument. -/
def defProc (newstyle : Bool) (dec : Declaration) : Parser (Declaration × Proc) := do
  let res ← getType .program
  if res.2 = "opaque" then error "Illegal result type"
  else do
    let procName ← scan .ident
    let _ ← scan .lparen
    let r ← procArgs dec
    if newstyle = false ∧ r.2.2.1 > 1 then error "Only one argument is allowed"
    else if r.2.2.2 = true ∧ r.2.2.1 > 1 then error "Illegal use of void in program definition"
    else do
      let _ ← scan .rparen
      let _ ← scan .equal
      let procNum ← scanNum
      let _ ← scan .semicolon
      pure (r.1, ⟨procName.str, procNum.str, ⟨"", r.2.1⟩, r.2.2.1, res.2, res.1⟩)

/-- The loop that names the arguments of the procedures of a version. -/
def nameArgs (versNum : String) : List Proc → Parser (List Proc)
  | [] => pure []
  | plist :: procs =>
      match makeArgname plist.procName versNum with
      | some name => do
          let procs ← nameArgs versNum procs
          pure ({ plist with args := { plist.args with argname := name } } :: procs)
      | none => Reader.fail .overrun

/-- One round of the loop over the procedures of a version. -/
def versionProc (newstyle : Bool) (r : Declaration × List Proc) :
    Parser ((Declaration × List Proc) × Bool) := do
  let p ← defProc newstyle r.1
  let tok ← peek
  pure ((p.1, r.2 ++ [p.2]), decide (tok.kind ≠ .rbrace))

/-- One version of `def_program`. -/
def defVersion (newstyle : Bool) (dec : Declaration) : Parser (Declaration × Version) := do
  let versName ← scan .ident
  let _ ← scan .lbrace
  let r ← Reader.repeating Failure.endless (versionProc newstyle) (dec, [])
  let _ ← scan .rbrace
  let _ ← scan .equal
  let versNum ← scanNum
  let procs ← nameArgs versNum.str r.2
  let _ ← scan .semicolon
  pure (r.1, ⟨versName.str, versNum.str, procs⟩)

/-- One round of the loop over the versions of a program. -/
def programVersion (newstyle : Bool) (r : Declaration × List Version) :
    Parser ((Declaration × List Version) × Bool) := do
  let v ← defVersion newstyle r.1
  let tok ← scan2 .version .rbrace
  pure ((v.1, r.2 ++ [v.2]), decide (tok.kind = .version))

/-- `def_program`. -/
def defProgram (newstyle : Bool) (stale : Declaration) : Parser Definition := do
  let name ← scan .ident
  let _ ← scan .lbrace
  let _ ← scan .version
  let r ← Reader.repeating Failure.endless (programVersion newstyle) (stale, [])
  let _ ← scan .equal
  let progNum ← scanNum
  pure ⟨name.str, .program ⟨progNum.str, r.2⟩⟩

/-- One value in `def_enum`. -/
def enumVal (vals : List EnumVal) : Parser (List EnumVal × Bool) := do
  let val ← scan .ident
  let tok ← scan3 .comma .rbrace .equal
  if tok.kind = .equal then do
    let num ← scanNum
    let tok ← scan2 .comma .rbrace
    pure (vals ++ [⟨val.str, some num.str⟩], decide (tok.kind ≠ .rbrace))
  else pure (vals ++ [⟨val.str, none⟩], decide (tok.kind ≠ .rbrace))

/-- `def_enum`. -/
def defEnum : Parser Definition := do
  let name ← scan .ident
  let _ ← scan .lbrace
  let vals ← Reader.repeating Failure.endless enumVal []
  pure ⟨name.str, .enum vals⟩

/-- `def_const`. -/
def defConst : Parser Definition := do
  let name ← scan .ident
  let _ ← scan .equal
  let co ← scan2 .ident .strconst
  pure ⟨name.str, .const co.str⟩

/-- The names of the cases that share an arm, past the first one: the names so far, and the one
that is read last. -/
def moreCases : List String × String → Parser ((List String × String) × Bool) := fun r => do
  match ← peekscan .case with
  | none => pure (r, false)
  | some _ => do
      let tok ← scan2 .ident .charconst
      let _ ← scan .colon
      pure ((r.1 ++ [r.2], tok.str), true)

/-- One arm in `def_union`, with the names of its cases. What the arm of a continued case is left
at is not known. -/
def unionArm (stale : Declaration) (r : Declaration × List Case × Token) :
    Parser ((Declaration × List Case × Token) × Bool) := do
  let caseName ← scan2 .ident .charconst
  let _ ← scan .colon
  let names ← Reader.repeating Failure.endless moreCases ([], caseName.str)
  let dec ← getDeclaration r.1 .union
  let _ ← scan .semicolon
  let tok ← scan3 .case .default .rbrace
  pure ((dec, r.2.1 ++ names.1.map (⟨·, true, stale⟩) ++ [⟨names.2, false, dec⟩], tok),
    decide (tok.kind = .case))

/-- `def_union`. -/
def defUnion (stale : Declaration) : Parser Definition := do
  let name ← scan .ident
  let _ ← scan .switch
  let _ ← scan .lparen
  let enumDecl ← getDeclaration stale .union
  let _ ← scan .rparen
  let _ ← scan .lbrace
  let tok ← scan .case
  let r ← Reader.repeating Failure.endless (unionArm stale) (enumDecl, [], tok)
  if r.2.2.kind = .default then do
    let _ ← scan .colon
    let dec ← getDeclaration r.1 .union
    let _ ← scan .semicolon
    let _ ← scan .rbrace
    pure ⟨name.str, .union ⟨enumDecl, r.2.1, some dec⟩⟩
  else pure ⟨name.str, .union ⟨enumDecl, r.2.1, none⟩⟩

/-- `def_typedef`. -/
def defTypedef (stale : Declaration) : Parser Definition := do
  let dec ← getDeclaration stale .typedef
  let _ ← checkTypeName dec.name true
  pure ⟨dec.name, .typedef ⟨dec.prefixWord, dec.type, dec.rel, dec.arrayMax⟩⟩

/-- `get_definition`: the definition, unless it is at the end, and the list of all. -/
def getDefinition (newstyle : Bool) (stale : Declaration) (defined : List Definition) :
    Parser (Option Definition × List Definition) := do
  let finish (p : Parser Definition) : Parser (Option Definition × List Definition) := do
    let defp ← p
    let _ ← scan .semicolon
    pure (some defp, defined ++ [defp])
  let tok ← getToken
  match tok.kind with
  | .struct => finish (defStruct stale)
  | .union => finish (defUnion stale)
  | .typedef => finish (defTypedef stale)
  | .enum => finish defEnum
  | .program => finish (defProgram newstyle stale)
  | .const => finish defConst
  | .eof => pure (none, defined)
  | _ => error "Expected definition keyword"

/-- One call of `get_definition`, of those up to the one that yields NULL. -/
def nextDefinition (newstyle : Bool) (stale : Declaration)
    (r : List Definition × List Definition) :
    Parser ((List Definition × List Definition) × Bool) := do
  let d ← getDefinition newstyle stale r.2
  match d.1 with
  | some defp => pure ((r.1 ++ [defp], d.2), true)
  | none => pure ((r.1, d.2), false)

/-- The definitions that the calls of `get_definition` yield, and the list of all. -/
def getDefinitions (newstyle : Bool) (stale : Declaration) (defined : List Definition) :
    Parser (List Definition × List Definition) :=
  Reader.repeating Failure.endless (nextDefinition newstyle stale) ([], defined)

end Parser

end OncRpc.Rpcgen
