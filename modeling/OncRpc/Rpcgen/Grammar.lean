import OncRpc.Rpcgen.Parse

/-! The language of rpcgen: the tokens that a definition is written with. The parser is not used
here, but for its data types and for what it puts in where something is left out. -/
namespace OncRpc.Rpcgen

open Lookahead

def identTok (s : String) : Token := ⟨.ident, s⟩

def mark (kind : TokKind) : Token := ⟨kind, ""⟩

/-- A token that is a word. -/
def word (kind : TokKind) : Token := (symbols.find? fun t => t.kind = kind).getD ⟨kind, ""⟩

/-- An `int` that may be left out. -/
def optInt (b : Bool) : List Token := if b then [word .int] else []

/-- The ways to write a type. -/
inductive PrintsType : Option String → String → List Token → Prop where
  | ident {s : String} (h : s ∉ symbols.map Token.str) : PrintsType none s [identTok s]
  | tagged {k : TokKind} {s : String} (h : k = .struct ∨ k = .enum ∨ k = .union)
      (hs : s ∉ symbols.map Token.str) :
      PrintsType (some (word k).str) s [word k, identTok s]
  | word {k : TokKind} (h : k ∈ [.string, .opaqueData, .char, .int, .float, .double, .bool, .quad,
      .void]) : PrintsType none (word k).str [word k]
  | short (b : Bool) : PrintsType none "short" (word .short :: optInt b)
  | long (b : Bool) : PrintsType none "long" (word .long :: optInt b)
  | hyper (b : Bool) : PrintsType none "longlong_t" (word .hyper :: optInt b)
  | unsigned (b : Bool) : PrintsType none "u_int" (word .unsigned :: optInt b)
  | unsignedChar : PrintsType none "u_char" [word .unsigned, word .char]
  | unsignedShort (b : Bool) :
      PrintsType none "u_short" (word .unsigned :: word .short :: optInt b)
  | unsignedLong (b : Bool) : PrintsType none "u_long" (word .unsigned :: word .long :: optInt b)
  | unsignedHyper (b : Bool) :
      PrintsType none "u_longlong_t" (word .unsigned :: word .hyper :: optInt b)

/-- A bound between angle brackets. -/
def angleToks (amax : String) : List Token :=
  if amax = unbounded then [mark .langle, mark .rangle]
  else [mark .langle, identTok amax, mark .rangle]

/-- The name in a declaration, and what stands around it. -/
def nameToks (dec : Declaration) : List Token :=
  match dec.rel with
  | .alias => [identTok dec.name]
  | .pointer => [mark .star, identTok dec.name]
  | .vector => [identTok dec.name, mark .lbracket, identTok dec.arrayMax, mark .rbracket]
  | .array => identTok dec.name :: angleToks dec.arrayMax

/-- The ways to write a declaration. -/
def Declaration.Prints (dec : Declaration) (ts : List Token) : Prop :=
  ∃ type, PrintsType dec.prefixWord dec.type type ∧
    ts = type ++ if dec.type = "void" then [] else nameToks dec

/-- A member: of a structure, or in a typedef. -/
def Declaration.IsMember (dec : Declaration) : Prop :=
  dec.type ≠ "void" ∧ dec.type ∉ reservedWords ∧
    (dec.type = "opaque" → dec.rel = .array ∨ dec.rel = .vector) ∧
    (dec.type = "string" → dec.rel = .array)

/-- An arm of a union, which may be void. -/
def Declaration.IsArm (dec : Declaration) : Prop :=
  dec.type = "void" ∧ dec.rel = .alias ∨ dec.IsMember

/-- The argument of a procedure that takes none. -/
def Declaration.IsVoid (dec : Declaration) : Prop :=
  dec.prefixWord = none ∧ dec.type = "void" ∧ dec.rel = .alias

/-- An argument of a procedure. Only strings are arrays. -/
def Declaration.IsArg (dec : Declaration) : Prop :=
  dec.type ≠ "void" ∧ dec.type ≠ "opaque" ∧ (dec.type = "string" ↔ dec.rel = .array) ∧
    dec.rel ≠ .vector ∧ dec.name.length < 255

/-- The ways to write the argument `num`: the name may be left out if it is the usual one, and a
string that has no bound needs no brackets. -/
def Declaration.PrintsArg (num : Nat) (dec : Declaration) (ts : List Token) : Prop :=
  ∃ type name, PrintsType dec.prefixWord dec.type type ∧
    (name = [identTok dec.name] ∨ name = [] ∧ dec.name = argname ++ toString num) ∧
    match dec.rel with
    | .alias => ts = type ++ name
    | .pointer => ts = type ++ mark .star :: name
    | .array => ts = type ++ name ++ angleToks dec.arrayMax ∨
        ts = type ++ name ∧ dec.arrayMax = unbounded
    | .vector => False

/-- The ways to write the arguments of a procedure. -/
def PrintsArgs (decls : List Declaration) (ts : List Token) : Prop :=
  (∃ dec, decls = [dec] ∧ dec.IsVoid ∧ (ts = [] ∨ ts = [word .void])) ∨
    ∃ first : Declaration × List Token, ∃ more : List (Declaration × List Token),
      decls = first.1 :: more.map Prod.fst ∧ (∀ dec ∈ decls, dec.IsArg) ∧
        first.1.PrintsArg 1 first.2 ∧
        (∀ i (x : Declaration × List Token), more[i]? = some x → x.1.PrintsArg (i + 2) x.2) ∧
        ts = first.2 ++ more.flatMap fun x => mark .comma :: x.2

def Proc.Prints (p : Proc) (ts : List Token) : Prop :=
  ∃ res args, PrintsType p.resPrefix p.resType res ∧ PrintsArgs p.args.decls args ∧
    ts = res ++ [identTok p.procName, mark .lparen] ++ args ++
      [mark .rparen, mark .equal, identTok p.procNum, mark .semicolon]

/-- The name that `make_argname` makes up. -/
def argnameText (pname vname : String) : String :=
  String.ofList (pname.toList.map Char.toLower) ++ "_" ++ vname ++ "_" ++ argext

def Proc.WellFormed (newstyle : Bool) (versNum : String) (p : Proc) : Prop :=
  p.resType ≠ "opaque" ∧ p.argNum = p.args.decls.length ∧
    (1 < p.args.decls.length → newstyle = true) ∧ p.args.argname = argnameText p.procName versNum

def Version.Prints (v : Version) (ts : List Token) : Prop :=
  ∃ procs : List (Proc × List Token), v.procs = procs.map Prod.fst ∧
    (∀ x ∈ procs, x.1.Prints x.2) ∧
    ts = [identTok v.versName, mark .lbrace] ++ procs.flatMap Prod.snd ++
      [mark .rbrace, mark .equal, identTok v.versNum, mark .semicolon]

def Version.WellFormed (newstyle : Bool) (v : Version) : Prop :=
  v.procs ≠ [] ∧ ∀ p ∈ v.procs, p.WellFormed newstyle v.versNum

def EnumVal.toks (val : EnumVal) : List Token :=
  match val.assignment with
  | none => [identTok val.name]
  | some num => [identTok val.name, mark .equal, identTok num]

/-- The ways to write a case: with its arm, if the next case does not share it. -/
def Case.Prints (c : Case) (ts : List Token) : Prop :=
  ∃ kind, (kind = .ident ∨ kind = .charconst) ∧
    if c.contflag then ts = [word .case, ⟨kind, c.caseName⟩, mark .colon]
    else ∃ arm, c.caseDecl.Prints arm ∧
      ts = [word .case, ⟨kind, c.caseName⟩, mark .colon] ++ arm ++ [mark .semicolon]

/-- The default arm and the end of a union. -/
def PrintsDefault : Option Declaration → List Token → Prop
  | none, ts => ts = [mark .rbrace]
  | some dec, ts => ∃ arm, dec.Prints arm ∧
      ts = [word .default, mark .colon] ++ arm ++ [mark .semicolon, mark .rbrace]

/-- The ways to write the body of a definition, behind its first word. -/
def DefBody.Prints (name : String) : DefBody → List Token → Prop
  | .const co, ts => ∃ kind, (kind = .ident ∨ kind = .strconst) ∧
      ts = [identTok name, mark .equal, ⟨kind, co⟩]
  | .struct decls, ts => ∃ xs : List (Declaration × List Token), decls = xs.map Prod.fst ∧
      (∀ x ∈ xs, x.1.Prints x.2) ∧
      ts = [identTok name, mark .lbrace] ++ (xs.flatMap fun x => x.2 ++ [mark .semicolon]) ++
        [mark .rbrace]
  | .union un, ts => ∃ disc, un.enumDecl.Prints disc ∧
      ∃ xs : List (Case × List Token), un.cases = xs.map Prod.fst ∧ (∀ x ∈ xs, x.1.Prints x.2) ∧
      ∃ last, PrintsDefault un.defaultDecl last ∧
        ts = [identTok name, word .switch, mark .lparen] ++ disc ++
          [mark .rparen, mark .lbrace] ++ xs.flatMap Prod.snd ++ last
  | .enum vals, ts =>
      ts = [identTok name, mark .lbrace] ++
        joined (fun more val => EnumVal.toks val ++ [mark (if more then .comma else .rbrace)]) vals
  | .typedef ty, ts =>
      Declaration.Prints ⟨ty.oldPrefix, ty.oldType, name, ty.rel, ty.arrayMax⟩ ts
  | .program pr, ts => ∃ xs : List (Version × List Token), pr.versions = xs.map Prod.fst ∧
      (∀ x ∈ xs, x.1.Prints x.2) ∧
      ts = [identTok name, mark .lbrace, word .version] ++
        joined (fun more (x : Version × List Token) =>
          x.2 ++ [if more then word .version else mark .rbrace]) xs ++
        [mark .equal, identTok pr.progNum]

def DefBody.keyword : DefBody → TokKind
  | .const _ => .const
  | .struct _ => .struct
  | .union _ => .union
  | .enum _ => .enum
  | .typedef _ => .typedef
  | .program _ => .program

/-- The ways to write a definition. -/
def Definition.Prints (d : Definition) (ts : List Token) : Prop :=
  ∃ body, d.body.Prints d.defName body ∧
    ts = word d.body.keyword :: body ++ [mark .semicolon]

/-- The definitions that there is a way to write. -/
def Definition.WellFormed (newstyle : Bool) (d : Definition) : Prop :=
  match d.body with
  | .const _ => True
  | .struct decls => decls ≠ [] ∧ ∀ dec ∈ decls, dec.IsMember
  | .union un => un.enumDecl.IsMember ∧
      (∃ last, un.cases.getLast? = some last ∧ last.contflag = false) ∧
      (∀ c ∈ un.cases, c.contflag = false → c.caseDecl.IsArm) ∧
      ∀ dec ∈ un.defaultDecl, dec.IsArm
  | .enum vals => vals ≠ []
  | .typedef ty => Declaration.IsMember ⟨ty.oldPrefix, ty.oldType, d.defName, ty.rel, ty.arrayMax⟩ ∧
      d.defName ∉ reservedWords ∧ d.defName ∉ reservedTypes
  | .program pr => pr.versions ≠ [] ∧ ∀ v ∈ pr.versions, v.WellFormed newstyle

/-! ### The same definition

A parsed declaration holds more than its tree where nothing was written: the name of a void one,
the bound of one that is no array, and the arm of a continued case. -/

def Declaration.Agrees (dec parsed : Declaration) : Prop :=
  parsed.prefixWord = dec.prefixWord ∧ parsed.type = dec.type ∧ parsed.rel = dec.rel ∧
    (dec.type ≠ "void" → parsed.name = dec.name) ∧
    (dec.rel = .vector ∨ dec.rel = .array → parsed.arrayMax = dec.arrayMax)

def Case.Agrees (c parsed : Case) : Prop :=
  parsed.caseName = c.caseName ∧ parsed.contflag = c.contflag ∧
    (c.contflag = false → c.caseDecl.Agrees parsed.caseDecl)

def Proc.Agrees (p parsed : Proc) : Prop :=
  parsed.procName = p.procName ∧ parsed.procNum = p.procNum ∧
    parsed.args.argname = p.args.argname ∧
    List.Forall₂ Declaration.Agrees p.args.decls parsed.args.decls ∧
    parsed.argNum = p.argNum ∧ parsed.resType = p.resType ∧ parsed.resPrefix = p.resPrefix

def Version.Agrees (v parsed : Version) : Prop :=
  parsed.versName = v.versName ∧ parsed.versNum = v.versNum ∧
    List.Forall₂ Proc.Agrees v.procs parsed.procs

def DefBody.Agrees : DefBody → DefBody → Prop
  | .const co, .const co' => co' = co
  | .struct decls, .struct decls' => List.Forall₂ Declaration.Agrees decls decls'
  | .union un, .union un' => un.enumDecl.Agrees un'.enumDecl ∧
      List.Forall₂ Case.Agrees un.cases un'.cases ∧
      Option.Rel Declaration.Agrees un.defaultDecl un'.defaultDecl
  | .enum vals, .enum vals' => vals' = vals
  | .typedef ty, .typedef ty' => ty'.oldPrefix = ty.oldPrefix ∧ ty'.oldType = ty.oldType ∧
      ty'.rel = ty.rel ∧ (ty.rel = .vector ∨ ty.rel = .array → ty'.arrayMax = ty.arrayMax)
  | .program pr, .program pr' => pr'.progNum = pr.progNum ∧
      List.Forall₂ Version.Agrees pr.versions pr'.versions
  | _, _ => False

def Definition.Agrees (d parsed : Definition) : Prop :=
  parsed.defName = d.defName ∧ d.body.Agrees parsed.body

/-- The procedures of a definition. -/
def Definition.procs (d : Definition) : List Proc :=
  match d.body with
  | .program pr => pr.versions.flatMap Version.procs
  | _ => []

end OncRpc.Rpcgen
