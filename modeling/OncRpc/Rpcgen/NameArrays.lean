import OncRpc.Base.Failing
import OncRpc.Rpcgen.EmitStruct
import OncRpc.Rpcgen.ParsePrinted

/-! The arrays of fixed size that rpcgen copies names into, and which names they have room for. -/
namespace OncRpc.Rpcgen

open Lookahead Rpcgen.Parser

/-! ### What the parser copies

Of all that it calls only two calls overrun an array: the one for the optional name of an argument
and the one for the names of the procedures of a version. -/

section Spares

theorem endless_ne_overrun : Failure.endless ≠ Failure.overrun := nofun

theorem spares_error {α : Type} (msg : String) :
    Spares Failure.overrun (Parser.error msg : Parser α) := Spares.fail nofun

theorem spares_getToken : Spares Failure.overrun getToken := spares_next _

theorem spares_scan (k : TokKind) : Spares Failure.overrun (scan k) :=
  spares_getToken.bind fun tok => Spares.ite (spares_error _) (Spares.pure tok)

theorem spares_scan2 (k k' : TokKind) : Spares Failure.overrun (scan2 k k') :=
  spares_getToken.bind fun tok => Spares.ite (spares_error _) (Spares.pure tok)

theorem spares_scan3 (k k' k'' : TokKind) : Spares Failure.overrun (scan3 k k' k'') :=
  spares_getToken.bind fun tok => Spares.ite (spares_error _) (Spares.pure tok)

theorem spares_scanNum : Spares Failure.overrun scanNum :=
  spares_getToken.bind fun tok => Spares.ite (spares_error _) (Spares.pure tok)

theorem spares_peek : Spares Failure.overrun peek :=
  spares_getToken.bind fun tok => (spares_unget tok).bind fun _ => Spares.pure tok

theorem spares_peekscan (k : TokKind) : Spares Failure.overrun (peekscan k) :=
  spares_peek.bind fun _ =>
    Spares.ite (spares_getToken.bind fun tok => Spares.pure (some tok)) (Spares.pure none)

/-- An `int` that may follow. -/
theorem spares_optInt (s : String) :
    Spares Failure.overrun (do let _ ← peekscan .int; pure s : Parser String) :=
  (spares_peekscan _).bind fun _ => Spares.pure s

theorem spares_unsignedDec : Spares Failure.overrun unsignedDec := by
  refine spares_peek.bind fun tok => ?_
  unfold unsignedWord
  split
  · exact spares_getToken.bind fun _ => Spares.pure _
  · exact spares_getToken.bind fun _ => spares_optInt _
  · exact spares_getToken.bind fun _ => spares_optInt _
  · exact spares_getToken.bind fun _ => spares_optInt _
  · exact spares_getToken.bind fun _ => Spares.pure _
  · exact Spares.pure _

theorem spares_getType (dkind : DefKind) : Spares Failure.overrun (getType dkind) := by
  have hInt : ∀ type : String, Spares Failure.overrun
      (do let _ ← peekscan .int; pure (none, type) : Parser (Option String × String)) :=
    fun type => (spares_peekscan _).bind fun _ => Spares.pure _
  have hTagged : ∀ tok : Token, Spares Failure.overrun
      (do let name ← scan .ident; pure (some tok.str, name.str) :
        Parser (Option String × String)) :=
    fun tok => (spares_scan _).bind fun _ => Spares.pure _
  refine spares_getToken.bind fun tok => ?_
  unfold typeFrom
  split
  case h_5 => exact spares_unsignedDec.bind fun _ => Spares.pure _
  case h_9 => exact Spares.ite (spares_error _) (Spares.pure _)
  all_goals first
    | exact Spares.pure _
    | exact hTagged tok
    | exact hInt _
    | exact spares_error _

theorem spares_angleBound : Spares Failure.overrun angleBound := by
  refine (spares_peekscan _).bind fun tok => ?_
  cases tok with
  | some tok => exact Spares.pure _
  | none => exact spares_scanNum.bind fun _ => (spares_scan _).bind fun _ => Spares.pure _

theorem spares_checkTypeName (name : String) (newType : Bool) :
    Spares Failure.overrun (checkTypeName name newType) :=
  Spares.ite (spares_error _) (Spares.pure _)

theorem spares_declName (dec : Declaration) : Spares Failure.overrun (declName dec) :=
  (spares_scan2 _ _).bind fun _ =>
    Spares.ite ((spares_scan _).bind fun _ => Spares.pure _) (Spares.pure _)

theorem spares_declBound (dec : Declaration) : Spares Failure.overrun (declBound dec) := by
  refine (spares_peekscan _).bind fun tok => ?_
  cases tok with
  | some tok =>
      exact Spares.ite (spares_error _)
        (spares_scanNum.bind fun _ => (spares_scan _).bind fun _ => Spares.pure _)
  | none =>
      refine (spares_peekscan _).bind fun tok => ?_
      cases tok with
      | some tok =>
          exact Spares.ite (spares_error _) (spares_angleBound.bind fun _ => Spares.pure _)
      | none => exact Spares.pure _

theorem spares_declCheck (dec : Declaration) : Spares Failure.overrun (declCheck dec) :=
  Spares.ite (Spares.ite (spares_error _) (Spares.pure _))
    (Spares.ite (Spares.ite (spares_error _) (Spares.pure _)) (Spares.pure _))

theorem spares_getDeclaration (dec : Declaration) (dkind : DefKind) :
    Spares Failure.overrun (getDeclaration dec dkind) :=
  (spares_getType dkind).bind fun _ => Spares.ite (Spares.pure _)
    ((spares_checkTypeName _ _).bind fun _ => (spares_declName _).bind fun _ =>
      (spares_declBound _).bind fun _ => spares_declCheck _)

theorem spares_defStruct (stale : Declaration) : Spares Failure.overrun (defStruct stale) := by
  have hMember : ∀ r, Spares Failure.overrun (structMember r) := fun r =>
    (spares_getDeclaration _ _).bind fun _ => (spares_scan _).bind fun _ =>
      spares_peek.bind fun _ => Spares.pure _
  exact (spares_scan _).bind fun _ => (spares_scan _).bind fun _ =>
    (Spares.repeating endless_ne_overrun hMember _).bind fun _ =>
      spares_getToken.bind fun _ => Spares.pure _

theorem spares_defEnum : Spares Failure.overrun defEnum := by
  have hVal : ∀ vals, Spares Failure.overrun (enumVal vals) := fun vals =>
    (spares_scan _).bind fun _ => (spares_scan3 _ _ _).bind fun _ =>
      Spares.ite (spares_scanNum.bind fun _ => (spares_scan2 _ _).bind fun _ => Spares.pure _)
        (Spares.pure _)
  exact (spares_scan _).bind fun _ => (spares_scan _).bind fun _ =>
    (Spares.repeating endless_ne_overrun hVal _).bind fun _ => Spares.pure _

theorem spares_defConst : Spares Failure.overrun defConst :=
  (spares_scan _).bind fun _ => (spares_scan _).bind fun _ => (spares_scan2 _ _).bind fun _ =>
    Spares.pure _

theorem spares_defUnion (stale : Declaration) : Spares Failure.overrun (defUnion stale) := by
  have hCases : ∀ r, Spares Failure.overrun (moreCases r) := by
    intro r
    refine (spares_peekscan _).bind fun tok => ?_
    cases tok with
    | none => exact Spares.pure _
    | some tok =>
        exact (spares_scan2 _ _).bind fun _ => (spares_scan _).bind fun _ => Spares.pure _
  have hArm : ∀ r, Spares Failure.overrun (unionArm stale r) := fun r =>
    (spares_scan2 _ _).bind fun _ => (spares_scan _).bind fun _ =>
      (Spares.repeating endless_ne_overrun hCases _).bind fun _ =>
        (spares_getDeclaration _ _).bind fun _ => (spares_scan _).bind fun _ =>
          (spares_scan3 _ _ _).bind fun _ => Spares.pure _
  refine (spares_scan _).bind fun _ => (spares_scan _).bind fun _ => (spares_scan _).bind fun _ =>
    (spares_getDeclaration _ _).bind fun _ => (spares_scan _).bind fun _ =>
      (spares_scan _).bind fun _ => (spares_scan _).bind fun _ =>
        (Spares.repeating endless_ne_overrun hArm _).bind fun _ => Spares.ite ?_ (Spares.pure _)
  exact (spares_scan _).bind fun _ => (spares_getDeclaration _ _).bind fun _ =>
    (spares_scan _).bind fun _ => (spares_scan _).bind fun _ => Spares.pure _

theorem spares_defTypedef (stale : Declaration) : Spares Failure.overrun (defTypedef stale) :=
  (spares_getDeclaration _ _).bind fun _ => (spares_checkTypeName _ _).bind fun _ => Spares.pure _

theorem spares_argPointer (dec : Declaration) : Spares Failure.overrun (argPointer dec) := by
  refine (spares_peekscan _).bind fun tok => ?_
  cases tok with
  | none => exact Spares.pure _
  | some tok =>
      refine Spares.ite (spares_error _) ((spares_peekscan _).bind fun tok => ?_)
      cases tok with
      | some tok => exact Spares.pure _
      | none => exact Spares.pure _

theorem spares_argBound (dec : Declaration) : Spares Failure.overrun (argBound dec) := by
  refine (spares_peekscan _).bind fun tok => ?_
  cases tok with
  | none => exact Spares.pure _
  | some tok => exact Spares.ite (spares_error _) (spares_angleBound.bind fun _ => Spares.pure _)

end Spares

/-! ### Where the parser gets to -/

/-- The words of a program definition before its first version. -/
def programHead : Parser Token := do
  let _ ← scan .ident
  let _ ← scan .lbrace
  scan .version

/-- The words of a version before its first procedure. -/
def versionHead : Parser Token := do
  let _ ← scan .ident
  scan .lbrace

/-- The words of a version behind its last procedure, up to the number. -/
def versionNum : Parser Token := do
  let _ ← scan .rbrace
  let _ ← scan .equal
  scanNum

/-- The words of a procedure before its first argument. -/
def procHead : Parser Token := do
  let res ← getType .program
  if res.2 = "opaque" then error "Illegal result type"
  else do
    let _ ← scan .ident
    scan .lparen

section Reached

variable (newstyle : Bool)

/-- From the beginning of an argument at `s` the parser comes to its optional name at `s'`. -/
def ArgnameIn (dkind : DefKind) (s s' : Pushback Token) : Prop :=
  ∃ s₁, (dkind = .program ∧ (∃ tok, peek s = .ok (tok, s₁) ∧ tok.kind ≠ .rparen) ∨
      dkind ≠ .program ∧ s₁ = s) ∧
    ∃ res, getType dkind s₁ = .ok (res, s')

/-- From the beginning of a procedure at `s`, with the arguments before it. -/
def ProcArgnameIn (dec : Declaration) (s s' : Pushback Token) : Prop :=
  ∃ tok s₁, procHead s = .ok (tok, s₁) ∧
    (ArgnameIn .program s₁ s' ∨
      ∃ first s₂ r s₃ comma s₄, getProgDeclaration dec .program 1 s₁ = .ok (first, s₂) ∧
        Comes moreArgs (first, [first], 1, decide (first.type = "void")) s₂ r s₃ ∧
        peekscan .comma s₃ = .ok (some comma, s₄) ∧ ArgnameIn .struct s₄ s')

/-- From the beginning of a version at `s` the parser comes to the procedure at `s'`. -/
def ProcIn (dec : Declaration) (s : Pushback Token) (dec' : Declaration) (s' : Pushback Token) :
    Prop :=
  ∃ tok s₁ procs, versionHead s = .ok (tok, s₁) ∧
    Comes (versionProc newstyle) (dec, []) s₁ (dec', procs) s'

/-- From the beginning of a version at `s` the parser comes to its number, behind `procs`. -/
def ProcsIn (dec : Declaration) (s : Pushback Token) (procs : List Proc) : Prop :=
  ∃ tok s₁ dec' s₂ num s₃, versionHead s = .ok (tok, s₁) ∧
    Reader.repeating Failure.endless (versionProc newstyle) (dec, []) s₁ =
      .ok ((dec', procs), s₂) ∧
    versionNum s₂ = .ok (num, s₃)

/-- From the name of a program at `s` the parser comes to the version at `s'`. -/
def VersionIn (stale : Declaration) (s : Pushback Token) (dec : Declaration)
    (s' : Pushback Token) : Prop :=
  ∃ tok s₁ versions, programHead s = .ok (tok, s₁) ∧
    Comes (programVersion newstyle) (stale, []) s₁ (dec, versions) s'

/-- The names that are copied from the name of a program at `s` on fit. -/
structure ProgramNamesFit (stale : Declaration) (s : Pushback Token) : Prop where
  argnames : ∀ dec s₁ dec' s₂ s', VersionIn newstyle stale s dec s₁ →
    ProcIn newstyle dec s₁ dec' s₂ → ProcArgnameIn dec' s₂ s' →
    ∀ tok s'', peekscan .ident s' = .ok (some tok, s'') → tok.str.length < 255
  procNames : ∀ dec s₁ procs, VersionIn newstyle stale s dec s₁ →
    ProcsIn newstyle dec s₁ procs → ∀ p ∈ procs, p.procName.length < 100

end Reached

/-! ### Where the parser overruns an array -/

section Overruns

variable {newstyle : Bool} {stale dec : Declaration} {s : Pushback Token} {num : Nat}
  {dkind : DefKind}

/-- An identifier is next that the array for the name of an argument has no room for. -/
def LongNext (s : Pushback Token) : Prop :=
  ∃ tok s', peekscan .ident s = .ok (some tok, s') ∧ 255 ≤ tok.str.length

theorem argName_eq_overrun_iff : argName num s = .error .overrun ↔ LongNext s := by
  rw [argName, (spares_peekscan _).bind_eq_error_iff]
  constructor
  · rintro ⟨_ | tok, s', hPeek, hFail⟩
    · cases hFail
    · dsimp only at hFail
      split at hFail
      · cases hFail
      · next hLong => exact ⟨tok, s', hPeek, Nat.le_of_not_lt hLong⟩
  · rintro ⟨tok, s', hPeek, hLong⟩
    refine ⟨some tok, s', hPeek, ?_⟩
    dsimp only
    rw [if_neg (Nat.not_lt_of_le hLong)]
    rfl

theorem getProgDeclarationSome_eq_overrun_iff :
    getProgDeclarationSome dec dkind num s = .error .overrun ↔
      ∃ res s', getType dkind s = .ok (res, s') ∧ LongNext s' := by
  rw [getProgDeclarationSome, (spares_getType _).bind_eq_error_iff]
  refine exists_congr fun res => exists_congr fun s' => and_congr_right fun _ => ?_
  rw [bind_eq_error_iff_left fun name => ?_, argName_eq_overrun_iff]
  exact Spares.ite (Spares.pure _) (Spares.ite (spares_error _)
    ((spares_argPointer _).bind fun _ => (spares_argBound _).bind fun _ =>
      Spares.ite (Spares.pure _) (Spares.pure _)))

theorem getProgDeclaration_eq_overrun_iff :
    getProgDeclaration dec dkind num s = .error .overrun ↔
      ∃ s', ArgnameIn dkind s s' ∧ LongNext s' := by
  unfold getProgDeclaration ArgnameIn
  by_cases hKind : dkind = .program
  · rw [if_pos hKind, spares_peek.bind_eq_error_iff]
    constructor
    · rintro ⟨tok, s₁, hPeek, hFail⟩
      split at hFail
      · cases hFail
      · next hSome =>
          obtain ⟨res, s', hType, hLong⟩ := getProgDeclarationSome_eq_overrun_iff.mp hFail
          exact ⟨s', ⟨s₁, Or.inl ⟨hKind, tok, hPeek, hSome⟩, res, hType⟩, hLong⟩
    · rintro ⟨s', ⟨s₁, ⟨-, tok, hPeek, hSome⟩ | ⟨hOther, -⟩, res, hType⟩, hLong⟩
      · refine ⟨tok, s₁, hPeek, ?_⟩
        rw [if_neg hSome]
        exact getProgDeclarationSome_eq_overrun_iff.mpr ⟨res, s', hType, hLong⟩
      · exact absurd hKind hOther
  · rw [if_neg hKind, getProgDeclarationSome_eq_overrun_iff]
    constructor
    · rintro ⟨res, s', hType, hLong⟩
      exact ⟨s', ⟨s, Or.inr ⟨hKind, rfl⟩, res, hType⟩, hLong⟩
    · rintro ⟨s', ⟨s₁, ⟨hProgram, -⟩ | ⟨-, rfl⟩, res, hType⟩, hLong⟩
      · exact absurd hProgram hKind
      · exact ⟨res, s', hType, hLong⟩

theorem moreArgs_eq_overrun_iff {r : Declaration × List Declaration × Nat × Bool} :
    moreArgs r s = .error .overrun ↔
      ∃ comma s₁ s', peekscan .comma s = .ok (some comma, s₁) ∧ ArgnameIn .struct s₁ s' ∧
        LongNext s' := by
  unfold moreArgs
  rw [(spares_peekscan _).bind_eq_error_iff]
  constructor
  · rintro ⟨_ | comma, s₁, hComma, hFail⟩
    · cases hFail
    · rw [bind_eq_error_iff_left fun _ => Spares.pure _, getProgDeclaration_eq_overrun_iff] at hFail
      obtain ⟨s', hName, hLong⟩ := hFail
      exact ⟨comma, s₁, s', hComma, hName, hLong⟩
  · rintro ⟨comma, s₁, s', hComma, hName, hLong⟩
    refine ⟨some comma, s₁, hComma, ?_⟩
    rw [bind_eq_error_iff_left fun _ => Spares.pure _, getProgDeclaration_eq_overrun_iff]
    exact ⟨s', hName, hLong⟩

/-- A procedure overruns the array where the name of an argument is too long. -/
theorem defProc_eq_overrun_iff :
    defProc newstyle dec s = .error .overrun ↔ ∃ s', ProcArgnameIn dec s s' ∧ LongNext s' := by
  have hArgs : ∀ s, procArgs dec s = .error .overrun ↔
      ∃ s', (ArgnameIn .program s s' ∨
        ∃ first s₂ r s₃ comma s₄, getProgDeclaration dec .program 1 s = .ok (first, s₂) ∧
          Comes moreArgs (first, [first], 1, decide (first.type = "void")) s₂ r s₃ ∧
          peekscan .comma s₃ = .ok (some comma, s₄) ∧ ArgnameIn .struct s₄ s') ∧ LongNext s' := by
    intro s
    rw [procArgs, bind_eq_error_iff, getProgDeclaration_eq_overrun_iff]
    constructor
    · rintro (⟨s', hName, hLong⟩ | ⟨first, s₂, hFirst, hFail⟩)
      · exact ⟨s', Or.inl hName, hLong⟩
      · obtain ⟨r, s₃, hComes, hBody⟩ := (repeating_eq_error_iff endless_ne_overrun).mp hFail
        obtain ⟨comma, s₄, s', hComma, hName, hLong⟩ := moreArgs_eq_overrun_iff.mp hBody
        exact ⟨s', Or.inr ⟨first, s₂, r, s₃, comma, s₄, hFirst, hComes, hComma, hName⟩, hLong⟩
    · rintro ⟨s', hName | ⟨first, s₂, r, s₃, comma, s₄, hFirst, hComes, hComma, hName⟩, hLong⟩
      · exact Or.inl ⟨s', hName, hLong⟩
      · exact Or.inr ⟨first, s₂, hFirst, (repeating_eq_error_iff endless_ne_overrun).mpr
          ⟨r, s₃, hComes, moreArgs_eq_overrun_iff.mpr ⟨comma, s₄, s', hComma, hName, hLong⟩⟩⟩
  have hTail : ∀ (procName : Token) (res : Option String × String)
      (r : Declaration × List Declaration × Nat × Bool), Spares Failure.overrun
      (if newstyle = false ∧ r.2.2.1 > 1 then error "Only one argument is allowed"
      else if r.2.2.2 = true ∧ r.2.2.1 > 1 then error "Illegal use of void in program definition"
      else do
        let _ ← scan .rparen
        let _ ← scan .equal
        let procNum ← scanNum
        let _ ← scan .semicolon
        pure (r.1, (⟨procName.str, procNum.str, ⟨"", r.2.1⟩, r.2.2.1, res.2, res.1⟩ : Proc)) :
        Parser (Declaration × Proc)) := fun _ _ _ =>
    Spares.ite (spares_error _) (Spares.ite (spares_error _)
      ((spares_scan _).bind fun _ => (spares_scan _).bind fun _ => spares_scanNum.bind fun _ =>
        (spares_scan _).bind fun _ => Spares.pure _))
  have hHead : defProc newstyle dec s = .error .overrun ↔
      ∃ tok s₁, procHead s = .ok (tok, s₁) ∧ procArgs dec s₁ = .error .overrun := by
    rw [defProc, (spares_getType _).bind_eq_error_iff]
    constructor
    · rintro ⟨res, s₁, hType, hFail⟩
      split at hFail
      · exact absurd hFail (spares_error _ s₁)
      · next hOpaque =>
          obtain ⟨name, s₂, hName, hFail⟩ := (spares_scan _).bind_eq_error_iff.mp hFail
          obtain ⟨tok, s₃, hParen, hFail⟩ := (spares_scan _).bind_eq_error_iff.mp hFail
          refine ⟨tok, s₃, ?_, (bind_eq_error_iff_left (hTail name res)).mp hFail⟩
          rw [procHead, Reader.bind_ok hType, if_neg hOpaque, Reader.bind_ok hName]
          exact hParen
    · rintro ⟨tok, s₃, hOk, hFail⟩
      obtain ⟨res, s₁, hType, hOk⟩ := bind_eq_ok_iff.mp hOk
      refine ⟨res, s₁, hType, ?_⟩
      split at hOk
      · cases hOk
      · next hOpaque =>
          obtain ⟨name, s₂, hName, hParen⟩ := bind_eq_ok_iff.mp hOk
          rw [if_neg hOpaque, Reader.bind_ok hName, Reader.bind_ok hParen]
          exact (bind_eq_error_iff_left (hTail name res)).mpr hFail
  rw [hHead]
  constructor
  · rintro ⟨tok, s₁, hOk, hFail⟩
    obtain ⟨s', hName, hLong⟩ := (hArgs s₁).mp hFail
    exact ⟨s', ⟨tok, s₁, hOk, hName⟩, hLong⟩
  · rintro ⟨s', ⟨tok, s₁, hOk, hName⟩, hLong⟩
    exact ⟨tok, s₁, hOk, (hArgs s₁).mpr ⟨s', hName, hLong⟩⟩

/-- `locase` overruns its array with the name of a procedure. -/
theorem nameArgs_eq_overrun_iff {versNum : String} {procs : List Proc} :
    nameArgs versNum procs s = .error .overrun ↔ ∃ p ∈ procs, 100 ≤ p.procName.length := by
  induction procs with
  | nil => exact iff_of_false nofun nofun
  | cons p procs ih =>
      rw [nameArgs, makeArgname, locase]
      by_cases hShort : p.procName.length < 100
      · rw [if_pos hShort]
        dsimp only [Option.map_some]
        rw [bind_eq_error_iff_left fun _ => Spares.pure _, ih]
        simp [hShort]
      · rw [if_neg hShort]
        exact iff_of_true rfl ⟨p, List.mem_cons_self, Nat.le_of_not_lt hShort⟩

theorem defVersion_eq_overrun_iff :
    defVersion newstyle dec s = .error .overrun ↔
      (∃ dec' s₁ s', ProcIn newstyle dec s dec' s₁ ∧ ProcArgnameIn dec' s₁ s' ∧ LongNext s') ∨
        ∃ procs, ProcsIn newstyle dec s procs ∧ ∃ p ∈ procs, 100 ≤ p.procName.length := by
  have hProc : ∀ (r : Declaration × List Proc) s, versionProc newstyle r s = .error .overrun ↔
      ∃ s', ProcArgnameIn r.1 s s' ∧ LongNext s' := by
    intro r s
    rw [versionProc, bind_eq_error_iff_left fun _ => spares_peek.bind fun _ => Spares.pure _]
    exact defProc_eq_overrun_iff
  have hNames : ∀ (versName : Token) (r : Declaration × List Proc) (num : Token) s,
      (do let procs ← nameArgs num.str r.2
          let _ ← scan .semicolon
          pure (r.1, (⟨versName.str, num.str, procs⟩ : Version)) :
            Parser (Declaration × Version)) s = .error .overrun ↔
        ∃ p ∈ r.2, 100 ≤ p.procName.length := by
    intro versName r num s
    rw [bind_eq_error_iff_left fun _ => (spares_scan _).bind fun _ => Spares.pure _]
    exact nameArgs_eq_overrun_iff
  rw [defVersion, (spares_scan _).bind_eq_error_iff]
  constructor
  · rintro ⟨versName, s₁, hName, hFail⟩
    obtain ⟨tok, s₂, hBrace, hFail⟩ := (spares_scan _).bind_eq_error_iff.mp hFail
    have hHead : versionHead s = .ok (tok, s₂) := by
      rw [versionHead, Reader.bind_ok hName]
      exact hBrace
    rcases bind_eq_error_iff.mp hFail with hLoop | ⟨r, s₃, hLoop, hFail⟩
    · obtain ⟨r, s₃, hComes, hBody⟩ := (repeating_eq_error_iff endless_ne_overrun).mp hLoop
      obtain ⟨s', hArg, hLong⟩ := (hProc r s₃).mp hBody
      exact Or.inl ⟨r.1, s₃, s', ⟨tok, s₂, r.2, hHead, hComes⟩, hArg, hLong⟩
    · obtain ⟨brace, s₄, hClose, hFail⟩ := (spares_scan _).bind_eq_error_iff.mp hFail
      obtain ⟨equal, s₅, hEqual, hFail⟩ := (spares_scan _).bind_eq_error_iff.mp hFail
      obtain ⟨num, s₆, hNum, hFail⟩ := spares_scanNum.bind_eq_error_iff.mp hFail
      refine Or.inr ⟨r.2, ⟨tok, s₂, r.1, s₃, num, s₆, hHead, hLoop, ?_⟩,
        (hNames versName r num s₆).mp hFail⟩
      rw [versionNum, Reader.bind_ok hClose, Reader.bind_ok hEqual]
      exact hNum
  · rintro (⟨dec', s₃, s', ⟨tok, s₂, procs, hHead, hComes⟩, hArg, hLong⟩ |
      ⟨procs, ⟨tok, s₂, dec', s₃, num, s₆, hHead, hLoop, hVersion⟩, hLong⟩)
    · obtain ⟨versName, s₁, hName, hBrace⟩ := bind_eq_ok_iff.mp hHead
      refine ⟨versName, s₁, hName, ?_⟩
      rw [Reader.bind_ok hBrace, bind_eq_error_iff]
      exact Or.inl ((repeating_eq_error_iff endless_ne_overrun).mpr
        ⟨(dec', procs), s₃, hComes, (hProc _ s₃).mpr ⟨s', hArg, hLong⟩⟩)
    · obtain ⟨versName, s₁, hName, hBrace⟩ := bind_eq_ok_iff.mp hHead
      obtain ⟨brace, s₄, hClose, hRest⟩ := bind_eq_ok_iff.mp hVersion
      obtain ⟨equal, s₅, hEqual, hNum⟩ := bind_eq_ok_iff.mp hRest
      refine ⟨versName, s₁, hName, ?_⟩
      rw [Reader.bind_ok hBrace, Reader.bind_ok hLoop, Reader.bind_ok hClose,
        Reader.bind_ok hEqual, Reader.bind_ok hNum]
      exact (hNames versName (dec', procs) num s₆).mpr hLong

theorem defProgram_eq_overrun_iff :
    defProgram newstyle stale s = .error .overrun ↔
      ∃ dec s₁, VersionIn newstyle stale s dec s₁ ∧
        defVersion newstyle dec s₁ = .error .overrun := by
  have hVersion : ∀ (r : Declaration × List Version) s,
      programVersion newstyle r s = .error .overrun ↔
        defVersion newstyle r.1 s = .error .overrun := by
    intro r s
    rw [programVersion, bind_eq_error_iff_left fun _ =>
      (spares_scan2 _ _).bind fun _ => Spares.pure _]
  have hLoop : ∀ (name : Token) s, (do
      let r ← Reader.repeating Failure.endless (programVersion newstyle) (stale, [])
      let _ ← scan .equal
      let progNum ← scanNum
      pure (⟨name.str, .program ⟨progNum.str, r.2⟩⟩ : Definition) : Parser Definition) s =
        .error .overrun ↔ ∃ r s', Comes (programVersion newstyle) (stale, []) s r s' ∧
          defVersion newstyle r.1 s' = .error .overrun := by
    intro name s
    rw [bind_eq_error_iff_left fun _ => (spares_scan _).bind fun _ =>
      spares_scanNum.bind fun _ => Spares.pure _, repeating_eq_error_iff endless_ne_overrun]
    exact exists_congr fun r => exists_congr fun s' => and_congr_right fun _ => hVersion r s'
  rw [defProgram, (spares_scan _).bind_eq_error_iff]
  constructor
  · rintro ⟨name, s₁, hName, hFail⟩
    obtain ⟨brace, s₂, hBrace, hFail⟩ := (spares_scan _).bind_eq_error_iff.mp hFail
    obtain ⟨tok, s₃, hWord, hFail⟩ := (spares_scan _).bind_eq_error_iff.mp hFail
    obtain ⟨r, s', hComes, hFail⟩ := (hLoop name s₃).mp hFail
    refine ⟨r.1, s', ⟨tok, s₃, r.2, ?_, hComes⟩, hFail⟩
    rw [programHead, Reader.bind_ok hName, Reader.bind_ok hBrace]
    exact hWord
  · rintro ⟨dec, s', ⟨tok, s₃, versions, hHead, hComes⟩, hFail⟩
    obtain ⟨name, s₁, hName, hRest⟩ := bind_eq_ok_iff.mp hHead
    obtain ⟨brace, s₂, hBrace, hWord⟩ := bind_eq_ok_iff.mp hRest
    refine ⟨name, s₁, hName, ?_⟩
    rw [Reader.bind_ok hBrace, Reader.bind_ok hWord]
    exact (hLoop name s₃).mpr ⟨(dec, versions), s', hComes, hFail⟩

/-- A program definition is read without overrunning an array if its names fit, and only then. -/
theorem defProgram_fits_iff :
    defProgram newstyle stale s ≠ .error .overrun ↔ ProgramNamesFit newstyle stale s := by
  rw [Ne, defProgram_eq_overrun_iff]
  constructor
  · intro h
    refine ⟨fun dec s₁ dec' s₂ s' hVersion hProc hArg tok s'' hNext => ?_,
      fun dec s₁ procs hVersion hProcs p hp => ?_⟩
    · by_contra hLong
      exact h ⟨dec, s₁, hVersion, defVersion_eq_overrun_iff.mpr
        (Or.inl ⟨dec', s₂, s', hProc, hArg, tok, s'', hNext, Nat.le_of_not_lt hLong⟩)⟩
    · by_contra hLong
      exact h ⟨dec, s₁, hVersion, defVersion_eq_overrun_iff.mpr
        (Or.inr ⟨procs, hProcs, p, hp, Nat.le_of_not_lt hLong⟩)⟩
  · rintro h ⟨dec, s₁, hVersion, hFail⟩
    rcases defVersion_eq_overrun_iff.mp hFail with
      ⟨dec', s₂, s', hProc, hArg, tok, s'', hNext, hLong⟩ | ⟨procs, hProcs, p, hp, hLong⟩
    · exact absurd (h.argnames dec s₁ dec' s₂ s' hVersion hProc hArg tok s'' hNext)
        (Nat.not_lt_of_le hLong)
    · exact absurd (h.procNames dec s₁ procs hVersion hProcs p hp) (Nat.not_lt_of_le hLong)

/-- Of the definitions only that of a program overruns an array. -/
theorem getDefinition_eq_overrun_iff {defined : List Definition} :
    getDefinition newstyle stale defined s = .error .overrun ↔
      ∃ tok s₁, getToken s = .ok (tok, s₁) ∧ tok.kind = .program ∧
        defProgram newstyle stale s₁ = .error .overrun := by
  have hFinish : ∀ p : Parser Definition, Spares Failure.overrun p → Spares Failure.overrun
      (do let defp ← p
          let _ ← scan .semicolon
          pure (some defp, defined ++ [defp]) :
            Parser (Option Definition × List Definition)) :=
    fun p hp => hp.bind fun _ => (spares_scan _).bind fun _ => Spares.pure _
  rw [getDefinition, spares_getToken.bind_eq_error_iff]
  refine exists_congr fun tok => exists_congr fun s₁ => and_congr_right fun _ => ?_
  by_cases hProgram : tok.kind = .program
  · rw [hProgram]
    dsimp only
    rw [bind_eq_error_iff_left fun _ => (spares_scan _).bind fun _ => Spares.pure _]
    exact (and_iff_right rfl).symm
  · refine iff_of_false ?_ fun h => hProgram h.1
    dsimp only
    cases hKind : tok.kind with
    | program => exact absurd hKind hProgram
    | struct => exact hFinish _ (spares_defStruct _) s₁
    | union => exact hFinish _ (spares_defUnion _) s₁
    | typedef => exact hFinish _ (spares_defTypedef _) s₁
    | enum => exact hFinish _ spares_defEnum s₁
    | const => exact hFinish _ spares_defConst s₁
    | eof => exact Spares.pure _ s₁
    | _ => exact spares_error _ s₁

end Overruns

end OncRpc.Rpcgen
