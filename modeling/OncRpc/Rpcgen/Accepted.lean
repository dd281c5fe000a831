import OncRpc.Rpcgen.Grammar
import OncRpc.Rpcgen.Layout

/-! What is known of the definitions that the parser accepts, whatever the tokens are. -/
namespace OncRpc.Rpcgen

open Lookahead

/-- The words that the scanner knows. -/
def keywords : List String := symbols.map Token.str

/-- A token that the scanner makes: a known word is never an identifier. -/
def Token.Scanned (t : Token) : Prop :=
  (t.kind = .ident → t.str ∉ keywords) ∧ (t.kind ∈ symbols.map Token.kind → t ∈ symbols)

/-- A prefix is one of three words, and goes with a name. -/
def TypeAccepted (prefixWord : Option String) (type : String) : Prop :=
  ∀ k, prefixWord = some k → k ∈ ["struct", "enum", "union"] ∧ type ∉ keywords

/-- A member, or an arm that may be void. -/
structure Declaration.Accepted (mayVoid : Bool) (dec : Declaration) : Prop where
  type : TypeAccepted dec.prefixWord dec.type
  void : dec.type = "void" → mayVoid = true ∧ dec.rel = .alias
  opaqueData : dec.type = "opaque" → dec.rel = .array ∨ dec.rel = .vector
  string : dec.type = "string" → dec.rel = .array
  name : dec.type ≠ "void" → dec.name ∉ keywords

/-- An argument of a procedure. -/
structure Declaration.AcceptedArg (dec : Declaration) : Prop where
  type : TypeAccepted dec.prefixWord dec.type
  void : dec.type = "void" → dec.rel = .alias
  notOpaque : dec.type ≠ "opaque"
  string : dec.type = "string" ↔ dec.rel = .array
  notVector : dec.rel ≠ .vector

structure Proc.Accepted (newstyle : Bool) (p : Proc) : Prop where
  some : p.args.decls ≠ []
  count : p.argNum = p.args.decls.length
  one : newstyle = false → p.args.decls.length = 1
  void : 1 < p.args.decls.length → ∀ dec ∈ p.args.decls, dec.type ≠ "void"
  args : ∀ dec ∈ p.args.decls, dec.AcceptedArg
  result : TypeAccepted p.resPrefix p.resType
  notOpaque : p.resType ≠ "opaque"

structure Version.Accepted (newstyle : Bool) (v : Version) : Prop where
  some : v.procs ≠ []
  procs : ∀ p ∈ v.procs, p.Accepted newstyle
  argnames : ∀ p ∈ v.procs, p.args.argname = argnameText p.procName v.versNum

structure UnionDef.Accepted (un : UnionDef) : Prop where
  enumDecl : un.enumDecl.Accepted true
  cases : ∀ c ∈ un.cases, c.contflag = false → c.caseDecl.Accepted true
  last : ∃ last, un.cases.getLast? = some last ∧ last.contflag = false
  default : ∀ dec ∈ un.defaultDecl, dec.Accepted true

def DefBody.Accepted (newstyle : Bool) (name : String) : DefBody → Prop
  | .const _ => True
  | .struct decls => decls ≠ [] ∧ ∀ dec ∈ decls, dec.Accepted false
  | .union un => un.Accepted
  | .enum _ => True
  | .typedef ty => Declaration.Accepted false ⟨ty.oldPrefix, ty.oldType, name, ty.rel, ty.arrayMax⟩
  | .program pr => pr.versions ≠ [] ∧ ∀ v ∈ pr.versions, v.Accepted newstyle

structure Definition.Accepted (newstyle : Bool) (d : Definition) : Prop where
  name : d.defName ∉ keywords
  body : d.body.Accepted newstyle d.defName

section Scanner

open Rpcgen.Parser

theorem yields_getToken : Yields Token.Scanned getToken Token.Scanned :=
  yields_next ⟨nofun, by decide⟩

theorem yields_scan (k : TokKind) :
    Yields Token.Scanned (scan k) fun t => t.Scanned ∧ t.kind = k := by
  apply yields_getToken.bind
  intro t ht
  exact Yields.ite (fun _ => Yields.fail _) fun h => Yields.pure ⟨ht, not_not.mp h⟩

theorem yields_scan2 (k k' : TokKind) :
    Yields Token.Scanned (scan2 k k') fun t => t.Scanned ∧ (t.kind = k ∨ t.kind = k') := by
  apply yields_getToken.bind
  intro t ht
  exact Yields.ite (fun _ => Yields.fail _) fun h => Yields.pure ⟨ht, by tauto⟩

theorem yields_scan3 (k k' k'' : TokKind) :
    Yields Token.Scanned (scan3 k k' k'') fun t => t.Scanned := by
  apply yields_getToken.bind
  intro t ht
  exact Yields.ite (fun _ => Yields.fail _) fun h => Yields.pure ht

theorem yields_scanNum : Yields Token.Scanned scanNum fun t => t.Scanned := by
  apply yields_getToken.bind
  intro t ht
  exact Yields.ite (fun _ => Yields.fail _) fun h => Yields.pure ht

theorem yields_peek : Yields Token.Scanned peek Token.Scanned := by
  apply yields_getToken.bind
  intro t ht
  apply (yields_unget ht).bind
  exact fun _ _ => Yields.pure ht

theorem yields_peekscan (k : TokKind) :
    Yields Token.Scanned (peekscan k) fun o => ∀ t ∈ o, t.Scanned := by
  apply yields_peek.bind
  intro t ht
  apply Yields.ite
  · intro _
    apply yields_getToken.bind
    intro u hu
    exact Yields.pure (by simpa using hu)
  · intro _
    exact Yields.pure (by simp)

/-- A loop over tokens that are hoped for. -/
theorem Yields.peekscan {α : Type} {k : TokKind} {f : Option Token → Parser α} {post : α → Prop}
    (hNone : Yields Token.Scanned (f none) post)
    (hSome : ∀ t : Token, t.Scanned → Yields Token.Scanned (f (some t)) post) :
    Yields Token.Scanned (peekscan k >>= f) post := by
  apply (yields_peekscan k).bind
  rintro (_ | t) ht
  · exact hNone
  · exact hSome t (ht t rfl)

/-- A loop that collects what its rounds find. -/
theorem Yields.collecting {α β : Type} {body : β × List α → Parser ((β × List α) × Bool)}
    {post : α → Prop} (hBody : ∀ r : β × List α, Yields Token.Scanned (body r)
      fun r' => ∃ a, post a ∧ r'.1.2 = r.2 ++ [a]) {b : β} :
    Yields Token.Scanned (Reader.repeating Failure.endless body (b, []))
      fun r => r.2 ≠ [] ∧ ∀ a ∈ r.2, post a := by
  refine Yields.repeating (fun r => ∀ a ∈ r.2, post a) ?_ (fun _ h => h.2) nofun
  intro r hAll
  apply (hBody r).mono
  rintro r' ⟨a, ha, hList⟩
  rw [hList]
  refine ⟨by simp, fun a' ha' => ?_⟩
  rcases List.mem_append.mp ha' with hOld | hNew
  · exact hAll a' hOld
  · rw [List.mem_singleton.mp hNew]
    exact ha

end Scanner

section Declarations

open Rpcgen.Parser

theorem yields_unsignedDec : Yields Token.Scanned unsignedDec fun s => s ∈ ["u_char", "u_short",
    "u_long", "u_longlong_t", "u_int"] := by
  have hInt : ∀ s, s ∈ ["u_char", "u_short", "u_long", "u_longlong_t", "u_int"] →
      Yields Token.Scanned (do
          let _ ← getToken
          let _ ← peekscan .int
          pure s : Parser String) fun s => s ∈ ["u_char", "u_short", "u_long", "u_longlong_t",
          "u_int"] := by
    intro s hs
    apply yields_getToken.bind
    intro _ _
    exact (yields_peekscan _).bind fun _ _ => Yields.pure hs
  apply yields_peek.bind
  intro t _
  unfold unsignedWord
  split
  · exact yields_getToken.bind fun _ _ => Yields.pure (by simp)
  · exact hInt _ (by simp)
  · exact hInt _ (by simp)
  · exact hInt _ (by simp)
  · exact yields_getToken.bind fun _ _ => Yields.pure (by simp)
  · exact Yields.pure (by simp)

/-- A type that `get_type` yields. -/
def GotType (dkind : DefKind) (r : Option String × String) : Prop :=
  TypeAccepted r.1 r.2 ∧ (r.2 = "void" → dkind = .union ∨ dkind = .program)

theorem gotType_none {dkind : DefKind} {s : String} (h : s ≠ "void") : GotType dkind (none, s) :=
  ⟨nofun, fun hVoid => absurd hVoid h⟩

theorem yields_getType (dkind : DefKind) :
    Yields Token.Scanned (getType dkind) (GotType dkind) := by
  apply yields_getToken.bind
  rintro ⟨k, s⟩ hScanned
  have hName : ∀ t : Token, t.Scanned → t.kind = .ident → t.str ≠ "void" := by
    intro t ht hKind hVoid
    exact ht.1 hKind (by rw [hVoid]; decide)
  have hText : ∀ s', k ∈ symbols.map Token.kind → (∀ t ∈ symbols, t.kind = k → t.str = s') →
      s = s' := fun s' hMem hAll => hAll ⟨k, s⟩ (hScanned.2 hMem) rfl
  have hTagged : ∀ s', s' ∈ ["struct", "enum", "union"] → s = s' →
      Yields Token.Scanned (do
        let name ← scan .ident
        pure (some s, name.str) : Parser (Option String × String)) (GotType dkind) := by
    intro s' hMem hEq
    apply (yields_scan .ident).bind
    rintro t ⟨ht, hKind⟩
    refine Yields.pure ⟨?_, fun hVoid => absurd hVoid (hName t ht hKind)⟩
    rintro w hWord
    obtain rfl : s = w := Option.some.inj hWord
    exact ⟨hEq ▸ hMem, ht.1 hKind⟩
  have hWord : ∀ s', s' ≠ "void" → Yields Token.Scanned (do
        let _ ← peekscan .int
        pure (none, s') : Parser (Option String × String)) (GotType dkind) := fun s' hNot =>
    (yields_peekscan .int).bind fun _ _ => Yields.pure (gotType_none hNot)
  cases k
  case ident => exact Yields.pure (gotType_none (hName ⟨.ident, s⟩ hScanned rfl))
  case struct => exact hTagged "struct" (by decide) (hText _ (by decide) (by decide))
  case enum => exact hTagged "enum" (by decide) (hText _ (by decide) (by decide))
  case union => exact hTagged "union" (by decide) (hText _ (by decide) (by decide))
  case unsigned =>
    apply yields_unsignedDec.bind
    intro type hMem
    refine Yields.pure (gotType_none ?_)
    rintro rfl
    revert hMem
    decide
  case short => exact hWord _ (by decide)
  case long => exact hWord _ (by decide)
  case hyper => exact hWord _ (by decide)
  case void =>
    refine Yields.ite (fun _ => Yields.fail _) fun h => Yields.pure ⟨nofun, fun _ => ?_⟩
    tauto
  case string | opaqueData | char | int | float | double | bool | quad =>
    refine Yields.pure (gotType_none ?_)
    rintro rfl
    exact absurd (hScanned.2 (by decide)) (by decide)
  all_goals exact Yields.fail _

theorem yields_checkTypeName (name : String) (newType : Bool) :
    Yields Token.Scanned (checkTypeName name newType) fun _ => True :=
  Yields.ite (fun _ => Yields.fail _) fun _ => Yields.pure trivial

theorem yields_angleBound : Yields Token.Scanned angleBound fun _ => True := by
  apply Yields.peekscan
  · exact yields_scanNum.bind fun _ _ => (yields_scan _).bind fun _ _ => Yields.pure trivial
  · exact fun _ _ => Yields.pure trivial

/-- The parts of a declaration that are read behind its type change its name and its relation. -/
def SameType (dec dec' : Declaration) : Prop :=
  dec'.prefixWord = dec.prefixWord ∧ dec'.type = dec.type

theorem yields_declName (dec : Declaration) :
    Yields Token.Scanned (declName dec) fun r => SameType dec r ∧ r.name ∉ keywords := by
  apply (yields_scan2 _ _).bind
  rintro t ⟨ht, hKind⟩
  apply Yields.ite
  · intro _
    exact (yields_scan _).bind fun u hu => Yields.pure ⟨⟨rfl, rfl⟩, hu.1.1 hu.2⟩
  · intro hStar
    exact Yields.pure ⟨⟨rfl, rfl⟩, ht.1 (hKind.resolve_left hStar)⟩

theorem yields_declBound (dec : Declaration) :
    Yields Token.Scanned (declBound dec) fun r => SameType dec r ∧ r.name = dec.name := by
  apply Yields.peekscan
  · apply Yields.peekscan
    · exact Yields.pure ⟨⟨rfl, rfl⟩, rfl⟩
    · intro _ _
      refine Yields.ite (fun _ => Yields.fail _) fun _ => ?_
      exact yields_angleBound.bind fun _ _ => Yields.pure ⟨⟨rfl, rfl⟩, rfl⟩
  · intro _ _
    refine Yields.ite (fun _ => Yields.fail _) fun _ => ?_
    exact yields_scanNum.bind fun _ _ => (yields_scan _).bind fun _ _ => Yields.pure ⟨⟨rfl, rfl⟩, rfl⟩

theorem yields_declCheck (dec : Declaration) :
    Yields Token.Scanned (declCheck dec) fun r => r = dec ∧
      (dec.type = "opaque" → dec.rel = .array ∨ dec.rel = .vector) ∧
      (dec.type = "string" → dec.rel = .array) := by
  apply Yields.ite
  · intro hOpaque
    refine Yields.ite (fun _ => Yields.fail _) fun h => Yields.pure ⟨rfl, fun _ => ?_, ?_⟩
    · tauto
    · intro hString
      rw [hOpaque] at hString
      exact absurd hString (by decide)
  · intro hOpaque
    apply Yields.ite
    · intro _
      refine Yields.ite (fun _ => Yields.fail _) fun h => Yields.pure ⟨rfl, ?_, fun _ => ?_⟩
      · exact fun h => absurd h hOpaque
      · exact not_not.mp h
    · intro hString
      exact Yields.pure ⟨rfl, fun h => absurd h hOpaque, fun h => absurd h hString⟩

theorem yields_getDeclaration (dec : Declaration) (dkind : DefKind) :
    Yields Token.Scanned (getDeclaration dec dkind)
      (Declaration.Accepted (decide (dkind = .union ∨ dkind = .program))) := by
  apply (yields_getType dkind).bind
  rintro ⟨word, type⟩ ⟨hType, hMay⟩
  apply Yields.ite
  · intro hVoid
    have hVoid : type = "void" := hVoid
    subst hVoid
    exact Yields.pure ⟨hType, fun _ => ⟨decide_eq_true (hMay rfl), rfl⟩,
      fun h => absurd h (by simp), fun h => absurd h (by simp), fun h => absurd rfl h⟩
  · intro hVoid
    apply (yields_checkTypeName _ _).bind
    intro _ _
    apply (yields_declName _).bind
    rintro dec1 ⟨⟨hPrefix1, hType1⟩, hName1⟩
    apply (yields_declBound _).bind
    rintro dec2 ⟨⟨hPrefix2, hType2⟩, hName2⟩
    apply (yields_declCheck _).mono
    rintro r ⟨rfl, hOpaque, hString⟩
    have hSame : r.type = type := hType2.trans hType1
    refine ⟨?_, ?_, hOpaque, hString, fun _ => hName2 ▸ hName1⟩
    · rw [hSame, hPrefix2, hPrefix1]
      exact hType
    · rw [hSame]
      exact fun h => absurd h hVoid

/-! ### Procedures -/

theorem yields_argName (num : Nat) : Yields Token.Scanned (argName num) fun _ => True := by
  apply Yields.peekscan
  · exact Yields.pure trivial
  · exact fun _ _ => Yields.ite (fun _ => Yields.pure trivial) fun _ => Yields.fail _

/-- Behind the type of an argument that is no array yet. -/
theorem yields_argPointer (dec : Declaration) (hAlias : dec.rel = .alias) :
    Yields Token.Scanned (argPointer dec) fun r => SameType dec r ∧
      (r.rel = .alias ∨ r.rel = .pointer ∧ dec.type ≠ "string") := by
  apply Yields.peekscan
  · exact Yields.pure ⟨⟨rfl, rfl⟩, Or.inl hAlias⟩
  · intro _ _
    refine Yields.ite (fun _ => Yields.fail _) fun hString => ?_
    apply Yields.peekscan
    · exact Yields.pure ⟨⟨rfl, rfl⟩, Or.inr ⟨rfl, hString⟩⟩
    · exact fun _ _ => Yields.pure ⟨⟨rfl, rfl⟩, Or.inr ⟨rfl, hString⟩⟩

theorem yields_argBound (dec : Declaration) :
    Yields Token.Scanned (argBound dec) fun r => SameType dec r ∧
      (r.rel = dec.rel ∨ r.rel = .array ∧ dec.type = "string") := by
  apply Yields.peekscan
  · exact Yields.pure ⟨⟨rfl, rfl⟩, Or.inl rfl⟩
  · intro _ _
    refine Yields.ite (fun _ => Yields.fail _) fun hString => ?_
    exact yields_angleBound.bind fun _ _ =>
      Yields.pure ⟨⟨rfl, rfl⟩, Or.inr ⟨rfl, not_not.mp hString⟩⟩

/-- An argument behind the first one is not void. -/
def GotArg (dkind : DefKind) (dec : Declaration) : Prop :=
  dec.AcceptedArg ∧ (dec.type = "void" → dkind = .union ∨ dkind = .program)

theorem yields_getProgDeclarationSome (dec : Declaration) (dkind : DefKind) (num : Nat) :
    Yields Token.Scanned (getProgDeclarationSome dec dkind num) (GotArg dkind) := by
  apply (yields_getType dkind).bind
  rintro ⟨word, type⟩ ⟨hType, hMay⟩
  apply (yields_argName num).bind
  intro name _
  apply Yields.ite
  · intro hVoid
    have hVoid : type = "void" := hVoid
    subst hVoid
    exact Yields.pure ⟨⟨hType, fun _ => rfl, by simp, by simp, by simp⟩, hMay⟩
  · intro hVoid
    refine Yields.ite (fun _ => Yields.fail _) fun hOpaque => ?_
    apply (yields_argPointer _ rfl).bind
    rintro dec1 ⟨⟨hPrefix1, hType1⟩, hRel1⟩
    apply (yields_argBound dec1).bind
    rintro dec2 ⟨⟨hPrefix2, hType2⟩, hRel2⟩
    have hSame : dec2.type = type := hType2.trans hType1
    have hTyped : TypeAccepted dec2.prefixWord dec2.type := by
      rw [hSame, hPrefix2, hPrefix1]
      exact hType
    have hNotVoid : dec2.type ≠ "void" := hSame ▸ hVoid
    apply Yields.ite
    · rintro ⟨hString, -⟩
      exact Yields.pure ⟨⟨hTyped, fun h => absurd h hNotVoid, hSame ▸ hOpaque,
        ⟨fun _ => rfl, fun _ => hString⟩, by simp⟩, fun h => absurd h hNotVoid⟩
    · intro hArray
      refine Yields.pure ⟨⟨hTyped, fun h => absurd h hNotVoid, hSame ▸ hOpaque, ?_, ?_⟩,
        fun h => absurd h hNotVoid⟩
      · constructor
        · intro hString
          by_contra hNot
          exact hArray ⟨hString, hNot⟩
        · intro hRel
          rcases hRel2 with hKept | ⟨-, hString⟩
          · rcases hRel1 with hAlias | ⟨hPointer, -⟩
            · rw [hKept, hAlias] at hRel
              cases hRel
            · rw [hKept, hPointer] at hRel
              cases hRel
          · rw [hType2, hString]
      · rcases hRel2 with hKept | ⟨hArr, -⟩
        · rcases hRel1 with hAlias | ⟨hPointer, -⟩
          · rw [hKept, hAlias]
            decide
          · rw [hKept, hPointer]
            decide
        · rw [hArr]
          decide

theorem yields_getProgDeclaration (dec : Declaration) (dkind : DefKind) (num : Nat) :
    Yields Token.Scanned (getProgDeclaration dec dkind num) (GotArg dkind) := by
  apply Yields.ite
  · intro hProgram
    apply yields_peek.bind
    intro t _
    apply Yields.ite
    · intro _
      exact Yields.pure ⟨⟨nofun, fun _ => rfl, by simp, by simp, by simp⟩, fun _ => Or.inr hProgram⟩
    · intro _
      exact yields_getProgDeclarationSome dec dkind num
  · intro _
    exact yields_getProgDeclarationSome dec dkind num

/-- The arguments that have been read, and the count of them. -/
def GotArgs (r : Declaration × List Declaration × Nat × Bool) : Prop :=
  r.2.1 ≠ [] ∧ r.2.2.1 = r.2.1.length ∧ (∀ dec ∈ r.2.1, dec.AcceptedArg) ∧
    (r.2.2.2 = false → ∀ dec ∈ r.2.1, dec.type ≠ "void")

theorem yields_procArgs (dec : Declaration) :
    Yields Token.Scanned (procArgs dec) GotArgs := by
  apply (yields_getProgDeclaration dec .program 1).bind
  rintro first ⟨hFirst, -⟩
  refine Yields.repeating GotArgs ?_ (fun _ => id) ?_
  · rintro ⟨last, decls, num, isvoid⟩ ⟨hSome, hCount, hAll, hVoid⟩
    apply Yields.peekscan
    · exact Yields.pure ⟨hSome, hCount, hAll, hVoid⟩
    · intro _ _
      apply (yields_getProgDeclaration last .struct (num + 1)).bind
      rintro d ⟨hd, hNotVoid⟩
      refine Yields.pure ⟨by simp, ?_, ?_, ?_⟩
      · simp only [List.length_append, List.length_singleton]
        rw [← hCount]
      · intro e he
        rcases List.mem_append.mp he with hOld | hNew
        · exact hAll e hOld
        · rw [List.mem_singleton.mp hNew]
          exact hd
      · intro hNone e he
        obtain ⟨hBefore, hLast⟩ := Bool.or_eq_false_iff.mp hNone
        rcases List.mem_append.mp he with hOld | hNew
        · exact hVoid hBefore e hOld
        · rw [List.mem_singleton.mp hNew]
          exact of_decide_eq_false hLast
  · refine ⟨by simp, by simp, by simpa using hFirst, ?_⟩
    intro hNone
    simpa using hNone

theorem yields_defProc (newstyle : Bool) (dec : Declaration) :
    Yields Token.Scanned (defProc newstyle dec) fun r => r.2.Accepted newstyle := by
  apply (yields_getType .program).bind
  rintro ⟨word, type⟩ ⟨hType, -⟩
  refine Yields.ite (fun _ => Yields.fail _) fun hOpaque => ?_
  apply (yields_scan _).bind
  intro procName _
  apply (yields_scan _).bind
  intro _ _
  apply (yields_procArgs dec).bind
  rintro ⟨last, decls, num, isvoid⟩ ⟨hSome, hCount, hAll, hVoid⟩
  refine Yields.ite (fun _ => Yields.fail _) fun hOne => ?_
  refine Yields.ite (fun _ => Yields.fail _) fun hMany => ?_
  apply (yields_scan _).bind
  intro _ _
  apply (yields_scan _).bind
  intro _ _
  apply yields_scanNum.bind
  intro procNum _
  apply (yields_scan _).bind
  intro _ _
  have hPos : 0 < decls.length := List.length_pos_iff.mpr hSome
  have hCount : num = decls.length := hCount
  refine Yields.pure ⟨hSome, hCount, ?_, ?_, hAll, hType, hOpaque⟩
  · intro hOld
    by_contra hNot
    have hMore : 1 < decls.length := by
      change ¬ decls.length = 1 at hNot
      omega
    exact hOne ⟨hOld, hCount ▸ hMore⟩
  · intro hLong
    apply hVoid
    by_contra hSet
    exact hMany ⟨by simpa using hSet, hCount ▸ hLong⟩

theorem argname_of_makeArgname {pname vname name : String} (h : makeArgname pname vname = some name) :
    name = argnameText pname vname := by
  unfold makeArgname locase at h
  split at h
  · exact (Option.some.inj h).symm
  · cases h

theorem yields_nameArgs {newstyle : Bool} (versNum : String) {procs : List Proc}
    (hProcs : ∀ p ∈ procs, p.Accepted newstyle) :
    Yields Token.Scanned (nameArgs versNum procs) fun r => r.length = procs.length ∧
      ∀ p ∈ r, p.Accepted newstyle ∧ p.args.argname = argnameText p.procName versNum := by
  induction procs with
  | nil => exact Yields.pure ⟨rfl, nofun⟩
  | cons p procs ih =>
      unfold nameArgs
      split
      · next name hName =>
          apply (ih fun q hq => hProcs q (List.mem_cons_of_mem p hq)).bind
          rintro r ⟨hLength, hAll⟩
          refine Yields.pure ⟨by simp [hLength], ?_⟩
          intro q hq
          rcases List.mem_cons.mp hq with rfl | hMem
          · obtain ⟨hSome, hCount, hOne, hVoid, hArgs, hResult, hOpaque⟩ := hProcs p (by simp)
            exact ⟨⟨hSome, hCount, hOne, hVoid, hArgs, hResult, hOpaque⟩, argname_of_makeArgname hName⟩
          · exact hAll q hMem
      · exact Yields.fail _

theorem yields_defVersion (newstyle : Bool) (dec : Declaration) :
    Yields Token.Scanned (defVersion newstyle dec) fun r => r.2.Accepted newstyle := by
  apply (yields_scan _).bind
  intro versName _
  apply (yields_scan _).bind
  intro _ _
  have hLoop : Yields Token.Scanned
      (Reader.repeating Failure.endless (versionProc newstyle) (dec, []))
      fun r => r.2 ≠ [] ∧ ∀ p ∈ r.2, p.Accepted newstyle :=
    Yields.collecting fun r => by
      apply (yields_defProc newstyle r.1).bind
      intro p hp
      exact yields_peek.bind fun _ _ => Yields.pure ⟨p.2, hp, rfl⟩
  apply hLoop.bind
  rintro ⟨last, procs⟩ ⟨hSome, hProcs⟩
  apply (yields_scan _).bind
  intro _ _
  apply (yields_scan _).bind
  intro _ _
  apply yields_scanNum.bind
  intro versNum _
  apply (yields_nameArgs versNum.str hProcs).bind
  rintro named ⟨hLength, hNamed⟩
  apply (yields_scan _).bind
  intro _ _
  refine Yields.pure ⟨?_, fun p hp => (hNamed p hp).1, fun p hp => (hNamed p hp).2⟩
  rw [← List.length_pos_iff] at hSome ⊢
  exact hLength ▸ hSome

theorem yields_defProgram (newstyle : Bool) (stale : Declaration) :
    Yields Token.Scanned (defProgram newstyle stale) (Definition.Accepted newstyle) := by
  apply (yields_scan _).bind
  rintro name ⟨hName, hIdent⟩
  apply (yields_scan _).bind
  intro _ _
  apply (yields_scan _).bind
  intro _ _
  have hLoop : Yields Token.Scanned
      (Reader.repeating Failure.endless (programVersion newstyle) (stale, []))
      fun r => r.2 ≠ [] ∧ ∀ v ∈ r.2, v.Accepted newstyle :=
    Yields.collecting fun r => by
      apply (yields_defVersion newstyle r.1).bind
      intro v hv
      exact (yields_scan2 _ _).bind fun _ _ => Yields.pure ⟨v.2, hv, rfl⟩
  apply hLoop.bind
  rintro ⟨last, versions⟩ hVersions
  apply (yields_scan _).bind
  intro _ _
  apply yields_scanNum.bind
  intro progNum _
  exact Yields.pure ⟨hName.1 hIdent, hVersions⟩

/-! ### The other definitions -/

theorem yields_defStruct (newstyle : Bool) (stale : Declaration) :
    Yields Token.Scanned (defStruct stale) (Definition.Accepted newstyle) := by
  apply (yields_scan _).bind
  rintro name ⟨hName, hIdent⟩
  apply (yields_scan _).bind
  intro _ _
  have hLoop : Yields Token.Scanned
      (Reader.repeating Failure.endless structMember (stale, []))
      fun r => r.2 ≠ [] ∧ ∀ dec ∈ r.2, dec.Accepted false :=
    Yields.collecting fun r => by
      apply (yields_getDeclaration r.1 .struct).bind
      intro dec hDec
      apply (yields_scan _).bind
      intro _ _
      exact yields_peek.bind fun _ _ => Yields.pure ⟨dec, hDec, rfl⟩
  apply hLoop.bind
  rintro ⟨last, decls⟩ hDecls
  apply yields_getToken.bind
  intro _ _
  exact Yields.pure ⟨hName.1 hIdent, hDecls⟩

theorem yields_defEnum (newstyle : Bool) :
    Yields Token.Scanned defEnum (Definition.Accepted newstyle) := by
  apply (yields_scan _).bind
  rintro name ⟨hName, hIdent⟩
  apply (yields_scan _).bind
  intro _ _
  have hLoop : Yields Token.Scanned (Reader.repeating Failure.endless enumVal [])
      fun _ => True := by
    refine Yields.repeating (fun _ => True) (fun vals _ => ?_) (fun _ => id) trivial
    apply (yields_scan _).bind
    intro val _
    apply (yields_scan3 _ _ _).bind
    intro _ _
    apply Yields.ite
    · intro _
      exact yields_scanNum.bind fun _ _ => (yields_scan2 _ _).bind fun _ _ => Yields.pure trivial
    · intro _
      exact Yields.pure trivial
  exact hLoop.bind fun _ _ => Yields.pure ⟨hName.1 hIdent, trivial⟩

theorem yields_defConst (newstyle : Bool) :
    Yields Token.Scanned defConst (Definition.Accepted newstyle) := by
  apply (yields_scan _).bind
  rintro name ⟨hName, hIdent⟩
  apply (yields_scan _).bind
  intro _ _
  exact (yields_scan2 _ _).bind fun _ _ => Yields.pure ⟨hName.1 hIdent, trivial⟩

/-- The cases that have been read. -/
def GotCases (cases : List Case) : Prop :=
  (∀ c ∈ cases, c.contflag = false → c.caseDecl.Accepted true) ∧
    ∃ last, cases.getLast? = some last ∧ last.contflag = false

theorem yields_unionArm (stale : Declaration) (r : Declaration × List Case × Token)
    (hCases : ∀ c ∈ r.2.1, c.contflag = false → c.caseDecl.Accepted true) :
    Yields Token.Scanned (unionArm stale r) fun r' => GotCases r'.1.2.1 := by
  apply (yields_scan2 _ _).bind
  intro caseName _
  apply (yields_scan _).bind
  intro _ _
  have hNames : Yields Token.Scanned
      (Reader.repeating Failure.endless moreCases ([], caseName.str)) fun _ => True := by
    refine Yields.repeating (fun _ => True) (fun r _ => ?_) (fun _ => id) trivial
    apply Yields.peekscan
    · exact Yields.pure trivial
    · exact fun _ _ => (yields_scan2 _ _).bind fun _ _ => (yields_scan _).bind fun _ _ =>
        Yields.pure trivial
  apply hNames.bind
  intro names _
  apply (yields_getDeclaration r.1 .union).bind
  intro dec hDec
  apply (yields_scan _).bind
  intro _ _
  apply (yields_scan3 _ _ _).bind
  intro tok _
  refine Yields.pure ⟨?_, ⟨names.2, false, dec⟩, by simp, rfl⟩
  intro c hc hFlag
  rcases List.mem_append.mp hc with hOld | hNew
  · rcases List.mem_append.mp hOld with hOld | hContinued
    · exact hCases c hOld hFlag
    · obtain ⟨s, -, rfl⟩ := List.mem_map.mp hContinued
      cases hFlag
  · rw [List.mem_singleton.mp hNew]
    exact hDec

theorem yields_defUnion (newstyle : Bool) (stale : Declaration) :
    Yields Token.Scanned (defUnion stale) (Definition.Accepted newstyle) := by
  apply (yields_scan _).bind
  rintro name ⟨hName, hIdent⟩
  apply (yields_scan _).bind
  intro _ _
  apply (yields_scan _).bind
  intro _ _
  apply (yields_getDeclaration stale .union).bind
  intro enumDecl hEnum
  apply (yields_scan _).bind
  intro _ _
  apply (yields_scan _).bind
  intro _ _
  apply (yields_scan _).bind
  intro tok _
  have hLoop : Yields Token.Scanned
      (Reader.repeating Failure.endless (unionArm stale) (enumDecl, [], tok))
      fun r => GotCases r.2.1 := by
    refine Yields.repeating
      (fun r => ∀ c ∈ r.2.1, c.contflag = false → c.caseDecl.Accepted true) ?_
      (fun _ h => h.1) nofun
    exact yields_unionArm stale
  apply hLoop.bind
  rintro ⟨last, cases, tok⟩ ⟨hCases, hLast⟩
  apply Yields.ite
  · intro _
    apply (yields_scan _).bind
    intro _ _
    apply (yields_getDeclaration last .union).bind
    intro dec hDec
    apply (yields_scan _).bind
    intro _ _
    apply (yields_scan _).bind
    intro _ _
    exact Yields.pure ⟨hName.1 hIdent, hEnum, hCases, hLast, by simpa using hDec⟩
  · intro _
    exact Yields.pure ⟨hName.1 hIdent, hEnum, hCases, hLast, by simp⟩

theorem yields_defTypedef (newstyle : Bool) (stale : Declaration) :
    Yields Token.Scanned (defTypedef stale) (Definition.Accepted newstyle) := by
  apply (yields_getDeclaration stale .typedef).bind
  rintro dec hDec
  apply (yields_checkTypeName _ _).bind
  intro _ _
  have hNotVoid : dec.type ≠ "void" := fun hVoid => absurd (hDec.void hVoid).1 (by decide)
  exact Yields.pure ⟨hDec.name hNotVoid, hDec.type, hDec.void, hDec.opaqueData, hDec.string,
    hDec.name⟩

/-- The definitions that have been read, and the list of all of them. -/
def GotDefinitions (newstyle : Bool) (r : List Definition × List Definition) : Prop :=
  (∀ d ∈ r.1, d.Accepted newstyle) ∧ r.2 = r.1

theorem yields_getDefinition (newstyle : Bool) (stale : Declaration) (defined : List Definition) :
    Yields Token.Scanned (getDefinition newstyle stale defined) fun r =>
      r = (none, defined) ∨ ∃ d, d.Accepted newstyle ∧ r = (some d, defined ++ [d]) := by
  have hFinish : ∀ p : Parser Definition, Yields Token.Scanned p (Definition.Accepted newstyle) →
      Yields Token.Scanned (do
          let defp ← p
          let _ ← scan .semicolon
          pure (some defp, defined ++ [defp]) : Parser (Option Definition × List Definition))
        fun r => r = (none, defined) ∨ ∃ d, d.Accepted newstyle ∧ r = (some d, defined ++ [d]) := by
    intro p hp
    apply hp.bind
    intro d hd
    exact (yields_scan _).bind fun _ _ => Yields.pure (Or.inr ⟨d, hd, rfl⟩)
  apply yields_getToken.bind
  rintro ⟨k, s⟩ -
  cases k
  case struct => exact hFinish _ (yields_defStruct newstyle stale)
  case union => exact hFinish _ (yields_defUnion newstyle stale)
  case typedef => exact hFinish _ (yields_defTypedef newstyle stale)
  case enum => exact hFinish _ (yields_defEnum newstyle)
  case program => exact hFinish _ (yields_defProgram newstyle stale)
  case const => exact hFinish _ (yields_defConst newstyle)
  case eof => exact Yields.pure (Or.inl rfl)
  all_goals exact Yields.fail _

/-- Every definition that `get_definition` returns is an accepted one. -/
theorem yields_getDefinitions (newstyle : Bool) (stale : Declaration) :
    Yields Token.Scanned (getDefinitions newstyle stale []) (GotDefinitions newstyle) := by
  refine Yields.repeating (GotDefinitions newstyle) ?_ (fun _ => id) ⟨nofun, rfl⟩
  rintro r ⟨hAll, hList⟩
  apply (yields_getDefinition newstyle stale r.2).bind
  rintro d (rfl | ⟨d, hd, rfl⟩)
  · exact Yields.pure ⟨hAll, hList⟩
  · refine Yields.pure ⟨?_, by rw [hList]⟩
    intro d' hd'
    rcases List.mem_append.mp hd' with hOld | hNew
    · exact hAll d' hOld
    · rw [List.mem_singleton.mp hNew]
      exact hd

end Declarations

section Files

open Rpcgen.Parser LayoutPiece

/-- What stands in a file for a token is a token that the scanner makes. -/
theorem IsToken.scanned {tok : Token} {text : List Char} (h : IsToken tok text) : tok.Scanned := by
  have hKinds : ∀ k ∈ [TokKind.ident, .strconst, .charconst], k ∉ symbols.map Token.kind := by
    decide
  have hWord (cs : List Char) (hNew : ∀ s ∈ symbols, s.str.toList ≠ cs) :
      Token.Scanned ⟨.ident, String.ofList cs⟩ := by
    refine ⟨fun _ hKeyword => ?_, fun hKind => absurd hKind (hKinds .ident (by decide))⟩
    obtain ⟨s, hSymbol, hStr⟩ := List.mem_map.mp hKeyword
    refine hNew s hSymbol ?_
    rw [hStr, String.toList_ofList]
  -- No symbol begins like a number.
  have hNumber (c : Char) (cs : List Char) (hFirst : (c.isDigit || c == '-') = true) :
      Token.Scanned ⟨.ident, String.ofList (c :: cs)⟩ := by
    have hHeads : ∀ s ∈ symbols, s.str.toList.head?.all
        (fun c => !(c.isDigit || c == '-')) = true := by decide +kernel
    refine hWord _ fun s hSymbol hSame => ?_
    have hHead := hHeads s hSymbol
    rw [hSame, List.head?_cons, Option.all_some, hFirst] at hHead
    cases hHead
  cases h with
  | punctuation hMem =>
      have hAll : ∀ e ∈ OncRpc.Rpcgen.punctuation,
          e.2 ≠ .ident ∧ e.2 ∉ symbols.map Token.kind := by decide
      exact ⟨fun hKind => absurd hKind (hAll _ hMem).1, fun hKind => absurd hKind (hAll _ hMem).2⟩
  | keyword hMem =>
      have hAll : ∀ s ∈ symbols, s.kind ≠ .ident := by decide
      exact ⟨fun hKind => absurd hKind (hAll _ hMem), fun _ => hMem⟩
  | identifier _ _ hNew => exact hWord _ hNew
  | @decimal minus d ds hDigits =>
      cases minus with
      | true => exact hNumber '-' (d :: ds) rfl
      | false => exact hNumber d ds (by rw [hDigits d List.mem_cons_self]; rfl)
  | hexadecimal _ => exact hNumber '0' _ rfl
  | strconst _ =>
      have hOther : TokKind.strconst ≠ .ident := by decide
      exact ⟨fun hKind => absurd hKind hOther,
        fun hKind => absurd hKind (hKinds .strconst (by decide))⟩
  | charconst _ =>
      have hOther : TokKind.charconst ≠ .ident := by decide
      exact ⟨fun hKind => absurd hKind hOther,
        fun hKind => absurd hKind (hKinds .charconst (by decide))⟩

theorem LayoutPiece.Laid.scanned {atStart : Bool} {behind : List Char} {ps : List LayoutPiece}
    (h : Laid atStart behind ps) : ∀ t ∈ tokens ps, t.Scanned := by
  induction ps generalizing atStart behind with
  | nil => exact fun t ht => absurd ht List.not_mem_nil
  | cons p ps ih =>
      cases p with
      | white c => exact ih h.2
      | comment body => exact ih h.2
      | token tok text => exact List.forall_mem_cons.mpr ⟨h.1.scanned, ih h.2.2⟩
      | directive line => exact ih h.2.2
      | cppline line => exact ih h.2.2.2

end Files

end OncRpc.Rpcgen
