import OncRpc.Rpcgen.GetToken
import OncRpc.Rpcgen.NameArrays

/-! What rpcgen copies into its arrays of fixed size while it prints, and when it all fits. -/
namespace OncRpc.Rpcgen

open Lookahead Rpcgen.Parser

/-! ### What is printed into the arrays -/

/-- The arrays that rpcgen fills while it prints: in `locase`, in `print_stat`, and `ptemp` of
`emit_struct`. -/
inductive FixedArray where
  | locase
  | printStat
  | ptemp
  deriving DecidableEq, Repr

def FixedArray.size : FixedArray → Nat
  | .locase => 100
  | .printStat => 256
  | .ptemp => 256

/-- A string that is copied into an array. -/
structure Copy where
  array : FixedArray
  text : String
  deriving DecidableEq, Repr

/-- There is room for the string and its NUL. -/
def Copy.Fits (c : Copy) : Prop := c.text.length + 1 ≤ c.array.size

def locaseCopy (str : String) : Copy := ⟨.locase, String.ofList (str.toList.map Char.toLower)⟩

/-- What `print_stat` copies, once `isvectordef` has come to an end. -/
def statCopies (defined : List Definition) (dec : Declaration) : List Copy :=
  match isvectordef defined dec.type dec.rel with
  | none => []
  | some true => [⟨.printStat, "objp->" ++ dec.name⟩]
  | some false => [⟨.printStat, "&objp->" ++ dec.name⟩]

def ptempString (sizestr : Option (List (ExprToken SizeAtom))) (dec : Declaration) (length : Int) :
    String :=
  (if sizestr = none then "" else " + ") ++ dec.arrayMax ++
    if length ≠ 1 then " * " ++ toString length else ""

/-- What is copied on a walk of `emit_struct` down the members. -/
def branchCopies (defined : List Definition) : List Declaration → RunState → List Copy
  | [], st => if 0 < st.i then (membersUntil st.cur []).flatMap (statCopies defined) else []
  | d :: dl, st =>
      match inlinable d with
      | some ptr =>
          let st := { st with cur := if st.i = 0 then d :: dl else st.cur, i := st.i + 1 }
          if d.rel = .alias then branchCopies defined dl { st with size := st.size + ptr.length }
          else
            ⟨.ptemp, ptempString st.sizestr d ptr.length⟩ ::
              branchCopies defined dl
                { st with
                  sizestr := some (st.sizestr.getD [] ++ ptempText st.sizestr d ptr.length) }
      | none =>
          (if 0 < st.i then (membersUntil st.cur (d :: dl)).flatMap (statCopies defined) else []) ++
            statCopies defined d ++
              branchCopies defined dl { st with i := 0, size := 0, sizestr := none }

/-- Does `emit_struct` print inline code? -/
def inlined (doinline : Int) (decls : List Declaration) : Bool :=
  decide (doinline ≠ 0) && canInline doinline decls 0

def structCopies (defined : List Definition) (doinline : Int) (decls : List Declaration) :
    List Copy :=
  (if inlined doinline decls then
    branchCopies defined decls ⟨0, 0, none, []⟩ ++ branchCopies defined decls ⟨0, 0, none, []⟩
  else []) ++ decls.flatMap (statCopies defined)

/-- What is copied for a program: its name and those of its procedures with each version, and the
arguments of `emit_program`. -/
def programCopies (newstyle : Bool) (defined : List Definition) (name : String) (pr : ProgramDef) :
    List Copy :=
  (pr.versions.flatMap fun v => locaseCopy name :: v.procs.map fun p => locaseCopy p.procName) ++
    pr.versions.flatMap fun v => v.procs.flatMap fun p =>
      if newstyle = false ∨ p.argNum < 2 then [] else p.args.decls.flatMap (statCopies defined)

/-- What is copied when a definition is printed, to whichever output. -/
def Definition.copies (newstyle : Bool) (doinline : Int) (defined : List Definition)
    (d : Definition) : List Copy :=
  match d.body with
  | .program pr => programCopies newstyle defined d.defName pr
  | .struct decls => structCopies defined doinline decls
  | .union un => statCopies defined un.enumDecl
  | _ => []

/-! ### What fits -/

/-- The name of a member is short enough behind `objp->` or `&objp->`. -/
def MemberFits (defined : List Definition) (dec : Declaration) : Prop :=
  ∀ vector, isvectordef defined dec.type dec.rel = some vector →
    dec.name.length < if vector then 250 else 249

/-- The bounds of the arrays that are inlined are short enough, behind a plus or not. -/
def ArrayMaxFit : Bool → List Declaration → Prop
  | _, [] => True
  | plus, d :: dl =>
      match inlinable d with
      | none => ArrayMaxFit false dl
      | some _ =>
          if d.rel = .alias then ArrayMaxFit plus dl
          else d.arrayMax.length + (if plus then 3 else 0) < 256 ∧ ArrayMaxFit true dl

/-- The names and the bounds in a definition are short enough. -/
def Definition.NamesFit (newstyle : Bool) (doinline : Int) (defined : List Definition)
    (d : Definition) : Prop :=
  match d.body with
  | .program pr => ∀ v ∈ pr.versions, d.defName.length < 100 ∧
      ∀ p ∈ v.procs, p.procName.length < 100 ∧
        (newstyle = true → 2 ≤ p.argNum → ∀ dec ∈ p.args.decls, MemberFits defined dec)
  | .struct decls => (∀ dec ∈ decls, MemberFits defined dec) ∧
      (inlined doinline decls = true → ArrayMaxFit false decls)
  | .union un => MemberFits defined un.enumDecl
  | _ => True

variable {newstyle : Bool} {doinline : Int} {defined : List Definition} {dec : Declaration}

theorem locaseCopy_fits_iff {str : String} : (locaseCopy str).Fits ↔ str.length < 100 := by
  simp only [locaseCopy, Copy.Fits, FixedArray.size, String.length_ofList, List.length_map,
    String.length_toList]
  omega

theorem statCopies_fit_iff : (∀ c ∈ statCopies defined dec, c.Fits) ↔ MemberFits defined dec := by
  have hArrow : "objp->".length = 6 := rfl
  have hAmp : "&objp->".length = 7 := rfl
  unfold statCopies MemberFits
  cases isvectordef defined dec.type dec.rel with
  | none => simp
  | some vector =>
      cases vector <;>
        simp only [List.forall_mem_singleton, Copy.Fits, FixedArray.size, String.length_append,
          hArrow, hAmp, Option.some.injEq, forall_eq', if_pos, Bool.false_eq_true, if_false] <;>
        omega

theorem length_of_inlinable {ptr : BasType} (h : inlinable dec = some ptr) : ptr.length = 1 := by
  have hAll : ∀ ptr ∈ cInitialize, ptr.length = 1 := by decide
  unfold inlinable at h
  split at h
  · exact hAll ptr (List.mem_of_find?_eq_some h)
  · cases h

theorem ptempCopy_fits_iff {sizestr : Option (List (ExprToken SizeAtom))} :
    (Copy.mk .ptemp (ptempString sizestr dec 1)).Fits ↔
      dec.arrayMax.length + (if sizestr.isSome then 3 else 0) < 256 := by
  have hPlus : " + ".length = 3 := rfl
  cases sizestr <;>
    simp only [Copy.Fits, FixedArray.size, ptempString, String.length_append, hPlus,
      Option.isSome_some, Option.isSome_none, ne_eq, not_true_eq_false, if_false, if_true,
      reduceCtorEq, Bool.false_eq_true, String.length_empty] <;>
    omega

/-- What is copied for the members of a run. -/
theorem runCopies_fit {st : RunState} (hCur : ∀ dec ∈ st.cur, MemberFits defined dec)
    (dl : List Declaration) :
    ∀ c ∈ (if 0 < st.i then (membersUntil st.cur dl).flatMap (statCopies defined) else []),
      c.Fits := by
  split
  · intro c hc
    obtain ⟨dec, hDec, hCopy⟩ := List.mem_flatMap.mp hc
    exact statCopies_fit_iff.mpr (hCur dec (List.mem_of_mem_take hDec)) c hCopy
  · exact nofun

/-- Where the names of the members fit, a walk down them is left with the bounds. -/
theorem branchCopies_fit_iff {dl : List Declaration} {st : RunState}
    (hCur : ∀ dec ∈ st.cur, MemberFits defined dec)
    (hMembers : ∀ dec ∈ dl, MemberFits defined dec) :
    (∀ c ∈ branchCopies defined dl st, c.Fits) ↔ ArrayMaxFit st.sizestr.isSome dl := by
  induction dl generalizing st with
  | nil => exact iff_of_true (runCopies_fit hCur []) trivial
  | cons d dl ih =>
      have hLater : ∀ dec ∈ dl, MemberFits defined dec :=
        fun dec hDec => hMembers dec (List.mem_cons_of_mem d hDec)
      rw [branchCopies, ArrayMaxFit]
      cases hInline : inlinable d with
      | none =>
          have hStat := statCopies_fit_iff.mpr (hMembers d List.mem_cons_self)
          dsimp only
          rw [List.forall_mem_append, List.forall_mem_append, and_iff_right (runCopies_fit hCur _),
            and_iff_right hStat]
          exact ih hCur hLater
      | some ptr =>
          have hCur' : ∀ dec ∈ (if st.i = 0 then d :: dl else st.cur), MemberFits defined dec := by
            split
            · exact hMembers
            · exact hCur
          dsimp only
          split
          · exact ih hCur' hLater
          · rw [List.forall_mem_cons, length_of_inlinable hInline, ptempCopy_fits_iff]
            exact and_congr_right fun _ => ih hCur' hLater

theorem structCopies_fit_iff {decls : List Declaration} :
    (∀ c ∈ structCopies defined doinline decls, c.Fits) ↔
      (∀ dec ∈ decls, MemberFits defined dec) ∧
        (inlined doinline decls = true → ArrayMaxFit false decls) := by
  have hStats : (∀ c ∈ decls.flatMap (statCopies defined), c.Fits) ↔
      ∀ dec ∈ decls, MemberFits defined dec := by
    rw [List.forall_mem_flatMap]
    exact forall₂_congr fun _ _ => statCopies_fit_iff
  rw [structCopies, List.forall_mem_append, hStats, and_comm]
  refine and_congr_right fun hMembers => ?_
  split
  · next hInlined =>
      have hBranch : (∀ c ∈ branchCopies defined decls ⟨0, 0, none, []⟩, c.Fits) ↔
          ArrayMaxFit false decls := branchCopies_fit_iff nofun hMembers
      rw [List.forall_mem_append, and_self, hBranch]
      exact (imp_iff_right hInlined).symm
  · next hPlain => exact iff_of_true nofun fun hInlined => absurd hInlined hPlain

theorem programCopies_fit_iff {name : String} {pr : ProgramDef} :
    (∀ c ∈ programCopies newstyle defined name pr, c.Fits) ↔
      ∀ v ∈ pr.versions, name.length < 100 ∧ ∀ p ∈ v.procs, p.procName.length < 100 ∧
        (newstyle = true → 2 ≤ p.argNum → ∀ dec ∈ p.args.decls, MemberFits defined dec) := by
  have hArgs : ∀ p : Proc, (∀ c ∈ (if newstyle = false ∨ p.argNum < 2 then []
      else p.args.decls.flatMap (statCopies defined)), c.Fits) ↔
      (newstyle = true → 2 ≤ p.argNum → ∀ dec ∈ p.args.decls, MemberFits defined dec) := by
    intro p
    split
    · next hOld =>
        refine iff_of_true nofun fun hNew hTwo => ?_
        rcases hOld with hFalse | hFew
        · rw [hNew] at hFalse
          cases hFalse
        · exact absurd hTwo (Nat.not_le_of_lt hFew)
    · next hNot =>
        rw [not_or, Bool.not_eq_false, Nat.not_lt] at hNot
        rw [List.forall_mem_flatMap]
        simp only [statCopies_fit_iff, hNot.1, hNot.2, true_implies]
  rw [programCopies, List.forall_mem_append, List.forall_mem_flatMap, List.forall_mem_flatMap,
    ← forall₂_and]
  refine forall₂_congr fun v _ => ?_
  rw [List.forall_mem_cons, List.forall_mem_map, List.forall_mem_flatMap, locaseCopy_fits_iff,
    and_assoc, ← forall₂_and]
  refine and_congr_right fun _ => forall₂_congr fun p _ => ?_
  rw [locaseCopy_fits_iff, hArgs]

theorem Definition.copies_fit_iff (d : Definition) :
    (∀ c ∈ d.copies newstyle doinline defined, c.Fits) ↔
      d.NamesFit newstyle doinline defined := by
  unfold Definition.copies Definition.NamesFit
  cases d.body with
  | program pr => exact programCopies_fit_iff
  | struct decls => exact structCopies_fit_iff
  | union un => exact statCopies_fit_iff
  | _ => exact iff_of_true nofun trivial

/-! ### A file -/

/-- Definitions that rpcgen has read of a file, and what is left of it. -/
inductive DefinitionsRead (newstyle : Bool) (stale : Declaration) (toks : List Token) :
    List Definition → Pushback Token → Prop where
  | start : DefinitionsRead newstyle stale toks [] ⟨none, toks⟩
  | next {defined defined' : List Definition} {s s' : Pushback Token} {d : Definition}
      (prior : DefinitionsRead newstyle stale toks defined s)
      (hNext : getDefinition newstyle stale defined s = .ok ((some d, defined'), s')) :
      DefinitionsRead newstyle stale toks defined' s'

/-- No array is overrun, neither when the next definition is read nor when one is printed that has
been read. -/
structure ArraysFit (newstyle : Bool) (doinline : Int) (stale : Declaration) (toks : List Token) :
    Prop where
  reading : ∀ defined s, DefinitionsRead newstyle stale toks defined s →
    getDefinition newstyle stale defined s ≠ .error .overrun
  printing : ∀ defined s, DefinitionsRead newstyle stale toks defined s →
    ∀ d ∈ defined.getLast?, ∀ c ∈ d.copies newstyle doinline defined, c.Fits

/-- The names and the bounds in a file are short enough. -/
structure FileNamesFit (newstyle : Bool) (doinline : Int) (stale : Declaration)
    (toks : List Token) : Prop where
  reading : ∀ defined s, DefinitionsRead newstyle stale toks defined s →
    ∀ tok s', getToken s = .ok (tok, s') → tok.kind = .program →
      ProgramNamesFit newstyle stale s'
  printing : ∀ defined s, DefinitionsRead newstyle stale toks defined s →
    ∀ d ∈ defined.getLast?, d.NamesFit newstyle doinline defined

end OncRpc.Rpcgen
