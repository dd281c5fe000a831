import OncRpc.Rpcgen.Grammar
import Mathlib.Data.List.Forall2

/-! The parser on definitions that are written in the language: it yields what was written. -/
namespace OncRpc.Rpcgen

open Lookahead OncRpc.Rpcgen.Parser

/-! ### Types and declarations -/

/-- What follows a type is not taken for a part of it. -/
abbrev TypeEnd : List Token → Prop := NotNext [.int, .char, .short, .long, .hyper]

theorem reads_optInt {α : Type} {a : α} (b : Bool) {post : α → Prop} (h : post a) :
    Reads (do let _ ← peekscan .int; pure a : Parser α) (optInt b) TypeEnd post := by
  cases b with
  | true =>
      have hTake : Reads (peekscan .int) [word .int] Anything (· = some (word .int)) :=
        reads_peekscan rfl
      exact hTake.cons fun _ _ => Reads.pure h
  | false =>
      have hLeave : Reads (peekscan .int) [] TypeEnd (· = none) :=
        reads_peekscan_none.mono (fun rest hEnd => hEnd.mono (by simp)) fun _ => id
      exact hLeave.bind_nil fun _ _ => Reads.pure h

/-- `unsigned_dec` goes by the next token, which is still to come. -/
theorem reads_unsignedDec {t : Token} {ts : List Token} {stop : List Token → Prop}
    {post : String → Prop} (hHead : ∀ rest, stop rest → (ts ++ rest).head? = some t)
    (h : Reads (unsignedWord t.kind) ts stop post) : Reads unsignedDec ts stop post := by
  have hBoth : Reads unsignedDec ([] ++ ts) stop post := by
    apply (reads_peek_token t).bind _ hHead
    rintro a rfl
    exact h
  exact hBoth

/-- Behind `unsigned` alone stands no word that could go with it. -/
theorem reads_unsignedDec_nil : Reads unsignedDec [] TypeEnd (· = "u_int") := by
  rintro s rest hView ⟨t, hHead, hNot⟩
  have hWord : unsignedWord t.kind = pure "u_int" := by
    simp only [List.mem_cons, List.not_mem_nil, or_false, not_or] at hNot
    cases hKind : t.kind <;> simp_all [unsignedWord]
  have hRun : Reads unsignedDec [] (fun rest => rest.head? = some t) (· = "u_int") :=
    reads_unsignedDec (fun _ h => h) (by rw [hWord]; exact Reads.pure rfl)
  exact hRun s rest hView hHead

/-- `get_type` takes a type as it is written. -/
theorem reads_getType {prefixWord : Option String} {type : String} {ts : List Token}
    {dkind : DefKind} (h : PrintsType prefixWord type ts)
    (hVoid : type = "void" → dkind = .union ∨ dkind = .program) :
    Reads (getType dkind) ts TypeEnd (· = (prefixWord, type)) := by
  have hFirst : ∀ {t ts}, Reads (typeFrom dkind t) ts TypeEnd (· = (prefixWord, type)) →
      Reads (getType dkind) (t :: ts) TypeEnd (· = (prefixWord, type)) := by
    intro t ts hRest
    apply (reads_getToken t).cons
    rintro a rfl
    exact hRest
  have hUnsigned : ∀ {t ts}, Reads (unsignedWord t.kind) (t :: ts) TypeEnd (· = type) →
      prefixWord = none → Reads (getType dkind) (word .unsigned :: t :: ts) TypeEnd
        (· = (prefixWord, type)) := by
    intro t ts hRest hNone
    apply hFirst
    apply (reads_unsignedDec (fun _ _ => rfl) hRest).bind_nil
    rintro a rfl
    exact Reads.pure (by rw [hNone])
  cases h with
  | ident h => exact hFirst (Reads.pure rfl)
  | tagged h hs =>
      rcases h with rfl | rfl | rfl <;> apply hFirst <;>
        apply (reads_scan (t := identTok type) rfl).cons <;> rintro a rfl <;> exact Reads.pure rfl
  | word h =>
      simp only [List.mem_cons, List.not_mem_nil, or_false] at h
      rcases h with rfl | rfl | rfl | rfl | rfl | rfl | rfl | rfl | rfl <;> apply hFirst
      case inr.inr.inr.inr.inr.inr.inr.inr =>
        show Reads (if _ then _ else _) _ _ _
        rw [if_neg (by have := hVoid rfl; tauto)]
        exact Reads.pure rfl
      all_goals exact Reads.pure rfl
  | short b => exact hFirst (reads_optInt b rfl)
  | long b => exact hFirst (reads_optInt b rfl)
  | hyper b => exact hFirst (reads_optInt b rfl)
  | unsigned b =>
      cases b with
      | true => exact hUnsigned ((reads_getToken _).cons fun _ _ => Reads.pure rfl) rfl
      | false =>
          apply hFirst
          apply reads_unsignedDec_nil.bind_nil
          rintro a rfl
          exact Reads.pure rfl
  | unsignedChar => exact hUnsigned ((reads_getToken _).cons fun _ _ => Reads.pure rfl) rfl
  | unsignedShort b =>
      exact hUnsigned ((reads_getToken _).cons fun _ _ => reads_optInt b rfl) rfl
  | unsignedLong b =>
      exact hUnsigned ((reads_getToken _).cons fun _ _ => reads_optInt b rfl) rfl
  | unsignedHyper b =>
      exact hUnsigned ((reads_getToken _).cons fun _ _ => reads_optInt b rfl) rfl

theorem reads_checkTypeName {name : String} {newType : Bool} (h : name ∉ reservedWords)
    (h' : newType = true → name ∉ reservedTypes) :
    Reads (checkTypeName name newType) [] Anything fun _ => True := by
  rw [checkTypeName, if_neg (by tauto)]
  exact Reads.pure trivial

theorem reads_angleBound (amax : String) :
    Reads angleBound (angleToks amax).tail Anything (· = amax) := by
  rw [angleToks]
  split
  case isTrue hAmax =>
    apply (reads_peekscan rfl).cons
    rintro a rfl
    exact Reads.pure hAmax.symm
  case isFalse =>
    have hNone : Reads (peekscan .rangle) [] (NotNext [.rangle]) (· = none) := reads_peekscan_none
    apply hNone.bind (w := [identTok amax, mark .rangle])
    · rintro a rfl
      apply (reads_scanNum (t := identTok amax) rfl).cons
      rintro b rfl
      apply (reads_scan rfl).cons
      rintro c rfl
      exact Reads.pure rfl
    · exact fun rest _ => notNext_cons.mpr (by simp [identTok])

theorem reads_declBound_none (dec : Declaration) :
    Reads (declBound dec) [] (NotNext [.lbracket, .langle]) (· = dec) := by
  have hBracket : Reads (peekscan .lbracket) [] (NotNext [.lbracket, .langle]) (· = none) :=
    reads_peekscan_none.mono (fun rest hEnd => hEnd.mono (by simp)) fun _ => id
  have hAngle : Reads (peekscan .langle) [] (NotNext [.lbracket, .langle]) (· = none) :=
    reads_peekscan_none.mono (fun rest hEnd => hEnd.mono (by simp)) fun _ => id
  apply hBracket.bind_nil
  rintro a rfl
  apply hAngle.bind_nil
  rintro b rfl
  exact Reads.pure rfl

theorem reads_declBound_vector {dec : Declaration} (h : dec.rel ≠ .pointer) (amax : String) :
    Reads (declBound dec) [mark .lbracket, identTok amax, mark .rbracket] Anything
      (· = { dec with rel := .vector, arrayMax := amax }) := by
  apply (reads_peekscan rfl).cons
  rintro a rfl
  simp only [if_neg h]
  apply (reads_scanNum rfl).cons
  rintro b rfl
  apply (reads_scan rfl).cons
  rintro c rfl
  exact Reads.pure rfl

theorem angleToks_eq (amax : String) : angleToks amax = mark .langle :: (angleToks amax).tail := by
  rw [angleToks]
  split <;> rfl

theorem reads_declBound_array {dec : Declaration} (h : dec.rel ≠ .pointer) (amax : String) :
    Reads (declBound dec) (angleToks amax) Anything
      (· = { dec with rel := .array, arrayMax := amax }) := by
  have hNone : Reads (peekscan .lbracket) [] (NotNext [.lbracket]) (· = none) :=
    reads_peekscan_none
  rw [angleToks_eq]
  apply hNone.bind (w := mark .langle :: (angleToks amax).tail)
  · rintro a rfl
    apply (reads_peekscan rfl).cons
    rintro b rfl
    simp only [if_neg h]
    apply (reads_angleBound amax).bind_nil
    rintro c rfl
    exact Reads.pure rfl
  · exact fun rest _ => notNext_cons.mpr (by decide)

theorem reads_declCheck {dec : Declaration}
    (hOpaque : dec.type = "opaque" → dec.rel = .array ∨ dec.rel = .vector)
    (hString : dec.type = "string" → dec.rel = .array) :
    Reads (declCheck dec) [] Anything (· = dec) := by
  unfold declCheck
  split
  case isTrue h =>
    rw [if_neg (by have := hOpaque h; tauto)]
    exact Reads.pure rfl
  case isFalse =>
    split
    case isTrue h =>
      rw [if_neg (not_not.mpr (hString h))]
      exact Reads.pure rfl
    case isFalse => exact Reads.pure rfl

theorem reads_declName_ident (dec : Declaration) (name : String) :
    Reads (declName dec) [identTok name] Anything (· = { dec with name := name }) := by
  apply (reads_scan2 (t := identTok name) (Or.inr rfl)).cons
  rintro a rfl
  rw [if_neg (by simp [identTok])]
  exact Reads.pure rfl

theorem reads_declName_star (dec : Declaration) (name : String) :
    Reads (declName dec) [mark .star, identTok name] Anything
      (· = { dec with rel := .pointer, name := name }) := by
  apply (reads_scan2 (t := mark .star) (Or.inl rfl)).cons
  rintro a rfl
  apply (reads_scan (t := identTok name) rfl).cons
  rintro b rfl
  exact Reads.pure rfl

/-- What follows a declaration is not taken for a part of it. -/
abbrev DeclEnd : List Token → Prop :=
  NotNext [.lbracket, .langle, .int, .char, .short, .long, .hyper]

/-- The name and the bound of a declaration are taken as they are written. -/
theorem reads_declTail {dec old : Declaration} (hType : old.type = dec.type)
    (hPrefix : old.prefixWord = dec.prefixWord) (hRel : old.rel = .alias)
    (hOpaque : dec.type = "opaque" → dec.rel = .array ∨ dec.rel = .vector)
    (hString : dec.type = "string" → dec.rel = .array) :
    Reads (do
        let d ← declName old
        let d ← declBound d
        declCheck d : Parser Declaration)
      (nameToks dec) DeclEnd dec.Agrees := by
  have hCheck : ∀ d : Declaration, d.type = dec.type → d.rel = dec.rel → dec.Agrees d →
      Reads (declCheck d) [] DeclEnd dec.Agrees := by
    intro d hd hdRel hAgrees
    apply (reads_declCheck (by rwa [hd, hdRel]) (by rwa [hd, hdRel])).anything.mono fun _ => id
    rintro a rfl
    exact hAgrees
  have hNone : ∀ d : Declaration, d.type = dec.type → d.rel = dec.rel → dec.Agrees d →
      Reads (do let d ← declBound d; declCheck d : Parser Declaration) [] DeclEnd dec.Agrees := by
    intro d hd hdRel hAgrees
    apply ((reads_declBound_none d).mono (fun _ hEnd => hEnd.mono (by simp)) fun _ => id).bind_nil
    rintro a rfl
    exact hCheck a hd hdRel hAgrees
  rw [nameToks]
  cases hKind : dec.rel with
  | «alias» =>
      apply (reads_declName_ident old dec.name).cons
      rintro a rfl
      exact hNone _ hType (hRel.trans hKind.symm)
        ⟨hPrefix, hType, hRel.trans hKind.symm, fun _ => rfl, by simp [hKind]⟩
  | pointer =>
      apply (reads_declName_star old dec.name).seq (w := [])
      rintro a rfl
      exact hNone _ hType hKind.symm ⟨hPrefix, hType, hKind.symm, fun _ => rfl, by simp [hKind]⟩
  | vector =>
      apply (reads_declName_ident old dec.name).cons
      rintro a rfl
      apply (reads_declBound_vector (by simp [hRel]) dec.arrayMax).seq (w := [])
      rintro b rfl
      exact hCheck _ hType hKind.symm ⟨hPrefix, hType, hKind.symm, fun _ => rfl, fun _ => rfl⟩
  | array =>
      apply (reads_declName_ident old dec.name).cons
      rintro a rfl
      rw [← List.append_nil (angleToks dec.arrayMax)]
      apply (reads_declBound_array (by simp [hRel]) dec.arrayMax).seq
      rintro b rfl
      exact hCheck _ hType hKind.symm ⟨hPrefix, hType, hKind.symm, fun _ => rfl, fun _ => rfl⟩

/-- `get_declaration` takes a declaration as it is written. -/
theorem reads_getDeclaration {dec old : Declaration} {ts : List Token} {dkind : DefKind}
    (hPrints : dec.Prints ts)
    (hDec : dec.IsMember ∨ dec.type = "void" ∧ dec.rel = .alias ∧ dkind = .union) :
    Reads (getDeclaration old dkind) ts DeclEnd dec.Agrees := by
  obtain ⟨type, hType, rfl⟩ := hPrints
  have hGet : Reads (getType dkind) type TypeEnd (· = (dec.prefixWord, dec.type)) := by
    apply reads_getType hType
    intro hVoid
    rcases hDec with hMember | ⟨-, -, hKind⟩
    · exact absurd hVoid hMember.1
    · exact Or.inl hKind
  apply hGet.bind
  · rintro a rfl
    by_cases hVoid : dec.type = "void"
    · rw [if_pos hVoid]
      simp only [if_pos hVoid]
      rcases hDec with hMember | ⟨-, hRel, -⟩
      · exact absurd hVoid hMember.1
      · exact Reads.pure ⟨rfl, rfl, hRel.symm, fun hNot => absurd hVoid hNot, by simp [hRel]⟩
    · rw [if_neg hVoid]
      simp only [if_neg hVoid]
      obtain ⟨-, hReserved, hOpaque, hString⟩ := hDec.resolve_right fun h => hVoid h.1
      apply (reads_checkTypeName hReserved (by simp)).skip
      rintro - -
      exact reads_declTail rfl rfl rfl hOpaque hString
  · intro rest hEnd
    by_cases hVoid : dec.type = "void"
    · rw [if_pos hVoid]
      exact hEnd.mono (by simp)
    · rw [if_neg hVoid, nameToks]
      cases dec.rel <;> exact notNext_cons.mpr (by simp [identTok, mark])

/-- A type begins with a word or a name. -/
theorem PrintsType.head {prefixWord : Option String} {type : String} {ts : List Token}
    (h : PrintsType prefixWord type ts) :
    ∃ t rest, ts = t :: rest ∧ t.kind ∉ [.rbrace, .rparen, .case] := by
  cases h with
  | tagged h => rcases h with rfl | rfl | rfl <;> exact ⟨_, _, rfl, by decide⟩
  | word h =>
      simp only [List.mem_cons, List.not_mem_nil, or_false] at h
      rcases h with rfl | rfl | rfl | rfl | rfl | rfl | rfl | rfl | rfl <;>
        exact ⟨_, _, rfl, by decide⟩
  | ident => exact ⟨_, _, rfl, by simp [identTok]⟩
  | _ => exact ⟨_, _, rfl, by decide⟩

theorem Declaration.Prints.head {dec : Declaration} {ts : List Token} (h : dec.Prints ts) :
    ∃ t rest, ts = t :: rest ∧ t.kind ∉ [.rbrace, .rparen, .case] := by
  obtain ⟨type, hType, rfl⟩ := h
  obtain ⟨t, rest, rfl, ht⟩ := hType.head
  exact ⟨t, _, rfl, ht⟩

/-! ### Definitions without programs -/

/-- The next token ends a list, or it does not. -/
def EndsAt (kind : TokKind) (more : Bool) (rest : List Token) : Prop :=
  ∃ t, rest.head? = some t ∧ decide (t.kind ≠ kind) = more

theorem reads_defStruct {name : String} {decls : List Declaration} {ts : List Token}
    (hPrints : (DefBody.struct decls).Prints name ts)
    (hWell : decls ≠ [] ∧ ∀ dec ∈ decls, dec.IsMember) (stale : Declaration) :
    Reads (defStruct stale) ts Anything (Definition.Agrees ⟨name, .struct decls⟩) := by
  obtain ⟨xs, rfl, hDecls, rfl⟩ := hPrints
  have hLoop : Reads (Reader.repeating Failure.endless structMember (stale, []))
      (xs.flatMap fun x => x.2 ++ [mark .semicolon]) (EndsAt .rbrace false)
      fun r => List.Forall₂ Declaration.Agrees (xs.map Prod.fst) r.2 := by
    rw [← joined_const]
    apply reads_repeating (EndsAt .rbrace) fun done _ (r : Declaration × List Declaration) =>
      List.Forall₂ Declaration.Agrees (done.map Prod.fst) r.2
    · rintro rfl
      exact hWell.1 rfl
    · exact List.Forall₂.nil
    · simp
    · intro done x more b r hAll hInv
      have hMem : x ∈ xs := by simp [hAll]
      apply (reads_getDeclaration (hDecls x hMem)
        (Or.inl (hWell.2 x.1 (List.mem_map_of_mem hMem)))).bind
      · intro dec hDec
        apply (reads_scan rfl).cons
        rintro _ -
        apply reads_peek_next.bind_nil
        intro t ht
        refine Reads.pure ⟨?_, ht⟩
        rw [List.map_append]
        exact List.rel_append hInv (List.Forall₂.cons hDec List.Forall₂.nil)
      · exact fun rest _ => notNext_cons.mpr (by decide)
    · intro x hMem b rest
      obtain ⟨t, ts, hts, ht⟩ := (hDecls x hMem).head
      refine ⟨t, by simp [hts], ?_⟩
      simp only [List.mem_cons, not_or] at ht
      simp [ht.1]
  apply (reads_scan (t := identTok name) rfl).cons
  rintro a rfl
  apply (reads_scan rfl).cons
  rintro b rfl
  apply hLoop.bind
  · intro r hAgrees
    apply (reads_getToken _).cons
    rintro c rfl
    exact Reads.pure ⟨rfl, hAgrees⟩
  · exact fun rest _ => ⟨mark .rbrace, rfl, rfl⟩

theorem reads_defConst {name co : String} {ts : List Token}
    (hPrints : (DefBody.const co).Prints name ts) :
    Reads defConst ts Anything (Definition.Agrees ⟨name, .const co⟩) := by
  obtain ⟨kind, hKind, rfl⟩ := hPrints
  apply (reads_scan (t := identTok name) rfl).cons
  rintro a rfl
  apply (reads_scan rfl).cons
  rintro b rfl
  apply (reads_scan2 hKind).cons
  rintro c rfl
  exact Reads.pure ⟨rfl, rfl⟩

theorem reads_defTypedef {name : String} {ty : TypedefDef} {ts : List Token}
    (hPrints : (DefBody.typedef ty).Prints name ts)
    (hWell : Declaration.IsMember ⟨ty.oldPrefix, ty.oldType, name, ty.rel, ty.arrayMax⟩ ∧
      name ∉ reservedWords ∧ name ∉ reservedTypes) (stale : Declaration) :
    Reads (defTypedef stale) ts DeclEnd (Definition.Agrees ⟨name, .typedef ty⟩) := by
  apply (reads_getDeclaration hPrints (Or.inl hWell.1)).bind_nil
  rintro dec ⟨hPrefix, hType, hRel, hName, hMax⟩
  have hSame : dec.name = name := hName hWell.1.1
  apply Reads.anything
  apply (reads_checkTypeName (hSame ▸ hWell.2.1) fun _ => hSame ▸ hWell.2.2).skip
  rintro - -
  exact Reads.pure ⟨hSame, hPrefix, hType, hRel, hMax⟩

theorem reads_defEnum {name : String} {vals : List EnumVal} {ts : List Token}
    (hPrints : (DefBody.enum vals).Prints name ts) (hSome : vals ≠ []) :
    Reads defEnum ts Anything (Definition.Agrees ⟨name, .enum vals⟩) := by
  rw [DefBody.Prints] at hPrints
  subst hPrints
  have hLoop : Reads (Reader.repeating Failure.endless enumVal [])
      (joined (fun more val => EnumVal.toks val ++ [mark (if more then .comma else .rbrace)]) vals)
      Anything (· = vals) := by
    apply reads_repeating (fun _ => Anything) (fun done _ r => r = done) hSome rfl
    · rintro ⟨name, _ | num⟩ - b <;> simp [EnumVal.toks]
    · rintro done ⟨val, assignment⟩ more b r - rfl
      cases assignment with
      | none =>
          apply (reads_scan (t := identTok val) rfl).cons
          rintro c rfl
          apply (reads_scan3 (by cases b <;> simp [mark])).cons
          rintro d rfl
          rw [if_neg (by cases b <;> simp [mark])]
          exact Reads.pure ⟨rfl, by cases b <;> rfl⟩
      | some num =>
          apply (reads_scan (t := identTok val) rfl).cons
          rintro c rfl
          apply (reads_scan3 (t := mark .equal) (by simp [mark])).cons
          rintro d rfl
          apply (reads_scanNum (t := identTok num) rfl).cons
          rintro e rfl
          apply (reads_scan2 (by cases b <;> simp [mark])).cons
          rintro f rfl
          exact Reads.pure ⟨rfl, by cases b <;> rfl⟩
    · exact fun _ _ _ _ => trivial
  apply (reads_scan (t := identTok name) rfl).cons
  rintro a rfl
  apply (reads_scan rfl).cons
  rintro b rfl
  apply hLoop.bind_nil
  rintro r rfl
  exact Reads.pure ⟨rfl, rfl⟩

/-! ### Unions -/

/-- The cases that share an arm. -/
structure CaseGroup where
  conts : List (Case × TokKind)
  last : Case × TokKind
  arm : List Token

namespace CaseGroup

def cases (g : CaseGroup) : List Case := (g.conts ++ [g.last]).map Prod.fst

/-- The name of a case. -/
def caseToks (c : Case × TokKind) : List Token := [⟨c.2, c.1.caseName⟩, mark .colon]

/-- What is written of a group behind its first `case`. -/
def toks (g : CaseGroup) : List Token :=
  match g.conts with
  | [] => caseToks g.last ++ g.arm ++ [mark .semicolon]
  | c :: conts =>
      caseToks c ++ ((conts ++ [g.last]).flatMap fun c => word .case :: caseToks c) ++ g.arm ++
        [mark .semicolon]

structure Valid (g : CaseGroup) : Prop where
  kinds : ∀ c ∈ g.conts ++ [g.last], c.2 = .ident ∨ c.2 = .charconst
  conts : ∀ c ∈ g.conts, c.1.contflag = true
  last : g.last.1.contflag = false
  arm : g.last.1.caseDecl.Prints g.arm

end CaseGroup

/-- The cases of a union are groups if the last one has an arm. -/
theorem exists_caseGroups {xs : List (Case × List Token)} (hPrints : ∀ x ∈ xs, x.1.Prints x.2)
    (hLast : ∀ x ∈ xs.getLast?, x.1.contflag = false) :
    ∃ gs : List CaseGroup, (∀ g ∈ gs, g.Valid) ∧ xs.map Prod.fst = gs.flatMap CaseGroup.cases ∧
      xs.flatMap Prod.snd = gs.flatMap fun g => word .case :: g.toks := by
  induction xs with
  | nil => exact ⟨[], by simp, rfl, rfl⟩
  | cons x xs ih =>
      obtain ⟨kind, hKind, hToks⟩ := hPrints x List.mem_cons_self
      have hRest : ∀ y ∈ xs.getLast?, y.1.contflag = false := by
        cases xs with
        | nil => simp
        | cons y xs => rwa [List.getLast?_cons_cons] at hLast
      obtain ⟨gs, hValid, hCases, hAll⟩ :=
        ih (fun y hy => hPrints y (List.mem_cons_of_mem x hy)) hRest
      cases hFlag : x.1.contflag with
      | false =>
          rw [if_neg (by simp [hFlag])] at hToks
          obtain ⟨arm, hArm, hToks⟩ := hToks
          refine ⟨⟨[], (x.1, kind), arm⟩ :: gs, ?_, ?_, ?_⟩
          · intro g hg
            rcases List.mem_cons.mp hg with rfl | hg
            · exact ⟨by simpa using hKind, by simp, hFlag, hArm⟩
            · exact hValid g hg
          · rw [List.map_cons, hCases]
            rfl
          · rw [List.flatMap_cons, hAll, hToks]
            rfl
      | true =>
          rw [if_pos hFlag] at hToks
          cases gs with
          | nil =>
              obtain rfl : xs = [] := List.map_eq_nil_iff.mp hCases
              have hNone := hLast x rfl
              rw [hFlag] at hNone
              cases hNone
          | cons g gs =>
              have hg := hValid g List.mem_cons_self
              refine ⟨{ g with conts := (x.1, kind) :: g.conts } :: gs, ?_, ?_, ?_⟩
              · intro g' hg'
                rcases List.mem_cons.mp hg' with rfl | hg'
                · refine ⟨?_, ?_, hg.last, hg.arm⟩
                  · intro c hc
                    rcases List.mem_cons.mp hc with rfl | hc
                    · exact hKind
                    · exact hg.kinds c hc
                  · intro c hc
                    rcases List.mem_cons.mp hc with rfl | hc
                    · exact hFlag
                    · exact hg.conts c hc
                · exact hValid g' (List.mem_cons_of_mem g hg')
              · rw [List.map_cons, hCases]
                rfl
              · rw [List.flatMap_cons, hAll, hToks, List.flatMap_cons, List.flatMap_cons]
                rcases g with ⟨_ | ⟨c, conts⟩, last, arm⟩ <;>
                  simp [CaseGroup.toks, CaseGroup.caseToks]

theorem reads_moreCases (first : String) {cs : List (Case × TokKind)}
    (hKinds : ∀ c ∈ cs, c.2 = .ident ∨ c.2 = .charconst) :
    Reads (Reader.repeating Failure.endless moreCases ([], first))
      (cs.flatMap fun c => word .case :: CaseGroup.caseToks c) (NotNext [.case])
      fun r => r.1 ++ [r.2] = first :: cs.map fun c => c.1.caseName := by
  apply reads_repeating_end Anything fun done (r : List String × String) =>
    r.1 ++ [r.2] = first :: done.map fun c : Case × TokKind => c.1.caseName
  · rfl
  · simp
  · intro done c more r hAll hInv
    apply (reads_peekscan rfl).cons
    rintro a rfl
    apply (reads_scan2 (hKinds c (by simp [hAll]))).cons
    rintro b rfl
    apply (reads_scan rfl).cons
    rintro d rfl
    refine Reads.pure ⟨?_, rfl⟩
    rw [hInv, List.map_append]
    rfl
  · intro r hInv
    apply reads_peekscan_none.bind_nil
    rintro a rfl
    exact Reads.pure ⟨hInv, rfl⟩
  · exact fun _ _ => trivial
  · exact fun _ _ _ => trivial

/-- What is written of a group begins with its first name. -/
theorem CaseGroup.exists_names (g : CaseGroup) : ∃ c cs, g.conts ++ [g.last] = c :: cs ∧
    g.toks = caseToks c ++ (cs.flatMap fun c => word .case :: caseToks c) ++ g.arm ++
      [mark .semicolon] := by
  rcases g with ⟨_ | ⟨c, conts⟩, last, arm⟩
  · exact ⟨last, [], rfl, by simp [toks]⟩
  · exact ⟨c, conts ++ [last], rfl, rfl⟩

/-- One round of the loop takes a group and the token behind it. -/
theorem reads_unionArm {g : CaseGroup} (hValid : g.Valid) (hArm : g.last.1.caseDecl.IsArm)
    {t : Token} (ht : t.kind = .case ∨ t.kind = .default ∨ t.kind = .rbrace) (stale : Declaration)
    (r : Declaration × List Case × Token) :
    Reads (unionArm stale r) (g.toks ++ [t]) Anything fun r' =>
      (∃ cs, r'.1.2.1 = r.2.1 ++ cs ∧ List.Forall₂ Case.Agrees g.cases cs) ∧ r'.1.2.2 = t ∧
        r'.2 = decide (t.kind = .case) := by
  obtain ⟨c, cs, hNames, hToks⟩ := g.exists_names
  have hKinds := hValid.kinds
  rw [hNames] at hKinds
  rw [hToks]
  simp only [List.append_assoc]
  apply (reads_scan2 (hKinds c List.mem_cons_self)).cons
  rintro a rfl
  apply (reads_scan rfl).cons
  rintro b rfl
  apply (reads_moreCases c.1.caseName fun d hd => hKinds d (List.mem_cons_of_mem c hd)).bind
  · intro names hSplit
    have hSame : names.1 ++ [names.2] =
        (g.conts.map fun c => c.1.caseName) ++ [g.last.1.caseName] := by
      have hAll := congrArg (List.map fun c : Case × TokKind => c.1.caseName) hNames
      rw [List.map_append] at hAll
      exact hSplit.trans hAll.symm
    obtain ⟨hConts, hLast⟩ := List.append_inj' hSame rfl
    have hDecl : g.last.1.caseDecl.IsMember ∨ g.last.1.caseDecl.type = "void" ∧
        g.last.1.caseDecl.rel = .alias ∧ DefKind.union = .union := by
      rcases hArm with ⟨hVoid, hRel⟩ | hMember
      · exact Or.inr ⟨hVoid, hRel, rfl⟩
      · exact Or.inl hMember
    apply (reads_getDeclaration hValid.arm hDecl).bind
    · intro dec hDec
      apply (reads_scan rfl).cons
      rintro d rfl
      apply (reads_scan3 ht).cons
      rintro e rfl
      refine Reads.pure ⟨⟨_, List.append_assoc _ _ _, ?_⟩, rfl, rfl⟩
      rw [CaseGroup.cases, List.map_append, hConts, List.map_map]
      apply List.rel_append
      · rw [List.forall₂_map_left_iff, List.forall₂_map_right_iff, List.forall₂_same]
        intro c hc
        refine ⟨rfl, (hValid.conts c hc).symm, fun hFlag => ?_⟩
        rw [hValid.conts c hc] at hFlag
        cases hFlag
      · refine List.Forall₂.cons ⟨?_, hValid.last.symm, fun _ => hDec⟩ List.Forall₂.nil
        exact List.singleton_inj.mp hLast
    · exact fun rest _ => notNext_cons.mpr (by decide)
  · intro rest _
    obtain ⟨u, more, hHead, hu⟩ := hValid.arm.head
    rw [hHead]
    exact notNext_cons.mpr (by simp_all)

/-- The loop takes the groups and the token behind the last one. -/
theorem reads_unionArms {gs : List CaseGroup} (hSome : gs ≠ []) (hValid : ∀ g ∈ gs, g.Valid)
    (hArms : ∀ g ∈ gs, g.last.1.caseDecl.IsArm) {t : Token}
    (ht : t.kind = .default ∨ t.kind = .rbrace) (stale dec : Declaration) (tok : Token) :
    Reads (Reader.repeating Failure.endless (unionArm stale) (dec, [], tok))
      (joined (fun more (g : CaseGroup) => g.toks ++ [if more then word .case else t]) gs)
      Anything fun r =>
        List.Forall₂ Case.Agrees (gs.flatMap CaseGroup.cases) r.2.1 ∧ r.2.2 = t := by
  suffices hRun : Reads (Reader.repeating Failure.endless (unionArm stale) (dec, [], tok))
      (joined (fun more (g : CaseGroup) => g.toks ++ [if more then word .case else t]) gs) Anything
      fun r => List.Forall₂ Case.Agrees (gs.flatMap CaseGroup.cases) r.2.1 ∧
        (false = false → r.2.2 = t) from
    hRun.mono (fun _ => id) fun r hr => ⟨hr.1, hr.2 rfl⟩
  apply reads_repeating (fun _ => Anything)
    (fun done more (r : Declaration × List Case × Token) =>
      List.Forall₂ Case.Agrees (done.flatMap CaseGroup.cases) r.2.1 ∧ (more = false → r.2.2 = t))
    hSome ⟨List.Forall₂.nil, by simp⟩ (by simp)
  · rintro done g more b r hAll ⟨hInv, -⟩
    have hMem : g ∈ gs := by simp [hAll]
    have hKind : (if b then word .case else t).kind = .case ∨
        (if b then word .case else t).kind = .default ∨
          (if b then word .case else t).kind = .rbrace := by
      cases b with
      | true => exact Or.inl rfl
      | false => exact Or.inr ht
    apply (reads_unionArm (hValid g hMem) (hArms g hMem) hKind stale r).mono fun _ => id
    rintro r' ⟨⟨cs, hCases, hAgrees⟩, hTok, hMore⟩
    refine ⟨⟨?_, fun hEnd => by rw [hTok, hEnd]; rfl⟩, ?_⟩
    · rw [hCases, List.flatMap_append]
      apply List.rel_append hInv
      simpa using hAgrees
    · rw [hMore]
      cases b with
      | true => rfl
      | false =>
          rw [decide_eq_false]
          rcases ht with ht | ht <;> simp [ht]
  · exact fun _ _ _ _ => trivial

theorem reads_defUnion {name : String} {un : UnionDef} {ts : List Token}
    (hPrints : (DefBody.union un).Prints name ts)
    (hWell : Definition.WellFormed newstyle ⟨name, .union un⟩) (stale : Declaration) :
    Reads (defUnion stale) ts Anything (Definition.Agrees ⟨name, .union un⟩) := by
  obtain ⟨disc, hDisc, xs, hCases, hPrintsCases, last, hLast, rfl⟩ := hPrints
  obtain ⟨hDiscMember, ⟨final, hFinal, hFinalFlag⟩, hArms, hDefault⟩ := hWell
  have hEnds : ∀ x ∈ xs.getLast?, x.1.contflag = false := by
    intro x hx
    have hMap : (xs.map Prod.fst).getLast? = some x.1 := by
      rw [List.getLast?_map, hx]
      rfl
    rw [hCases, hMap] at hFinal
    rw [Option.some.inj hFinal]
    exact hFinalFlag
  obtain ⟨gs, hValid, hGroups, hToks⟩ := exists_caseGroups hPrintsCases hEnds
  have hSome : gs ≠ [] := by
    rintro rfl
    rw [hCases, hGroups] at hFinal
    cases hFinal
  have hGroupArms : ∀ g ∈ gs, g.last.1.caseDecl.IsArm := by
    intro g hg
    apply hArms g.last.1 _ (hValid g hg).last
    rw [hCases, hGroups]
    exact List.mem_flatMap.mpr ⟨g, hg, by simp [CaseGroup.cases]⟩
  obtain ⟨t, rest, rfl, ht⟩ : ∃ t rest, last = t :: rest ∧ (t.kind = .default ∨ t.kind = .rbrace) := by
    cases hNone : un.defaultDecl with
    | none =>
        rw [hNone] at hLast
        exact ⟨_, _, hLast, Or.inr rfl⟩
    | some dec =>
        rw [hNone] at hLast
        obtain ⟨arm, -, rfl⟩ := hLast
        exact ⟨_, _, rfl, Or.inl rfl⟩
  have hText : xs.flatMap Prod.snd ++ t :: rest =
      word .case :: (joined (fun more (g : CaseGroup) => g.toks ++ [if more then word .case else t])
        gs ++ rest) := by
    rw [← List.cons_append, cons_joined _ _ _ hSome, hToks, List.append_assoc]
    rfl
  simp only [List.append_assoc]
  rw [hText]
  apply (reads_scan (t := identTok name) rfl).cons
  rintro a rfl
  apply (reads_scan rfl).cons
  rintro b rfl
  apply (reads_scan rfl).cons
  rintro c rfl
  apply (reads_getDeclaration hDisc (Or.inl hDiscMember)).bind
  · intro enumDecl hEnum
    apply (reads_scan rfl).cons
    rintro d rfl
    apply (reads_scan rfl).cons
    rintro e rfl
    apply (reads_scan rfl).cons
    rintro f rfl
    apply (reads_unionArms hSome hValid hGroupArms ht stale enumDecl _).seq
    rintro r ⟨hAgrees, hTok⟩
    rw [← hGroups, ← hCases] at hAgrees
    cases hNone : un.defaultDecl with
    | none =>
        rw [hNone] at hLast
        obtain ⟨rfl, rfl⟩ := List.cons.inj hLast
        rw [if_neg (by simp [hTok, mark])]
        refine Reads.pure ⟨rfl, hEnum, hAgrees, ?_⟩
        rw [hNone]
        exact Option.Rel.none
    | some dec =>
        rw [hNone] at hLast
        obtain ⟨arm, hArm, hLast⟩ := hLast
        obtain ⟨rfl, rfl⟩ := List.cons.inj hLast
        have hDec : dec.IsMember ∨ dec.type = "void" ∧ dec.rel = .alias ∧
            DefKind.union = .union := by
          rcases hDefault dec hNone with ⟨hVoid, hRel⟩ | hMember
          · exact Or.inr ⟨hVoid, hRel, rfl⟩
          · exact Or.inl hMember
        rw [if_pos (by rw [hTok]; rfl)]
        apply (reads_scan rfl).cons
        rintro g rfl
        apply (reads_getDeclaration hArm hDec).bind
        · intro dec' hDec'
          apply (reads_scan rfl).cons
          rintro h rfl
          apply (reads_scan rfl).cons
          rintro i rfl
          refine Reads.pure ⟨rfl, hEnum, hAgrees, ?_⟩
          rw [hNone]
          exact Option.Rel.some hDec'
        · exact fun rest _ => notNext_cons.mpr (by decide)
  · exact fun rest _ => notNext_cons.mpr (by decide)

/-! ### Programs -/

/-- What follows an argument is not taken for a part of it. -/
abbrev ArgEnd : List Token → Prop :=
  NotNext [.ident, .star, .langle, .int, .char, .short, .long, .hyper]

/-- The ways to write the name of an argument. -/
def PrintsArgName (num : Nat) (name : String) (ts : List Token) : Prop :=
  ts = [identTok name] ∨ ts = [] ∧ name = argname ++ toString num

theorem reads_argName {num : Nat} {name : String} {ts : List Token}
    (h : PrintsArgName num name ts) (hLength : name.length < 255) :
    Reads (argName num) ts (NotNext [.ident]) (· = name) := by
  rcases h with rfl | ⟨rfl, hName⟩
  · apply (reads_peekscan (t := identTok name) rfl).cons
    rintro a rfl
    apply Reads.anything
    show Reads (if name.length < 255 then pure name else _) _ _ _
    rw [if_pos hLength]
    exact Reads.pure rfl
  · apply reads_peekscan_none.bind_nil
    rintro a rfl
    exact Reads.pure hName.symm

theorem reads_argPointer_none (dec : Declaration) :
    Reads (argPointer dec) [] (NotNext [.star]) (· = dec) := by
  apply reads_peekscan_none.bind_nil
  rintro a rfl
  exact Reads.pure rfl

/-- Behind the star the name stands, unless it is the usual one. -/
theorem reads_argPointer_star {dec : Declaration} {num : Nat} {name : String} {ts : List Token}
    (h : PrintsArgName num name ts) (hOld : dec.name = argname ++ toString num)
    (hString : dec.type ≠ "string") :
    Reads (argPointer dec) (mark .star :: ts) (NotNext [.ident])
      (· = { dec with rel := .pointer, name := name }) := by
  apply (reads_peekscan rfl).cons
  rintro a rfl
  simp only [if_neg hString]
  rcases h with rfl | ⟨rfl, hName⟩
  · apply (reads_peekscan (t := identTok name) rfl).cons
    rintro a rfl
    exact Reads.pure rfl
  · apply reads_peekscan_none.bind_nil
    rintro a rfl
    refine Reads.pure ?_
    rw [hName, ← hOld]

theorem reads_argBound_none (dec : Declaration) :
    Reads (argBound dec) [] (NotNext [.langle]) (· = dec) := by
  apply reads_peekscan_none.bind_nil
  rintro a rfl
  exact Reads.pure rfl

theorem reads_argBound_angle {dec : Declaration} (hString : dec.type = "string") (amax : String) :
    Reads (argBound dec) (angleToks amax) Anything
      (· = { dec with rel := .array, arrayMax := amax }) := by
  rw [angleToks_eq]
  apply (reads_peekscan rfl).cons
  rintro a rfl
  simp only [hString, ne_eq, not_true, if_false]
  apply (reads_angleBound amax).bind_nil
  rintro b rfl
  exact Reads.pure rfl

/-- An argument that is not void is taken as it is written. -/
theorem reads_getProgDeclarationSome {dec : Declaration} {ts : List Token} {num : Nat}
    (hArg : dec.IsArg) (hPrints : dec.PrintsArg num ts) (old : Declaration) (dkind : DefKind) :
    Reads (getProgDeclarationSome old dkind num) ts ArgEnd dec.Agrees := by
  obtain ⟨type, name, hType, hName, hTail⟩ := hPrints
  obtain ⟨hVoid, hOpaque, hString, hVector, hLength⟩ := hArg
  have hGet : Reads (getType dkind) type TypeEnd (· = (dec.prefixWord, dec.type)) :=
    reads_getType hType fun h => absurd h hVoid
  have hNameEnd : ∀ {rest}, TypeEnd rest → TypeEnd (name ++ rest) := by
    intro rest hEnd
    rcases hName with rfl | ⟨rfl, -⟩
    · exact notNext_cons.mpr (by simp [identTok])
    · exact hEnd
  cases hRel : dec.rel with
  | vector => exact absurd hRel hVector
  | «alias» =>
      have hPlain : dec.type ≠ "string" := fun h => by simp [hString.mp h] at hRel
      rw [hRel] at hTail
      subst hTail
      apply hGet.bind _ fun rest hEnd => hNameEnd (hEnd.mono (by simp))
      rintro a rfl
      apply ((reads_argName hName hLength).mono (fun _ hEnd => hEnd.mono (by simp))
        fun _ => id).bind_nil
      rintro b rfl
      simp only [if_neg hVoid, if_neg hOpaque]
      apply ((reads_argPointer_none _).mono (fun _ hEnd => hEnd.mono (by simp)) fun _ => id).bind_nil
      rintro c rfl
      apply ((reads_argBound_none _).mono (fun _ hEnd => hEnd.mono (by simp)) fun _ => id).bind_nil
      rintro d rfl
      simp only [hPlain, false_and, if_false]
      exact Reads.pure ⟨rfl, rfl, hRel.symm, fun _ => rfl, by simp [hRel]⟩
  | pointer =>
      have hPlain : dec.type ≠ "string" := fun h => by simp [hString.mp h] at hRel
      rw [hRel] at hTail
      subst hTail
      apply hGet.bind _ fun rest _ => notNext_cons.mpr (by decide)
      rintro a rfl
      have hNone : Reads (argName num) [] (NotNext [.ident]) (· = argname ++ toString num) := by
        apply reads_peekscan_none.bind_nil
        rintro a rfl
        exact Reads.pure rfl
      apply hNone.bind (w := mark .star :: name)
      · rintro b rfl
        simp only [if_neg hVoid, if_neg hOpaque]
        apply ((reads_argPointer_star hName (by rfl) (by exact hPlain)).mono
          (fun _ hEnd => NotNext.mono hEnd (by simp)) fun _ => id).bind_nil
        rintro c rfl
        apply ((reads_argBound_none _).mono (fun _ hEnd => hEnd.mono (by simp))
          fun _ => id).bind_nil
        rintro d rfl
        simp only [hPlain, false_and, if_false]
        exact Reads.pure ⟨rfl, rfl, hRel.symm, fun _ => rfl, by simp [hRel]⟩
      · exact fun rest _ => notNext_cons.mpr (by decide)
  | array =>
      have hIs := hString.mpr hRel
      rw [hRel] at hTail
      rcases hTail with rfl | ⟨rfl, hMax⟩
      · rw [List.append_assoc]
        apply hGet.bind
        · rintro a rfl
          apply (reads_argName hName hLength).bind
          · rintro b rfl
            simp only [if_neg hVoid, if_neg hOpaque]
            apply (reads_argPointer_none _).bind (w := angleToks dec.arrayMax)
            · rintro c rfl
              apply (reads_argBound_angle (by exact hIs) dec.arrayMax).anything.bind_nil
              rintro d rfl
              simp only [ne_eq, not_true, and_false, if_false]
              exact Reads.pure ⟨rfl, rfl, hRel.symm, fun _ => rfl, fun _ => rfl⟩
            · intro rest _
              rw [angleToks_eq]
              exact notNext_cons.mpr (by decide)
          · intro rest _
            rw [angleToks_eq]
            exact notNext_cons.mpr (by decide)
        · intro rest _
          rw [List.append_assoc, angleToks_eq]
          exact hNameEnd (notNext_cons.mpr (by decide))
      · apply hGet.bind _ fun rest hEnd => hNameEnd (hEnd.mono (by simp))
        rintro a rfl
        apply ((reads_argName hName hLength).mono (fun _ hEnd => hEnd.mono (by simp))
          fun _ => id).bind_nil
        rintro b rfl
        simp only [if_neg hVoid, if_neg hOpaque]
        apply ((reads_argPointer_none _).mono (fun _ hEnd => hEnd.mono (by simp))
          fun _ => id).bind_nil
        rintro c rfl
        apply ((reads_argBound_none _).mono (fun _ hEnd => hEnd.mono (by simp))
          fun _ => id).bind_nil
        rintro d rfl
        rw [if_pos ⟨hIs, by simp⟩]
        exact Reads.pure ⟨rfl, rfl, hRel.symm, fun _ => rfl, fun _ => hMax.symm⟩

theorem Declaration.PrintsArg.head {dec : Declaration} {num : Nat} {ts : List Token}
    (h : dec.PrintsArg num ts) : ∃ t rest, ts = t :: rest ∧ t.kind ∉ [.rbrace, .rparen, .case] := by
  obtain ⟨type, name, hType, -, hTail⟩ := h
  obtain ⟨t, rest, rfl, ht⟩ := hType.head
  cases hRel : dec.rel with
  | vector =>
      rw [hRel] at hTail
      cases hTail
  | array =>
      rw [hRel] at hTail
      rcases hTail with rfl | ⟨rfl, -⟩ <;> exact ⟨t, _, rfl, ht⟩
  | «alias» =>
      rw [hRel] at hTail
      exact ⟨t, _, hTail, ht⟩
  | pointer =>
      rw [hRel] at hTail
      exact ⟨t, _, hTail, ht⟩

/-- The next token is the closing parenthesis. -/
def AtRparen (rest : List Token) : Prop := ∃ t, rest.head? = some t ∧ t.kind = .rparen

/-- The first argument is peeked at. -/
theorem reads_getProgDeclaration_first {t : Token} {ts : List Token} {stop : List Token → Prop}
    {post : Declaration → Prop} (ht : t.kind ≠ .rparen) (old : Declaration)
    (h : Reads (getProgDeclarationSome old .program 1) (t :: ts) stop post) :
    Reads (getProgDeclaration old .program 1) (t :: ts) stop post := by
  have hBoth : Reads (getProgDeclaration old .program 1) ([] ++ t :: ts) stop post := by
    apply (reads_peek_token t).bind _ fun rest _ => rfl
    rintro a rfl
    rw [if_neg ht]
    exact h
  exact hBoth

/-- Nothing, or `void` alone, stands for one void argument. -/
theorem reads_getProgDeclaration_void {dec : Declaration} {ts : List Token} (hVoid : dec.IsVoid)
    (hPrints : ts = [] ∨ ts = [word .void]) (old : Declaration) :
    Reads (getProgDeclaration old .program 1) ts AtRparen dec.Agrees := by
  obtain ⟨hPrefix, hType, hRel⟩ := hVoid
  rcases hPrints with rfl | rfl
  · apply reads_peek_next.bind_nil
    intro a ha
    rw [if_pos ha]
    exact Reads.pure ⟨hPrefix.symm, hType.symm, hRel.symm, fun h => absurd hType h, by simp [hRel]⟩
  · apply reads_getProgDeclaration_first (by decide)
    have hPrints : PrintsType none "void" [word .void] := @PrintsType.word .void (by decide)
    have hGet : Reads (getType .program) [word .void] TypeEnd (· = (none, "void")) :=
      reads_getType hPrints fun _ => Or.inr rfl
    have hEnd : ∀ kinds rest, TokKind.rparen ∉ kinds → AtRparen rest → NotNext kinds rest := by
      rintro kinds rest hNot ⟨t, hHead, ht⟩
      exact ⟨t, hHead, by rwa [ht]⟩
    have hName : Reads (argName 1) [] AtRparen fun _ => True := by
      apply (reads_peekscan_none.mono (hEnd [.ident] · (by decide)) fun _ => id).bind_nil
      rintro a rfl
      exact Reads.pure trivial
    apply (hGet.mono (hEnd _ · (by decide)) fun _ => id).bind_nil
    rintro a rfl
    apply hName.bind_nil
    intro name _
    exact Reads.pure ⟨hPrefix.symm, hType.symm, hRel.symm, fun h => absurd hType h, by simp [hRel]⟩

/-- The further arguments are taken as they are written. -/
theorem reads_moreArgs {first : Declaration} {more : List (Declaration × List Token)}
    (hArgs : ∀ x ∈ more, x.1.IsArg)
    (hPrints : ∀ i (x : Declaration × List Token), more[i]? = some x → x.1.PrintsArg (i + 2) x.2)
    {dec : Declaration} (hFirst : first.Agrees dec) (isvoid : Bool) :
    Reads (Reader.repeating Failure.endless moreArgs (dec, [dec], 1, isvoid))
      (more.flatMap fun x => mark .comma :: x.2) AtRparen fun r =>
        List.Forall₂ Declaration.Agrees (first :: more.map Prod.fst) r.2.1 ∧
          r.2.2.1 = more.length + 1 ∧ r.2.2.2 = isvoid := by
  apply reads_repeating_end ArgEnd
    fun done (r : Declaration × List Declaration × Nat × Bool) =>
      List.Forall₂ Declaration.Agrees (first :: done.map Prod.fst) r.2.1 ∧
        r.2.2.1 = done.length + 1 ∧ r.2.2.2 = isvoid
  · exact ⟨List.Forall₂.cons hFirst List.Forall₂.nil, rfl, rfl⟩
  · simp
  · rintro done x rest r hAll ⟨hAgrees, hNum, hVoid⟩
    have hArg : x.1.IsArg := hArgs x (by simp [hAll])
    have hText : x.1.PrintsArg (r.2.2.1 + 1) x.2 := by
      rw [hNum]
      apply hPrints
      simp [hAll]
    apply (reads_peekscan rfl).cons
    rintro a rfl
    apply (reads_getProgDeclarationSome hArg hText r.1 .struct).bind_nil
    intro dec hDec
    refine Reads.pure ⟨⟨?_, ?_, ?_⟩, rfl⟩
    · rw [List.map_append, ← List.cons_append]
      exact List.rel_append hAgrees (List.Forall₂.cons hDec List.Forall₂.nil)
    · simp [hNum]
    · simp [hVoid, hDec.2.1, hArg.1]
  · intro r hInv
    have hEnd : ∀ rest, AtRparen rest → NotNext [.comma] rest := by
      rintro rest ⟨t, hHead, ht⟩
      exact ⟨t, hHead, by simp [ht]⟩
    apply (reads_peekscan_none.mono hEnd fun _ => id).bind_nil
    rintro a rfl
    exact Reads.pure ⟨hInv, rfl⟩
  · rintro rest ⟨t, hHead, ht⟩
    exact ⟨t, hHead, by simp [ht]⟩
  · exact fun x _ rest => notNext_cons.mpr (by decide)

/-- The arguments of a procedure are taken as they are written. -/
theorem reads_procArgs {decls : List Declaration} {ts : List Token} (h : PrintsArgs decls ts)
    (old : Declaration) :
    Reads (procArgs old) ts AtRparen fun r => List.Forall₂ Declaration.Agrees decls r.2.1 ∧
      r.2.2.1 = decls.length ∧ (r.2.2.2 = true → decls.length = 1) := by
  rcases h with ⟨dec, rfl, hVoid, hText⟩ | ⟨first, more, rfl, hArgs, hFirst, hMore, rfl⟩
  · apply (reads_getProgDeclaration_void hVoid hText old).bind_nil
    intro dec' hDec
    apply (@reads_moreArgs dec [] (by simp) (by simp) _ hDec _).mono fun _ => id
    rintro r ⟨hAgrees, hNum, -⟩
    exact ⟨hAgrees, hNum, fun _ => rfl⟩
  · have hArg : first.1.IsArg := hArgs first.1 List.mem_cons_self
    obtain ⟨t, rest, hHead, ht⟩ := hFirst.head
    have hGet : Reads (getProgDeclaration old .program 1) first.2 ArgEnd first.1.Agrees := by
      have hSome := reads_getProgDeclarationSome hArg hFirst old .program
      rw [hHead] at hSome ⊢
      exact reads_getProgDeclaration_first (by simp_all) old hSome
    apply hGet.bind
    · intro dec hDec
      have hMoreArgs : ∀ x ∈ more, x.1.IsArg := fun x hx =>
        hArgs x.1 (List.mem_cons_of_mem _ (List.mem_map_of_mem hx))
      have hNot : decide (dec.type = "void") = false := by simp [hDec.2.1, hArg.1]
      rw [hNot]
      apply (reads_moreArgs hMoreArgs hMore hDec false).mono fun _ => id
      rintro r ⟨hAgrees, hNum, hVoid⟩
      refine ⟨hAgrees, by simpa using hNum, fun hTrue => ?_⟩
      rw [hVoid] at hTrue
      cases hTrue
    · rintro rest ⟨u, hu, hKind⟩
      cases more with
      | nil => exact ⟨u, hu, by simp [hKind]⟩
      | cons x more => exact notNext_cons.mpr (by decide)

/-- All but the name of its argument. -/
def Proc.AgreesUnnamed (p parsed : Proc) : Prop :=
  parsed.procName = p.procName ∧ parsed.procNum = p.procNum ∧
    List.Forall₂ Declaration.Agrees p.args.decls parsed.args.decls ∧
    parsed.argNum = p.argNum ∧ parsed.resType = p.resType ∧ parsed.resPrefix = p.resPrefix

theorem reads_defProc {newstyle : Bool} {versNum : String} {p : Proc} {ts : List Token}
    (hPrints : p.Prints ts) (hWell : p.WellFormed newstyle versNum) (old : Declaration) :
    Reads (defProc newstyle old) ts Anything fun r => p.AgreesUnnamed r.2 := by
  obtain ⟨res, args, hRes, hArgs, rfl⟩ := hPrints
  obtain ⟨hOpaque, hNum, hStyle, -⟩ := hWell
  have hGet : Reads (getType .program) res TypeEnd (· = (p.resPrefix, p.resType)) :=
    reads_getType hRes fun _ => Or.inr rfl
  simp only [List.append_assoc]
  apply hGet.bind
  · rintro a rfl
    simp only [if_neg hOpaque]
    apply (reads_scan (t := identTok p.procName) rfl).cons
    rintro b rfl
    apply (reads_scan rfl).cons
    rintro c rfl
    apply (reads_procArgs hArgs old).bind
    · rintro r ⟨hAgrees, hLength, hVoid⟩
      have hOld : ¬ (newstyle = false ∧ r.2.2.1 > 1) := by
        rintro ⟨hFalse, hMany⟩
        rw [hLength] at hMany
        rw [hStyle hMany] at hFalse
        cases hFalse
      have hOnly : ¬ (r.2.2.2 = true ∧ r.2.2.1 > 1) := by
        rintro ⟨hIs, hMany⟩
        rw [hLength, hVoid hIs] at hMany
        exact absurd hMany (Nat.lt_irrefl 1)
      rw [if_neg hOld, if_neg hOnly]
      apply (reads_scan rfl).cons
      rintro d rfl
      apply (reads_scan rfl).cons
      rintro e rfl
      apply (reads_scanNum (t := identTok p.procNum) rfl).cons
      rintro f rfl
      apply (reads_scan rfl).cons
      rintro g rfl
      exact Reads.pure ⟨rfl, rfl, hAgrees, hLength.trans hNum.symm, rfl, rfl⟩
    · exact fun rest _ => ⟨mark .rparen, rfl, rfl⟩
  · exact fun rest _ => notNext_cons.mpr (by simp [identTok])

theorem makeArgname_eq {pname : String} (vname : String) :
    makeArgname pname vname =
      if pname.length < 100 then some (argnameText pname vname) else none := by
  rw [makeArgname, locase]
  split <;> rfl

/-- The arguments are named where the names of the procedures are short enough. -/
theorem reads_nameArgs {versNum : String} {newstyle : Bool} {procs parsed : List Proc}
    (hWell : ∀ p ∈ procs, p.WellFormed newstyle versNum)
    (hAgrees : List.Forall₂ Proc.AgreesUnnamed procs parsed)
    (hShort : ∀ p ∈ procs, p.procName.length < 100) :
    Reads (nameArgs versNum parsed) [] Anything fun r => List.Forall₂ Proc.Agrees procs r := by
  induction hAgrees with
  | nil => exact Reads.pure List.Forall₂.nil
  | @cons p q procs parsed hFirst hRest ih =>
      obtain ⟨hName, hNum, hArgs, hCount, hType, hPrefix⟩ := hFirst
      have hText : makeArgname q.procName versNum = some p.args.argname := by
        rw [makeArgname_eq, hName, if_pos (hShort p List.mem_cons_self),
          (hWell p List.mem_cons_self).2.2.2]
      have hTail := ih (fun p hp => hWell p (List.mem_cons_of_mem _ hp))
        fun p hp => hShort p (List.mem_cons_of_mem _ hp)
      simp only [nameArgs, hText]
      apply hTail.bind_nil
      intro r hr
      exact Reads.pure (List.Forall₂.cons ⟨hName, hNum, rfl, hArgs, hCount, hType, hPrefix⟩ hr)

theorem fails_nameArgs {versNum : String} {procs parsed : List Proc}
    (hAgrees : List.Forall₂ Proc.AgreesUnnamed procs parsed)
    (hLong : ∃ p ∈ procs, 100 ≤ p.procName.length) :
    Fails (nameArgs versNum parsed) [] Anything .overrun := by
  induction hAgrees with
  | nil => simp at hLong
  | @cons p q procs parsed hFirst hRest ih =>
      simp only [nameArgs, makeArgname_eq, hFirst.1]
      by_cases hShort : p.procName.length < 100
      · have hTail : ∃ p ∈ procs, 100 ≤ p.procName.length := by
          obtain ⟨p', hMem, hLong⟩ := hLong
          rcases List.mem_cons.mp hMem with rfl | hMem
          · omega
          · exact ⟨p', hMem, hLong⟩
        rw [if_pos hShort]
        exact (ih hTail).bind_nil
      · rw [if_neg hShort]
        exact fun _ _ _ _ => rfl

theorem Proc.Prints.head {p : Proc} {ts : List Token} (h : p.Prints ts) :
    ∃ t rest, ts = t :: rest ∧ t.kind ∉ [.rbrace, .rparen, .case] := by
  obtain ⟨res, args, hRes, -, hText⟩ := h
  obtain ⟨t, rest, rfl, ht⟩ := hRes.head
  exact ⟨t, _, hText, ht⟩

/-- The procedures of a version are taken as they are written, but for the names of their
arguments. -/
theorem reads_versionProcs {newstyle : Bool} {versNum : String} {xs : List (Proc × List Token)}
    (hSome : xs ≠ []) (hPrints : ∀ x ∈ xs, x.1.Prints x.2)
    (hWell : ∀ x ∈ xs, x.1.WellFormed newstyle versNum) (dec : Declaration) :
    Reads (Reader.repeating Failure.endless (versionProc newstyle) (dec, [])) (xs.flatMap Prod.snd)
      (EndsAt .rbrace false) fun r => List.Forall₂ Proc.AgreesUnnamed (xs.map Prod.fst) r.2 := by
  rw [← joined_const]
  apply reads_repeating (EndsAt .rbrace) (fun done _ (r : Declaration × List Proc) =>
    List.Forall₂ Proc.AgreesUnnamed (done.map Prod.fst) r.2) hSome List.Forall₂.nil
  · intro x hx _
    obtain ⟨t, rest, hText, -⟩ := (hPrints x hx).head
    simp [hText]
  · intro done x more b r hAll hInv
    have hMem : x ∈ xs := by simp [hAll]
    apply ((reads_defProc (hPrints x hMem) (hWell x hMem) r.1).anything).bind_nil
    intro p hp
    apply reads_peek_next.bind_nil
    intro t ht
    refine Reads.pure ⟨?_, ht⟩
    rw [List.map_append]
    exact List.rel_append hInv (List.Forall₂.cons hp List.Forall₂.nil)
  · intro x hx b rest
    obtain ⟨t, ts, hText, ht⟩ := (hPrints x hx).head
    refine ⟨t, by simp [hText], ?_⟩
    simp only [List.mem_cons, not_or] at ht
    simp [ht.1]

theorem reads_defVersion {newstyle : Bool} {v : Version} {ts : List Token} (hPrints : v.Prints ts)
    (hWell : v.WellFormed newstyle) (hShort : ∀ p ∈ v.procs, p.procName.length < 100)
    (dec : Declaration) :
    Reads (defVersion newstyle dec) ts Anything fun r => v.Agrees r.2 := by
  obtain ⟨xs, hProcs, hPrintsProcs, rfl⟩ := hPrints
  obtain ⟨hSome, hWellProcs⟩ := hWell
  have hNames := hWellProcs
  rw [hProcs] at hSome hShort hWellProcs
  have hLoop := @reads_versionProcs newstyle v.versNum xs (fun hNil => hSome (by rw [hNil]; rfl))
    hPrintsProcs (fun x hx => hWellProcs x.1 (List.mem_map_of_mem hx)) dec
  simp only [List.append_assoc]
  apply (reads_scan (t := identTok v.versName) rfl).cons
  rintro a rfl
  apply (reads_scan rfl).cons
  rintro b rfl
  apply hLoop.bind
  · intro r hr
    apply (reads_scan rfl).cons
    rintro c rfl
    apply (reads_scan rfl).cons
    rintro d rfl
    apply (reads_scanNum (t := identTok v.versNum) rfl).cons
    rintro e rfl
    apply (reads_nameArgs hWellProcs hr hShort).skip
    intro procs hAgrees
    apply (reads_scan rfl).cons
    rintro f rfl
    exact Reads.pure ⟨rfl, rfl, by rw [hProcs]; exact hAgrees⟩
  · exact fun rest _ => ⟨mark .rbrace, rfl, rfl⟩

theorem fails_defVersion {newstyle : Bool} {v : Version} {ts : List Token} (hPrints : v.Prints ts)
    (hWell : v.WellFormed newstyle) (hLong : ∃ p ∈ v.procs, 100 ≤ p.procName.length)
    (dec : Declaration) : Fails (defVersion newstyle dec) ts Anything .overrun := by
  obtain ⟨xs, hProcs, hPrintsProcs, rfl⟩ := hPrints
  obtain ⟨hSome, hWellProcs⟩ := hWell
  rw [hProcs] at hSome hLong hWellProcs
  have hLoop := @reads_versionProcs newstyle v.versNum xs (fun hNil => hSome (by rw [hNil]; rfl))
    hPrintsProcs (fun x hx => hWellProcs x.1 (List.mem_map_of_mem hx)) dec
  simp only [List.append_assoc]
  apply (reads_scan (t := identTok v.versName) rfl).cons_fails
  rintro a rfl
  apply (reads_scan rfl).cons_fails
  rintro b rfl
  apply hLoop.bind_fails
  · intro r hr
    apply (reads_scan rfl).cons_fails
    rintro c rfl
    apply (reads_scan rfl).cons_fails
    rintro d rfl
    apply (reads_scanNum (t := identTok v.versNum) rfl).cons_fails
    rintro e rfl
    apply (fails_nameArgs hr hLong).bind (w := [mark .semicolon])
    exact fun _ _ => trivial
  · exact fun rest _ => ⟨mark .rbrace, rfl, rfl⟩

/-- A version that `make_argname` does not get through. -/
def LongVersion (x : Version × List Token) : Prop := ∃ p ∈ x.1.procs, 100 ≤ p.procName.length

/-- What is written of the versions of a program. -/
def versionToks (more : Bool) (x : Version × List Token) : List Token :=
  x.2 ++ [if more then word .version else mark .rbrace]

theorem reads_programVersion {newstyle : Bool} {x : Version × List Token}
    (hPrints : x.1.Prints x.2) (hWell : x.1.WellFormed newstyle) (hShort : ¬ LongVersion x)
    (b : Bool) (r : Declaration × List Version) :
    Reads (programVersion newstyle r) (versionToks b x) Anything fun r' =>
      (∃ v, x.1.Agrees v ∧ r'.1.2 = r.2 ++ [v]) ∧ r'.2 = b := by
  have hNames : ∀ p ∈ x.1.procs, p.procName.length < 100 := by
    intro p hp
    by_contra hLong
    exact hShort ⟨p, hp, Nat.not_lt.mp hLong⟩
  apply (reads_defVersion hPrints hWell hNames r.1).seq
  intro v hv
  apply (reads_scan2 (by cases b <;> simp [mark, word, symbols])).cons
  rintro a rfl
  exact Reads.pure ⟨⟨v.2, hv, rfl⟩, by cases b <;> rfl⟩

theorem reads_defProgram {newstyle : Bool} {name : String} {pr : ProgramDef} {ts : List Token}
    (hPrints : (DefBody.program pr).Prints name ts)
    (hWell : Definition.WellFormed newstyle ⟨name, .program pr⟩)
    (hShort : ∀ p ∈ Definition.procs ⟨name, .program pr⟩, p.procName.length < 100)
    (stale : Declaration) :
    Reads (defProgram newstyle stale) ts Anything (Definition.Agrees ⟨name, .program pr⟩) := by
  obtain ⟨xs, hVersions, hPrintsVersions, rfl⟩ := hPrints
  obtain ⟨hSome, hWellVersions⟩ := hWell
  have hNotLong : ∀ x ∈ xs, ¬ LongVersion x := by
    rintro x hx ⟨p, hp, hLong⟩
    refine absurd (hShort p (List.mem_flatMap.mpr ⟨x.1, ?_, hp⟩)) (Nat.not_lt.mpr hLong)
    rw [hVersions]
    exact List.mem_map_of_mem hx
  rw [hVersions] at hSome hWellVersions
  have hLoop : Reads (Reader.repeating Failure.endless (programVersion newstyle) (stale, []))
      (joined versionToks xs) Anything
      fun r => List.Forall₂ Version.Agrees (xs.map Prod.fst) r.2 := by
    apply reads_repeating (fun _ => Anything) (fun done _ (r : Declaration × List Version) =>
      List.Forall₂ Version.Agrees (done.map Prod.fst) r.2)
      (fun hNil => hSome (by rw [hNil]; rfl)) List.Forall₂.nil
    · simp [versionToks]
    · intro done x more b r hAll hInv
      have hMem : x ∈ xs := by simp [hAll]
      apply (reads_programVersion (hPrintsVersions x hMem)
        (hWellVersions x.1 (List.mem_map_of_mem hMem)) (hNotLong x hMem) b r).mono fun _ => id
      rintro r' ⟨⟨v, hv, hList⟩, hMore⟩
      refine ⟨?_, hMore⟩
      rw [hList, List.map_append]
      exact List.rel_append hInv (List.Forall₂.cons hv List.Forall₂.nil)
    · exact fun _ _ _ _ => trivial
  apply (reads_scan (t := identTok name) rfl).cons
  rintro a rfl
  apply (reads_scan rfl).cons
  rintro b rfl
  apply (reads_scan rfl).cons
  rintro c rfl
  apply hLoop.seq
  intro r hr
  apply (reads_scan rfl).cons
  rintro d rfl
  apply (reads_scanNum (t := identTok pr.progNum) rfl).cons
  rintro e rfl
  exact Reads.pure ⟨rfl, rfl, by rw [hVersions]; exact hr⟩

theorem fails_defProgram {newstyle : Bool} {name : String} {pr : ProgramDef} {ts : List Token}
    (hPrints : (DefBody.program pr).Prints name ts)
    (hWell : Definition.WellFormed newstyle ⟨name, .program pr⟩)
    (hLong : ∃ p ∈ Definition.procs ⟨name, .program pr⟩, 100 ≤ p.procName.length)
    (stale : Declaration) : Fails (defProgram newstyle stale) ts Anything .overrun := by
  obtain ⟨xs, hVersions, hPrintsVersions, rfl⟩ := hPrints
  obtain ⟨hSome, hWellVersions⟩ := hWell
  have hBad : ∃ x ∈ xs, LongVersion x := by
    obtain ⟨p, hMem, hName⟩ := hLong
    obtain ⟨v, hv, hp⟩ := List.mem_flatMap.mp hMem
    rw [hVersions] at hv
    obtain ⟨x, hx, rfl⟩ := List.mem_map.mp hv
    exact ⟨x, hx, p, hp, hName⟩
  rw [hVersions] at hSome hWellVersions
  have hLoop : Fails (Reader.repeating Failure.endless (programVersion newstyle) (stale, []))
      (joined versionToks xs) Anything .overrun := by
    apply fails_repeating (fun _ => Anything) (fun _ _ _ => True) hBad trivial
    · simp [versionToks]
    · intro done x more b r hAll hNot _
      have hMem : x ∈ xs := by simp [hAll]
      apply (reads_programVersion (hPrintsVersions x hMem)
        (hWellVersions x.1 (List.mem_map_of_mem hMem)) hNot b r).mono fun _ => id
      exact fun r' hr' => ⟨trivial, hr'.2⟩
    · intro done x more b r hAll hBad _
      have hMem : x ∈ xs := by simp [hAll]
      exact (fails_defVersion (hPrintsVersions x hMem)
        (hWellVersions x.1 (List.mem_map_of_mem hMem)) hBad r.1).bind fun _ _ => trivial
    · exact fun _ _ _ _ => trivial
  apply (reads_scan (t := identTok name) rfl).cons_fails
  rintro a rfl
  apply (reads_scan rfl).cons_fails
  rintro b rfl
  apply (reads_scan rfl).cons_fails
  rintro c rfl
  exact hLoop.bind fun _ _ => trivial

/-! ### The whole file -/

/-- The body of a definition is taken as it is written, by the function for its first word. -/
theorem reads_getDefinition {newstyle : Bool} {d : Definition} {ts : List Token}
    (hPrints : d.Prints ts) (hWell : d.WellFormed newstyle)
    (hShort : ∀ p ∈ d.procs, p.procName.length < 100) (stale : Declaration)
    (defined : List Definition) :
    Reads (getDefinition newstyle stale defined) ts Anything fun r =>
      ∃ d', d.Agrees d' ∧ r = (some d', defined ++ [d']) := by
  obtain ⟨body, hBody, rfl⟩ := hPrints
  have hFinish : ∀ p : Parser Definition, Reads p body DeclEnd d.Agrees →
      Reads (do
          let defp ← p
          let _ ← scan .semicolon
          pure (some defp, defined ++ [defp]) : Parser (Option Definition × List Definition))
        (body ++ [mark .semicolon]) Anything
        fun r => ∃ d', d.Agrees d' ∧ r = (some d', defined ++ [d']) := by
    intro p hp
    apply hp.bind
    · intro d' hd'
      apply (reads_scan rfl).cons
      rintro a rfl
      exact Reads.pure ⟨d', hd', rfl⟩
    · exact fun rest _ => notNext_cons.mpr (by decide)
  rcases d with ⟨name, co | decls | un | vals | ty | pr⟩ <;> apply (reads_getToken _).cons <;>
    rintro a rfl
  · exact hFinish defConst (reads_defConst hBody).anything
  · exact hFinish (defStruct stale) (reads_defStruct hBody hWell stale).anything
  · exact hFinish (defUnion stale) (reads_defUnion hBody hWell stale).anything
  · exact hFinish defEnum (reads_defEnum hBody hWell).anything
  · exact hFinish (defTypedef stale) (reads_defTypedef hBody hWell stale)
  · exact hFinish (defProgram newstyle stale) (reads_defProgram hBody hWell hShort stale).anything

/-- A definition with a procedure whose name is too long. -/
def LongDefinition (x : Definition × List Token) : Prop :=
  ∃ p ∈ x.1.procs, 100 ≤ p.procName.length

theorem fails_getDefinition {newstyle : Bool} {x : Definition × List Token}
    (hPrints : x.1.Prints x.2) (hWell : x.1.WellFormed newstyle) (hLong : LongDefinition x)
    (stale : Declaration) (defined : List Definition) :
    Fails (getDefinition newstyle stale defined) x.2 Anything .overrun := by
  obtain ⟨⟨name, co | decls | un | vals | ty | pr⟩, ts⟩ := x
  case program =>
    change ∃ body, DefBody.Prints name (.program pr) body ∧
      ts = word (DefBody.program pr).keyword :: body ++ [mark .semicolon] at hPrints
    obtain ⟨body, hBody, rfl⟩ := hPrints
    apply (reads_getToken _).cons_fails
    rintro a rfl
    have hFail := (fails_defProgram hBody hWell hLong stale).bind_nil
      (f := fun defp => do
        let _ ← scan .semicolon
        pure (some defp, defined ++ [defp]))
    intro s rest hView _
    exact hFail s (mark .semicolon :: rest) (by rw [hView]; simp) trivial
  all_goals
    obtain ⟨p, hMem, -⟩ := hLong
    cases hMem

theorem reads_getToken_eof : Reads getToken [] (fun rest => rest = []) (· = ⟨.eof, ""⟩) := by
  rintro ⟨_ | u, input⟩ rest hView rfl
  · obtain rfl : input = [] := hView
    exact ⟨⟨.eof, ""⟩, ⟨none, []⟩, rfl, rfl, rfl⟩
  · cases hView

theorem reads_getDefinition_eof (newstyle : Bool) (stale : Declaration)
    (defined : List Definition) :
    Reads (getDefinition newstyle stale defined) [] (fun rest => rest = [])
      (· = (none, defined)) := by
  apply reads_getToken_eof.bind_nil
  rintro a rfl
  exact Reads.pure rfl

theorem reads_nextDefinition {newstyle : Bool} {x : Definition × List Token}
    (hPrints : x.1.Prints x.2) (hWell : x.1.WellFormed newstyle) (hShort : ¬ LongDefinition x)
    (stale : Declaration) (r : List Definition × List Definition) :
    Reads (nextDefinition newstyle stale r) x.2 Anything fun r' =>
      ∃ d', x.1.Agrees d' ∧ r' = ((r.1 ++ [d'], r.2 ++ [d']), true) := by
  have hNames : ∀ p ∈ x.1.procs, p.procName.length < 100 := by
    intro p hp
    by_contra hLong
    exact hShort ⟨p, hp, Nat.not_lt.mp hLong⟩
  apply (reads_getDefinition hPrints hWell hNames stale r.2).bind_nil
  rintro a ⟨d', hd', rfl⟩
  exact Reads.pure ⟨d', hd', rfl⟩

theorem Definition.Prints.ne_nil {d : Definition} {ts : List Token} (h : d.Prints ts) : ts ≠ [] := by
  obtain ⟨body, -, rfl⟩ := h
  simp

section File

variable {newstyle : Bool} {xs : List (Definition × List Token)}

/-- With a name that is too long, the calls of `get_definition` come to the buffer of `locase`. -/
theorem fails_getDefinitions (hWell : ∀ x ∈ xs, x.1.WellFormed newstyle)
    (hPrints : ∀ x ∈ xs, x.1.Prints x.2) (hBad : ∃ x ∈ xs, LongDefinition x)
    (stale : Declaration) (defined : List Definition) :
    Fails (getDefinitions newstyle stale defined) (xs.flatMap Prod.snd) (fun rest => rest = [])
      .overrun := by
  apply fails_repeating_end Anything (fun _ _ => True) hBad trivial
    fun x hx => (hPrints x hx).ne_nil
  · intro done x more r hAll hNot _
    have hMem : x ∈ xs := by simp [hAll]
    apply (reads_nextDefinition (hPrints x hMem) (hWell x hMem) hNot stale r).mono fun _ => id
    rintro r' ⟨d', -, rfl⟩
    exact ⟨trivial, rfl⟩
  · intro done x more r hAll hLong _
    have hMem : x ∈ xs := by simp [hAll]
    exact (fails_getDefinition (hPrints x hMem) (hWell x hMem) hLong stale r.2).bind_nil
  · exact fun _ _ => trivial
  · exact fun _ _ _ => trivial

/-- With no such name, they yield the definitions that the file is written from. -/
theorem reads_getDefinitions (hWell : ∀ x ∈ xs, x.1.WellFormed newstyle)
    (hPrints : ∀ x ∈ xs, x.1.Prints x.2) (hShort : ∀ x ∈ xs, ¬ LongDefinition x)
    (stale : Declaration) (defined : List Definition) :
    Reads (getDefinitions newstyle stale defined) (xs.flatMap Prod.snd) (fun rest => rest = [])
      fun r => List.Forall₂ Definition.Agrees (xs.map Prod.fst) r.1 ∧ r.2 = defined ++ r.1 := by
  apply reads_repeating_end Anything
    (fun done (r : List Definition × List Definition) =>
      List.Forall₂ Definition.Agrees (done.map Prod.fst) r.1 ∧ r.2 = defined ++ r.1)
    ⟨List.Forall₂.nil, (List.append_nil defined).symm⟩ fun x hx => (hPrints x hx).ne_nil
  · rintro done x more r hAll ⟨hInv, hDefined⟩
    have hMem : x ∈ xs := by simp [hAll]
    apply (reads_nextDefinition (hPrints x hMem) (hWell x hMem) (hShort x hMem) stale r).mono
      fun _ => id
    rintro r' ⟨d', hd', rfl⟩
    refine ⟨⟨?_, by simp [hDefined]⟩, rfl⟩
    rw [List.map_append]
    exact List.rel_append hInv (List.Forall₂.cons hd' List.Forall₂.nil)
  · intro r hInv
    apply (reads_getDefinition_eof newstyle stale r.2).bind_nil
    rintro d rfl
    exact Reads.pure ⟨hInv, rfl⟩
  · exact fun _ _ => trivial
  · exact fun _ _ _ => trivial

/-- The calls of `get_definition` yield the definitions that a file is written from, and then
NULL, unless the name of a procedure is too long for `locase`. -/
theorem getDefinitions_printed_iff (hWell : ∀ x ∈ xs, x.1.WellFormed newstyle)
    (hPrints : ∀ x ∈ xs, x.1.Prints x.2) (stale : Declaration) (defined : List Definition)
    {s : Pushback Token} (hView : s.view = xs.flatMap Prod.snd) :
    (∃ ds s', getDefinitions newstyle stale defined s = .ok ((ds, defined ++ ds), s') ∧
        List.Forall₂ Definition.Agrees (xs.map Prod.fst) ds) ↔
      ∀ x ∈ xs, ∀ p ∈ x.1.procs, p.procName.length < 100 := by
  by_cases hBad : ∃ x ∈ xs, LongDefinition x
  · have hFail := fails_getDefinitions hWell hPrints hBad stale defined
    refine iff_of_false ?_ ?_
    · rintro ⟨ds, s', hRun, -⟩
      rw [hFail s [] (by rw [hView, List.append_nil]) rfl] at hRun
      cases hRun
    · intro hShort
      obtain ⟨x, hx, p, hp, hLong⟩ := hBad
      exact absurd (hShort x hx p hp) (Nat.not_lt.mpr hLong)
  · have hReads := reads_getDefinitions hWell hPrints (fun x hx hLong => hBad ⟨x, hx, hLong⟩)
      stale defined
    refine iff_of_true ?_ ?_
    · obtain ⟨r, s', hRun, ⟨hAgrees, hDefined⟩, -⟩ :=
        hReads s [] (by rw [hView, List.append_nil]) rfl
      refine ⟨r.1, s', ?_, hAgrees⟩
      rw [hRun, ← hDefined]
    · intro x hx p hp
      by_contra hLong
      exact hBad ⟨x, hx, p, hp, Nat.not_lt.mp hLong⟩

end File

/-! ### A file -/

def nameOfLength (n : Nat) : String := String.ofList (List.replicate n 'a')

@[simp]
theorem nameOfLength_length (n : Nat) : (nameOfLength n).length = n := by
  rw [nameOfLength, String.length_ofList, List.length_replicate]

def noDeclaration : Declaration := ⟨none, "", "", .alias, ""⟩

def voidDeclaration : Declaration := ⟨none, "void", "", .alias, ""⟩

/-- A program with one procedure: `program P { version V { void name(void) = 1; } = 2; } = 3`. -/
def oneProcedure (name : String) : Definition :=
  ⟨"P", .program ⟨"3", [⟨"V", "2",
    [⟨name, "1", ⟨argnameText name "2", [voidDeclaration]⟩, 1, "void", none⟩]⟩]⟩⟩

def oneProcedureToks (name : String) : List Token :=
  [word .program, identTok "P", mark .lbrace, word .version, identTok "V", mark .lbrace,
   word .void, identTok name, mark .lparen, word .void, mark .rparen, mark .equal, identTok "1",
   mark .semicolon, mark .rbrace, mark .equal, identTok "2", mark .semicolon, mark .rbrace,
   mark .equal, identTok "3", mark .semicolon]

theorem oneProcedure_wellFormed (name : String) (newstyle : Bool) :
    (oneProcedure name).WellFormed newstyle := by
  simp [oneProcedure, Definition.WellFormed, Version.WellFormed, Proc.WellFormed]

theorem oneProcedure_prints (name : String) :
    (oneProcedure name).Prints (oneProcedureToks name) := by
  have hVoid : PrintsType none "void" [word .void] := PrintsType.word (k := .void) (by simp)
  have hProc : Proc.Prints
      ⟨name, "1", ⟨argnameText name "2", [voidDeclaration]⟩, 1, "void", none⟩
      [word .void, identTok name, mark .lparen, word .void, mark .rparen, mark .equal,
        identTok "1", mark .semicolon] :=
    ⟨_, _, hVoid, Or.inl ⟨_, rfl, ⟨rfl, rfl, rfl⟩, Or.inr rfl⟩, rfl⟩
  have hVersion : Version.Prints
      ⟨"V", "2", [⟨name, "1", ⟨argnameText name "2", [voidDeclaration]⟩, 1, "void", none⟩]⟩
      [identTok "V", mark .lbrace, word .void, identTok name, mark .lparen, word .void,
        mark .rparen, mark .equal, identTok "1", mark .semicolon, mark .rbrace, mark .equal,
        identTok "2", mark .semicolon] :=
    ⟨[(_, _)], rfl, by simpa using hProc, rfl⟩
  exact ⟨_, ⟨[(_, _)], rfl, by simpa using hVersion, rfl⟩, rfl⟩

/-- The longest name that `locase` has room for. -/
theorem getDefinitions_longestName :
    ∃ ds s', getDefinitions false noDeclaration []
        ⟨none, oneProcedureToks (nameOfLength 99)⟩ = .ok ((ds, ds), s') ∧
      List.Forall₂ Definition.Agrees [oneProcedure (nameOfLength 99)] ds := by
  have hWell : ∀ x ∈ [(oneProcedure (nameOfLength 99), oneProcedureToks (nameOfLength 99))],
      x.1.WellFormed false := by
    simpa using oneProcedure_wellFormed _ false
  exact (getDefinitions_printed_iff hWell (by simpa using oneProcedure_prints _)
    noDeclaration [] (by simp [Pushback.view])).mpr (by simp [oneProcedure, Definition.procs])

/-- A name of a hundred characters, which the parser's own buffer has room for. -/
theorem not_getDefinitions_longName :
    ∃ name : String, name.length = 100 ∧ (oneProcedure name).WellFormed false ∧
      (oneProcedure name).Prints (oneProcedureToks name) ∧
      ¬ ∃ ds s', getDefinitions false noDeclaration [] ⟨none, oneProcedureToks name⟩ =
        .ok ((ds, ds), s') := by
  refine ⟨nameOfLength 100, by simp, oneProcedure_wellFormed _ false,
    oneProcedure_prints _, ?_⟩
  rintro ⟨ds, s', hRun⟩
  have hWell : ∀ x ∈ [(oneProcedure (nameOfLength 100), oneProcedureToks (nameOfLength 100))],
      x.1.WellFormed false := by
    simpa using oneProcedure_wellFormed _ false
  have hFail := fails_getDefinitions hWell (by simpa using oneProcedure_prints _)
    ⟨_, List.mem_singleton_self _, by simp [LongDefinition, oneProcedure, Definition.procs]⟩
    noDeclaration []
  rw [hFail _ [] (by simp [Pushback.view]) rfl] at hRun
  cases hRun

end OncRpc.Rpcgen
