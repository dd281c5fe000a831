import OncRpc.Base.Trail
import OncRpc.Rpcgen.Grammar
import OncRpc.Rpcgen.Hout

/-! Where the typedefs lead that `isvectordef` and `fixtype` follow, and when they come to an
end. -/
namespace OncRpc.Rpcgen

open Trail

/-- What `type` is an alias of, as `isvectordef` looks it up. -/
def aliasTypedefed (defined : List Definition) (type : String) : Option String :=
  match defined.findSome? (typedefed type) with
  | some ty => if ty.rel = .alias then some ty.oldType else none
  | none => none

/-- What `type` is an alias of, as `fixit` looks it up. -/
def aliasFound (defined : List Definition) (type : String) : Option String :=
  match (defined.find? fun d => d.defName = type).map Definition.body with
  | some (.typedef ty) => if ty.rel = .alias then some ty.oldType else none
  | _ => none

/-- The search for what a typedef stands for comes to an end. -/
structure TypedefsResolve (defined : List Definition) : Prop where
  isvectordef : ∀ type rel, ∃ n, (isvectordefSteps defined n type rel).isSome
  fixtype : ∀ type, ∃ n, (fixitSteps defined n type type).isSome

/-- No name is an alias of an alias, and so on, of itself. -/
structure NoAliasCircle (defined : List Definition) : Prop where
  typedefed : Acyclic (aliasTypedefed defined)
  found : Acyclic (aliasFound defined)

/-! ### The loop of `isvectordef` -/

/-- One round of the loop: the type and the relation. -/
def vectorStep (defined : List Definition) : String × Relation → Option (String × Relation)
  | (type, .alias) => (defined.findSome? (typedefed type)).map fun ty => (ty.oldType, ty.rel)
  | _ => none

variable {defined : List Definition} {type orig : String} {rel : Relation} {n : Nat}

theorem isvectordefSteps_eq_none_iff :
    isvectordefSteps defined n type rel = none ↔
      climb (vectorStep defined) (n + 1) (type, rel) ≠ none := by
  induction n generalizing type rel with
  | zero =>
      cases rel with
      | «alias» =>
          rw [climb_one, isvectordefSteps, vectorStep]
          cases defined.findSome? (typedefed type) with
          | none => simp
          | some ty => simp
      | _ => simp [climb_one, isvectordefSteps, vectorStep]
  | succ n ih =>
      cases rel with
      | «alias» =>
          rw [climb, isvectordefSteps, vectorStep]
          cases defined.findSome? (typedefed type) with
          | none => simp
          | some ty => exact ih
      | _ => simp [climb, isvectordefSteps, vectorStep]

/-- A name that leads on is that of a definition. -/
theorem mem_of_vectorStep {p q : String × Relation} (h : vectorStep defined p = some q) :
    p ∈ defined.map fun d => (d.defName, Relation.alias) := by
  obtain ⟨type, rel⟩ := p
  cases rel with
  | «alias» =>
      obtain ⟨ty, hTypedef, -⟩ := Option.map_eq_some_iff.mp h
      obtain ⟨d, hMem, hName⟩ := List.exists_of_findSome?_eq_some hTypedef
      refine List.mem_map.mpr ⟨d, hMem, ?_⟩
      unfold typedefed at hName
      split at hName
      · split at hName
        · next hIs => rw [hIs.2]
        · cases hName
      · cases hName
  | _ => cases h

/-- The bound of `isvectordef` is only reached in a circle. -/
theorem isvectordef_isSome_iff :
    (isvectordef defined type rel).isSome ↔
      ∃ n, (isvectordefSteps defined n type rel).isSome := by
  refine ⟨fun h => ⟨_, h⟩, fun ⟨n, hSome⟩ => ?_⟩
  have hEnd : climb (vectorStep defined) (n + 1) (type, rel) = none := by
    by_contra hOn
    rw [isvectordefSteps_eq_none_iff.mpr hOn] at hSome
    cases hSome
  have hBound := climb_length_eq_none (fun _ _ => mem_of_vectorStep) ⟨_, hEnd⟩
  rw [List.length_map] at hBound
  rw [Option.isSome_iff_ne_none]
  exact fun hNone => isvectordefSteps_eq_none_iff.mp hNone hBound

/-- The loop is in the names only, as long as it goes on. -/
theorem climb_vectorStep_iff {t : String} :
    climb (vectorStep defined) n (type, .alias) = some (t, .alias) ↔
      climb (aliasTypedefed defined) n type = some t := by
  induction n generalizing type with
  | zero => simp [climb]
  | succ n ih =>
      rw [climb, climb, vectorStep, aliasTypedefed]
      cases defined.findSome? (typedefed type) with
      | none => simp
      | some ty =>
          simp only [Option.map_some, Option.bind_some]
          by_cases hAlias : ty.rel = .alias
          · rw [hAlias, if_pos rfl]
            exact ih
          · rw [if_neg hAlias]
            have hStop : vectorStep defined (ty.oldType, ty.rel) = none := by
              cases hRel : ty.rel with
              | «alias» => exact absurd hRel hAlias
              | _ => rfl
            cases n with
            | zero => simp [climb, hAlias]
            | succ n => simp [climb, hStop]

theorem acyclic_vectorStep_iff :
    Acyclic (vectorStep defined) ↔ Acyclic (aliasTypedefed defined) := by
  constructor
  · intro h type n hPos hCircle
    exact h (type, .alias) n hPos (climb_vectorStep_iff.mpr hCircle)
  · rintro h ⟨type, rel⟩ n hPos hCircle
    cases rel with
    | «alias» => exact h type n hPos (climb_vectorStep_iff.mp hCircle)
    | _ =>
        obtain ⟨m, rfl⟩ := Nat.exists_eq_succ_of_ne_zero (Nat.ne_of_gt hPos)
        cases hCircle

/-! ### The recursion of `fixit` -/

theorem fixitSteps_eq_none_iff :
    fixitSteps defined n type orig = none ↔ climb (aliasFound defined) (n + 1) type ≠ none := by
  induction n generalizing type with
  | zero =>
      rw [climb_one, fixitSteps, aliasFound]
      cases (defined.find? fun d => d.defName = type).map Definition.body with
      | none => simp
      | some body =>
          cases body with
          | typedef ty => cases hRel : ty.rel <;> simp [hRel]
          | _ => simp
  | succ n ih =>
      rw [climb, fixitSteps, aliasFound]
      cases (defined.find? fun d => d.defName = type).map Definition.body with
      | none => simp
      | some body =>
          cases body with
          | typedef ty =>
              cases hRel : ty.rel with
              | «alias» =>
                  dsimp only
                  rw [hRel]
                  exact ih
              | _ => simp [hRel]
          | _ => simp

theorem mem_of_aliasFound {t : String} (h : aliasFound defined type = some t) :
    type ∈ defined.map Definition.defName := by
  unfold aliasFound at h
  split at h
  · next ty hFound =>
      obtain ⟨d, hFind, -⟩ := Option.map_eq_some_iff.mp hFound
      have hName := List.find?_some hFind
      exact List.mem_map.mpr ⟨d, List.mem_of_find?_eq_some hFind, of_decide_eq_true hName⟩
  · cases h

/-- The bound of `fixtype` is only reached in a circle. -/
theorem fixtype_isSome_iff :
    (fixtype defined type).isSome ↔ ∃ n, (fixitSteps defined n type type).isSome := by
  refine ⟨fun h => ⟨_, h⟩, fun ⟨n, hSome⟩ => ?_⟩
  have hEnd : climb (aliasFound defined) (n + 1) type = none := by
    by_contra hOn
    rw [fixitSteps_eq_none_iff.mpr hOn] at hSome
    cases hSome
  have hBound := climb_length_eq_none (fun _ _ => mem_of_aliasFound) ⟨_, hEnd⟩
  rw [List.length_map] at hBound
  rw [Option.isSome_iff_ne_none]
  exact fun hNone => fixitSteps_eq_none_iff.mp hNone hBound

/-! ### When both come to an end -/

/-- The typedefs are resolved if and only if no alias leads in a circle. -/
theorem typedefsResolve_iff (defined : List Definition) :
    TypedefsResolve defined ↔ NoAliasCircle defined := by
  constructor
  · intro h
    refine ⟨acyclic_vectorStep_iff.mp (acyclic_of_ends ?_), acyclic_of_ends fun type => ?_⟩
    · rintro ⟨type, rel⟩
      obtain ⟨n, hSome⟩ := h.isvectordef type rel
      refine ⟨n + 1, not_not.mp fun hOn => ?_⟩
      rw [isvectordefSteps_eq_none_iff.mpr hOn] at hSome
      cases hSome
    · obtain ⟨n, hSome⟩ := h.fixtype type
      refine ⟨n + 1, not_not.mp fun hOn => ?_⟩
      rw [fixitSteps_eq_none_iff.mpr hOn] at hSome
      cases hSome
  · intro h
    refine ⟨fun type rel => ?_, fun type => ?_⟩
    · have hEnd := ends_of_acyclic (fun _ _ => mem_of_vectorStep)
        (acyclic_vectorStep_iff.mpr h.typedefed) (type, rel)
      rw [List.length_map] at hEnd
      refine ⟨defined.length, Option.isSome_iff_ne_none.mpr fun hNone => ?_⟩
      exact isvectordefSteps_eq_none_iff.mp hNone hEnd
    · have hEnd := ends_of_acyclic (fun _ _ => mem_of_aliasFound) h.found type
      rw [List.length_map] at hEnd
      refine ⟨defined.length, Option.isSome_iff_ne_none.mpr fun hNone => ?_⟩
      exact fixitSteps_eq_none_iff.mp hNone hEnd

/-- `typedef foo foo;` is accepted, and then neither search ends, nor does the one for the
declaration of its routine. -/
theorem not_typedefsResolve :
    ∃ defined s, Parser.getDefinitions false ⟨none, "", "", .alias, ""⟩ []
        ⟨none, [word .typedef, identTok "foo", identTok "foo", mark .semicolon]⟩ =
          .ok ((defined, defined), s) ∧
      (∀ n, isvectordefSteps defined n "foo" .alias = none) ∧
      (∀ n, fixitSteps defined n "foo" "foo" = none) ∧ ¬ TypedefsResolve defined ∧
      ∃ d ∈ defined, funcPointerp defined d = none := by
  let d : Definition := ⟨"foo", .typedef ⟨none, "foo", .alias, ""⟩⟩
  have hVector : ∀ n, isvectordefSteps [d] n "foo" .alias = none := by
    intro n
    induction n with
    | zero => rfl
    | succ n ih => exact ih
  have hFix : ∀ n, fixitSteps [d] n "foo" "foo" = none := by
    intro n
    induction n with
    | zero => rfl
    | succ n ih => exact ih
  refine ⟨[d], _, by rfl, hVector, hFix, fun h => ?_, d, List.mem_singleton_self d, by rfl⟩
  obtain ⟨n, hSome⟩ := h.fixtype "foo"
  rw [hFix n] at hSome
  cases hSome

end OncRpc.Rpcgen
