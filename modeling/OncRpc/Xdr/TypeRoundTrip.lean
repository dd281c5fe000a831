import OncRpc.Xdr.TypeLanguage

/-! Round trips for the whole type language. Encoding, decoding and the length
of the encoding are each one induction on the type expression, an arm of a union
being reached through the search for its discriminant. -/
namespace OncRpc

open XdrMem ByteStream

section Viewed

variable {σ : Type} [XdrOps σ] [XdrWriter σ] {α : Type} {view : Obj → Option α} {make : α → Obj} {bs : List UInt8}

theorem puts_viewed {proc : XdrProc σ α} {o : Obj} {a a' : α} (hView : view o = some a)
    (h : Puts (proc .encode a) a' bs) :
    ∃ o', Puts (viewed view make proc .encode o) o' bs := by
  refine ⟨make a', ?_⟩
  unfold viewed
  rw [hView]
  exact h.bind_pure rfl

theorem takes_viewed {proc : XdrProc ByteStream α} {o : Obj} {a a' : α}
    (hView : view o = some a) (h : Takes (proc .decode a) a' bs) :
    Takes (viewed view make proc .decode o) (make a') bs := by
  unfold viewed
  rw [hView]
  exact h.bind_pure rfl

theorem decodes_viewed {σ : Type} {R : σ → List UInt8 → Prop} {proc : XdrProc σ α}
    {proc' : XdrProc ByteStream α} (h : DecodesAs R proc proc') :
    DecodesAs R (viewed view make proc) (viewed view make proc') := by
  intro o
  unfold viewed
  cases view o with
  | none => exact Fallible.Refines.fail
  | some a => exact (h a).bind fun b => Fallible.Refines.pure _

end Viewed

theorem length_flatMap_mod {α : Type} {f : α → List UInt8} {vs : List α}
    (h : ∀ v ∈ vs, (f v).length % 4 = 0) : (vs.flatMap f).length % 4 = 0 := by
  induction vs with
  | nil => rfl
  | cons v vs ih =>
      have hHead := h v List.mem_cons_self
      have hRest := ih fun w hw => h w (List.mem_cons_of_mem v hw)
      rw [List.flatMap_cons, List.length_append]
      omega

mutual
theorem XdrType.length_rfc4506_mod (t : XdrType) (v : Value) (hFits : t.Fits v) :
    (t.rfc4506 v).length % 4 = 0 := by
  cases t with
  | int | uInt | enum | bool =>
      cases v with
      | word v => simp [XdrType.rfc4506]
      | _ => exact hFits.elim
  | short | uShort =>
      cases v with
      | half v => simp [XdrType.rfc4506]
      | _ => exact hFits.elim
  | char =>
      cases v with
      | byte v => simp [XdrType.rfc4506]
      | _ => exact hFits.elim
  | int64 | uInt64 =>
      cases v with
      | dword v => simp [XdrType.rfc4506]
      | _ => exact hFits.elim
  | opaqueData cnt =>
      cases v with
      | bytes bs => exact length_padded_mod bs
      | _ => exact hFits.elim
  | bytes maxsize | string maxsize =>
      cases v with
      | bytes bs =>
          have hPad := length_padded_mod bs
          simp only [XdrType.rfc4506, List.length_append, Word.length_toBytes]
          omega
      | _ => exact hFits.elim
  | array maxsize elsize elem =>
      cases v with
      | list vs =>
          have hElems := length_flatMap_mod fun w hw =>
            elem.length_rfc4506_mod w (hFits.2.2.2 w hw)
          simp only [XdrType.rfc4506, List.length_append, Word.length_toBytes]
          omega
      | _ => exact hFits.elim
  | vector nelem elem =>
      cases v with
      | list vs => exact length_flatMap_mod fun w hw => elem.length_rfc4506_mod w (hFits.2 w hw)
      | _ => exact hFits.elim
  | union choices =>
      cases v with
      | union dscm v =>
          have hArm := choices.length_rfc4506_mod dscm v hFits
          simp only [XdrType.rfc4506, List.length_append, Word.length_toBytes]
          omega
      | _ => exact hFits.elim
  | reference target =>
      rw [XdrType.rfc4506]
      rw [XdrType.Fits] at hFits
      exact target.length_rfc4506_mod v hFits
  | pointer target =>
      cases v with
      | absent => simp [XdrType.rfc4506]
      | present v =>
          have hTarget := target.length_rfc4506_mod v hFits
          simp only [XdrType.rfc4506, List.length_append, Word.length_toBytes]
          omega
      | _ => exact hFits.elim

theorem XdrDiscrim.length_rfc4506_mod (choices : XdrDiscrim) (dscm : BitVec 32) (v : Value)
    (hFits : choices.Fits dscm v) : (choices.rfc4506 dscm v).length % 4 = 0 := by
  cases choices with
  | null => simp [XdrDiscrim.rfc4506]
  | dfault arm => exact arm.length_rfc4506_mod v hFits
  | cons value arm rest =>
      simp only [XdrDiscrim.rfc4506]
      simp only [XdrDiscrim.Fits] at hFits
      split
      · rw [if_pos ‹_›] at hFits
        exact arm.length_rfc4506_mod v hFits
      · rw [if_neg ‹_›] at hFits
        exact rest.length_rfc4506_mod dscm v hFits
end

section Encoding

variable {σ : Type} [XdrOps σ] [XdrWriter σ]

mutual
/-- Encoding an object puts the standard's encoding of the value it holds. -/
theorem XdrType.puts_xdrproc (t : XdrType) (v : Value) (o : Obj) (hFits : t.Fits v)
    (hHolds : t.Holds v o) :
    ∃ o', Puts (t.xdrproc .encode o : Fallible σ Obj) o' (t.rfc4506 v) := by
  cases t with
  | int | uInt | enum =>
      cases v with
      | word v => exact puts_viewed hHolds (puts_xdrInteger id id v)
      | _ => exact hFits.elim
  | bool =>
      cases v with
      | word v =>
          have hBool : (if v = 0 then 0 else 1) = v := by
            rcases hFits with rfl | rfl <;> rfl
          have hPut := puts_xdrInteger (σ := σ) (fun bp => if bp = 0 then 0 else 1)
            (fun lb => if lb = 0 then 0 else 1) v
          rw [hBool] at hPut
          exact puts_viewed hHolds hPut
      | _ => exact hFits.elim
  | short =>
      cases v with
      | half v => exact puts_viewed hHolds (puts_xdrInteger _ _ v)
      | _ => exact hFits.elim
  | uShort =>
      cases v with
      | half v => exact puts_viewed hHolds (puts_xdrInteger _ _ v)
      | _ => exact hFits.elim
  | char =>
      cases v with
      | byte v => exact puts_viewed hHolds (puts_xdrChar v)
      | _ => exact hFits.elim
  | int64 | uInt64 =>
      cases v with
      | dword v => exact puts_viewed hHolds (puts_xdrInteger64 v)
      | _ => exact hFits.elim
  | opaqueData cnt =>
      cases v with
      | bytes bs =>
          have hLen : bs.length = cnt.toNat := hFits
          have hPut := puts_xdrOpaque (σ := σ) (le_of_eq hLen.symm)
          rw [List.take_of_length_le (le_of_eq hLen)] at hPut
          exact puts_viewed hHolds hPut
      | _ => exact hFits.elim
  | bytes maxsize =>
      cases v with
      | bytes bs =>
          obtain ⟨p, hView, hTake⟩ := hHolds
          have hMax : bs.length ≤ maxsize.toNat := hFits
          have hToNat : (BitVec.ofNat 32 bs.length).toNat = bs.length :=
            Nat.mod_eq_of_lt (by omega)
          have hRoom : bs.length ≤ (p.getD []).length := by
            rw [← hTake, List.length_take]
            omega
          have hPut := puts_xdrBytes (σ := σ) maxsize.toNat p (BitVec.ofNat 32 bs.length) (by omega)
            (by omega)
          rw [hToNat, hTake] at hPut
          exact puts_viewed hView hPut
      | _ => exact hFits.elim
  | string maxsize =>
      cases v with
      | bytes bs =>
          obtain ⟨sp, hView, hBytes, -⟩ := hHolds
          have hLen : strlen sp = bs.length := by rw [strlen, hBytes]
          have hPut := puts_xdrString (σ := σ) maxsize.toNat sp
            (by rw [hLen]; exact hFits.1) (by have := hFits.1; omega)
          rw [hLen, hBytes] at hPut
          exact puts_viewed hView hPut
      | _ => exact hFits.elim
  | array maxsize elsize elem =>
      cases v with
      | list vs =>
          obtain ⟨p, hView, hElems⟩ := hHolds
          obtain ⟨hMax, hPos, hSize, hAll⟩ := hFits
          have hToNat : (BitVec.ofNat 32 vs.length).toNat = vs.length :=
            Nat.mod_eq_of_lt (by omega)
          have hEach : List.Forall₂ (fun w a => ∃ a', Puts (elem.xdrproc .encode a : Fallible σ Obj) a'
              (elem.rfc4506 w)) vs (p.getD []) := by
            refine ((List.forall₂_and_left vs _).mpr ⟨hAll, hElems⟩).imp ?_
            rintro w a ⟨hw, hHold⟩
            exact elem.puts_xdrproc w a hw hHold
          obtain ⟨target', hPut⟩ := puts_xdrElements hEach
          have hCount : vs.length ≤ uintMax / elsize.toNat :=
            (Nat.le_div_iff_mul_le hPos).mpr hSize
          rw [← hToNat] at hMax hCount hPut
          exact puts_viewed hView (puts_xdrArray hMax hCount hPut)
      | _ => exact hFits.elim
  | vector nelem elem =>
      cases v with
      | list vs =>
          obtain ⟨os, hView, hElems⟩ := hHolds
          obtain ⟨hLen, hAll⟩ := hFits
          have hEach : List.Forall₂ (fun w a => ∃ a', Puts (elem.xdrproc .encode a : Fallible σ Obj) a'
              (elem.rfc4506 w)) vs os := by
            refine ((List.forall₂_and_left vs _).mpr ⟨hAll, hElems⟩).imp ?_
            rintro w a ⟨hw, hHold⟩
            exact elem.puts_xdrproc w a hw hHold
          obtain ⟨target', hPut⟩ := puts_xdrElements hEach
          rw [hLen] at hPut
          exact puts_viewed hView hPut
      | _ => exact hFits.elim
  | union choices =>
      cases v with
      | union dscm v =>
          obtain ⟨arm, hView, hHold⟩ := hHolds
          obtain ⟨proc, o', hArm, hPut⟩ := choices.puts_unionArm dscm v arm hFits hHold
          exact puts_viewed hView (puts_xdrUnion hArm hPut)
      | _ => exact hFits.elim
  | reference target =>
      rw [XdrType.Fits] at hFits
      rw [XdrType.Holds] at hHolds
      rw [XdrType.rfc4506]
      obtain ⟨loc, hView, hHold⟩ := hHolds
      obtain ⟨loc', hPut⟩ := target.puts_xdrproc v loc hFits hHold
      exact puts_viewed hView (puts_xdrReference _ hPut)
  | pointer target =>
      cases v with
      | absent => exact puts_viewed hHolds puts_xdrPointer_null
      | present v =>
          obtain ⟨loc, hView, hHold⟩ := hHolds
          obtain ⟨loc', hPut⟩ := target.puts_xdrproc v loc hFits hHold
          exact puts_viewed hView (puts_xdrPointer hPut)
      | _ => exact hFits.elim

/-- The search finds the arm of the discriminant, and the arm puts its value. -/
theorem XdrDiscrim.puts_unionArm (choices : XdrDiscrim) (dscm : BitVec 32) (v : Value)
    (o : Obj) (hFits : choices.Fits dscm v) (hHolds : choices.Holds dscm v o) :
    ∃ (proc : XdrProc σ Obj) (o' : Obj),
      unionArm choices.choices choices.dfaultProc dscm = some proc ∧
      Puts (proc .encode o) o' (choices.rfc4506 dscm v) := by
  cases choices with
  | null => exact hFits.elim
  | dfault arm =>
      obtain ⟨o', hPut⟩ := arm.puts_xdrproc v o hFits hHolds
      exact ⟨arm.xdrproc, o', rfl, hPut⟩
  | cons value arm rest =>
      simp only [XdrDiscrim.rfc4506, XdrDiscrim.choices, XdrDiscrim.dfaultProc, unionArm_cons]
      simp only [XdrDiscrim.Fits] at hFits
      simp only [XdrDiscrim.Holds] at hHolds
      by_cases hValue : value = dscm
      · simp only [if_pos hValue] at hFits hHolds ⊢
        obtain ⟨o', hPut⟩ := arm.puts_xdrproc v o hFits hHolds
        exact ⟨arm.xdrproc, o', rfl, hPut⟩
      · simp only [if_neg hValue] at hFits hHolds ⊢
        exact rest.puts_unionArm dscm v o hFits hHolds
end

end Encoding

mutual
/-- Decoding the standard's encoding into zeroed memory takes exactly its bytes
and leaves an object that holds the value. -/
theorem XdrType.takes_xdrproc (t : XdrType) (v : Value) (hFits : t.Fits v) :
    ∃ o, Takes (t.xdrproc .decode .zeroed) o (t.rfc4506 v) ∧ t.Holds v o := by
  cases t with
  | int | uInt | enum =>
      cases v with
      | word v => exact ⟨_, takes_viewed rfl (takes_xdrInteger id id 0 v), rfl⟩
      | _ => exact hFits.elim
  | bool =>
      cases v with
      | word v =>
          have hBool : (if v = 0 then 0 else 1) = v := by
            rcases hFits with rfl | rfl <;> rfl
          have hTake := takes_xdrInteger (fun bp => if bp = 0 then 0 else 1)
            (fun lb => if lb = 0 then 0 else 1) (0 : BitVec 32) v
          rw [hBool] at hTake
          exact ⟨_, takes_viewed rfl hTake, rfl⟩
      | _ => exact hFits.elim
  | short =>
      cases v with
      | half v => exact ⟨_, takes_viewed rfl (takes_xdrShort 0 v), rfl⟩
      | _ => exact hFits.elim
  | uShort =>
      cases v with
      | half v => exact ⟨_, takes_viewed rfl (takes_xdrUShort 0 v), rfl⟩
      | _ => exact hFits.elim
  | char =>
      cases v with
      | byte v => exact ⟨_, takes_viewed rfl (takes_xdrChar 0 v), rfl⟩
      | _ => exact hFits.elim
  | int64 | uInt64 =>
      cases v with
      | dword v => exact ⟨_, takes_viewed rfl (takes_xdrInteger64 0 v), rfl⟩
      | _ => exact hFits.elim
  | opaqueData cnt =>
      cases v with
      | bytes bs =>
          have hLen : bs.length = cnt.toNat := hFits
          have hTake := takes_xdrOpaque (List.replicate cnt.toNat 0) bs
          rw [← hLen, ← memAlloc, writeAt_memAlloc, hLen] at hTake
          exact ⟨_, takes_viewed rfl hTake, rfl⟩
      | _ => exact hFits.elim
  | bytes maxsize =>
      cases v with
      | bytes bs =>
          have hMax : bs.length ≤ maxsize.toNat := hFits
          have hTake := takes_xdrBytes maxsize.toNat 0 hMax (by omega)
          refine ⟨_, takes_viewed rfl hTake, _, Obj.asBytes_ofBytes _, ?_⟩
          by_cases hNil : bs = []
          · simp [hNil]
          · simp [hNil]
      | _ => exact hFits.elim
  | string maxsize =>
      cases v with
      | bytes bs =>
          obtain ⟨hMax, hSize, hNul⟩ := hFits
          have hTake := takes_xdrString hMax (by omega)
          exact ⟨_, takes_viewed rfl hTake, _, Obj.asCharPtr_ofCharPtr _,
            cString_append_nul hNul, by simp⟩
      | _ => exact hFits.elim
  | array maxsize elsize elem =>
      cases v with
      | list vs =>
          obtain ⟨hMax, hPos, hSize, hAll⟩ := hFits
          obtain ⟨target, hTake, hElems⟩ := takes_xdrElements elem.xdrproc .zeroed elem.Holds
            fun w hw => elem.takes_xdrproc w (hAll w hw)
          have hArray := takes_xdrArray maxsize.toNat elsize.toNat 0 hMax
            ((Nat.le_div_iff_mul_le hPos).mpr hSize) (by omega) hTake
          refine ⟨_, takes_viewed rfl hArray, _, Obj.asArray_ofArray _, ?_⟩
          cases vs with
          | nil => exact .nil
          | cons w vs => exact hElems
      | _ => exact hFits.elim
  | vector nelem elem =>
      cases v with
      | list vs =>
          obtain ⟨hLen, hAll⟩ := hFits
          obtain ⟨target, hTake, hElems⟩ := takes_xdrElements elem.xdrproc .zeroed elem.Holds
            fun w hw => elem.takes_xdrproc w (hAll w hw)
          rw [hLen] at hTake
          exact ⟨_, takes_viewed rfl hTake, _, rfl, hElems⟩
      | _ => exact hFits.elim
  | union choices =>
      cases v with
      | union dscm v =>
          obtain ⟨proc, o, hArm, hTake, hHold⟩ := choices.takes_unionArm dscm v hFits
          exact ⟨_, takes_viewed rfl (takes_xdrUnion 0 hArm hTake), _, rfl, hHold⟩
      | _ => exact hFits.elim
  | reference target =>
      rw [XdrType.Fits] at hFits
      obtain ⟨loc, hTake, hHold⟩ := target.takes_xdrproc v hFits
      refine ⟨Obj.ofPtr (some loc), ?_, ?_⟩
      · rw [XdrType.rfc4506]
        exact takes_viewed rfl (takes_xdrReference hTake)
      · rw [XdrType.Holds]
        exact ⟨loc, rfl, hHold⟩
  | pointer target =>
      cases v with
      | absent => exact ⟨_, takes_viewed rfl takes_xdrPointer_null, rfl⟩
      | present v =>
          obtain ⟨loc, hTake, hHold⟩ := target.takes_xdrproc v hFits
          exact ⟨_, takes_viewed rfl (takes_xdrPointer hTake), loc, rfl, hHold⟩
      | _ => exact hFits.elim

theorem XdrDiscrim.takes_unionArm (choices : XdrDiscrim) (dscm : BitVec 32) (v : Value)
    (hFits : choices.Fits dscm v) :
    ∃ proc o, unionArm choices.choices choices.dfaultProc dscm = some proc ∧
      Takes (proc .decode .zeroed) o (choices.rfc4506 dscm v) ∧ choices.Holds dscm v o := by
  cases choices with
  | null => exact hFits.elim
  | dfault arm =>
      obtain ⟨o, hTake, hHold⟩ := arm.takes_xdrproc v hFits
      exact ⟨arm.xdrproc, o, rfl, hTake, hHold⟩
  | cons value arm rest =>
      simp only [XdrDiscrim.rfc4506, XdrDiscrim.choices, XdrDiscrim.dfaultProc,
        XdrDiscrim.Holds, unionArm_cons]
      simp only [XdrDiscrim.Fits] at hFits
      by_cases hValue : value = dscm
      · simp only [if_pos hValue] at hFits ⊢
        obtain ⟨o, hTake, hHold⟩ := arm.takes_xdrproc v hFits
        exact ⟨arm.xdrproc, o, rfl, hTake, hHold⟩
      · simp only [if_neg hValue] at hFits ⊢
        exact rest.takes_unionArm dscm v hFits
end

section Decoding

variable {σ : Type} [XdrOps σ] {R : σ → List UInt8 → Prop}

mutual
/-- Every type decodes from a lawful reader as it does from the bytes. -/
theorem XdrType.decodes_xdrproc (h : LawfulReader R) (t : XdrType) :
    DecodesAs R t.xdrproc t.xdrproc := by
  cases t with
  | int | uInt | short | uShort | bool | enum =>
      exact decodes_viewed (decodes_xdrInteger h _ _)
  | char => exact decodes_viewed (decodes_xdrChar h)
  | int64 | uInt64 => exact decodes_viewed (decodes_xdrInteger64 h)
  | opaqueData cnt => exact decodes_viewed fun cp => refines_xdrOpaque h cp _
  | bytes maxsize => exact decodes_viewed (decodes_xdrBytes h _)
  | string maxsize => exact decodes_viewed (decodes_xdrString h _)
  | array maxsize elsize elem =>
      exact decodes_viewed (decodes_xdrArray h _ _ _ (elem.decodes_xdrproc h))
  | vector nelem elem => exact decodes_viewed (decodes_xdrVector _ (elem.decodes_xdrproc h))
  | union choices => exact decodes_viewed (decodes_xdrUnion h (choices.decodes_unionArm h))
  | reference target => exact decodes_viewed (decodes_xdrReference _ (target.decodes_xdrproc h))
  | pointer target => exact decodes_viewed (decodes_xdrPointer h _ (target.decodes_xdrproc h))

theorem XdrDiscrim.decodes_unionArm (h : LawfulReader R) (choices : XdrDiscrim)
    (dscm : BitVec 32) :
    Option.Rel (DecodesAs R) (unionArm choices.choices choices.dfaultProc dscm)
      (unionArm choices.choices choices.dfaultProc dscm) := by
  cases choices with
  | null => exact .none
  | dfault arm => exact .some (arm.decodes_xdrproc h)
  | cons value arm rest =>
      simp only [XdrDiscrim.choices, XdrDiscrim.dfaultProc, unionArm_cons]
      split
      · exact .some (arm.decodes_xdrproc h)
      · exact rest.decodes_unionArm h dscm
end

end Decoding

/-- Encoding and decoding agree over the whole type language: on an aligned or
an unaligned block with room for it, the encoding of an object that holds a value
is the standard's, and whatever follows these bytes, decoding consumes exactly
them and yields an object that holds the value again. -/
theorem xdrproc_round_trip (t : XdrType) (v : Value) (hFits : t.Fits v) :
    (t.rfc4506 v).length % 4 = 0 ∧
    (∀ (o : Obj) (s : XdrMem), t.Holds v o → s.Within → (t.rfc4506 v).length ≤ s.handy →
      ∃ o' s', (t.xdrproc .encode o).run s = (some o', s') ∧
        s'.priv = s.priv + (t.rfc4506 v).length ∧
        Buffer.readAt s'.base s.priv (t.rfc4506 v).length = t.rfc4506 v) ∧
    (∀ (suffix : List UInt8) (s : XdrMem), s.Within → s.rest = t.rfc4506 v ++ suffix →
      ∃ o s', (t.xdrproc .decode .zeroed).run s = (some o, s') ∧
        s'.priv = s.priv + (t.rfc4506 v).length ∧ s'.rest = suffix ∧ t.Holds v o) := by
  refine ⟨t.length_rfc4506_mod v hFits, ?_, ?_⟩
  · intro o s hHolds hs hRoom
    obtain ⟨o', hPut⟩ := t.puts_xdrproc (σ := XdrMem) v o hFits hHolds
    exact ⟨o', _, hPut s ⟨hs, hRoom⟩, rfl, Puts.readAt_pos (s := s) ⟨hs, hRoom⟩⟩
  · intro suffix s hs hRest
    obtain ⟨o, hTake, hHolds⟩ := t.takes_xdrproc v hFits
    have hBefore : Before s.base (s.priv + s.handy) s (t.rfc4506 v ++ suffix) :=
      hRest ▸ before_rest hs
    obtain ⟨s', hRun, hAfter⟩ :=
      (t.decodes_xdrproc XdrMem.lawful .zeroed).run_some hBefore (hTake suffix)
    have hStart := hBefore.priv_add_length
    have hEnd := hAfter.priv_add_length
    rw [List.length_append] at hStart
    exact ⟨o, s', hRun, by omega, hAfter.rest_eq, hHolds⟩

/-- Two shorts of a bounded array, one of them negative, with a byte behind them. -/
theorem xdrproc_round_trip_shorts :
    ∃ o s', ((XdrType.array 4 2 .short).xdrproc .decode .zeroed).run
        (xdrmemCreate [0, 0, 0, 2, 0, 0, 0, 1, 0xff, 0xff, 0xff, 0xfe, 7] 13 true) =
          (some o, s') ∧
      s'.priv = 12 ∧ s'.rest = [7] ∧
      (XdrType.array 4 2 .short).Holds (.list [.half 1, .half 0xfffe]) o := by
  have hFits : (XdrType.array 4 2 .short).Fits (.list [.half 1, .half 0xfffe]) := by
    simp [XdrType.Fits, uintMax]
  have hEnc : (XdrType.array 4 2 .short).rfc4506 (.list [.half 1, .half 0xfffe]) =
      [0, 0, 0, 2, 0, 0, 0, 1, 0xff, 0xff, 0xff, 0xfe] := by
    simp only [XdrType.rfc4506]
    decide
  have h := (xdrproc_round_trip _ _ hFits).2.2 [7]
    (xdrmemCreate [0, 0, 0, 2, 0, 0, 0, 1, 0xff, 0xff, 0xff, 0xfe, 7] 13 true)
    (by decide) (by rw [hEnc]; decide)
  rwa [hEnc] at h

end OncRpc
