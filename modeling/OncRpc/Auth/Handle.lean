import Mathlib.Data.List.Induction
import OncRpc.Auth.Unix
import OncRpc.Rpc.ReplyMsg

/-! `auth_unix.c`: the handle of a client with the credentials of Unix. Its credential and
verifier are kept as the bytes that go into every call. -/
namespace OncRpc

open XdrOps Fallible

/-- `AUTH_UNIX` and `AUTH_SHORT`. -/
def authUnix : BitVec 32 := 1
def authShort : BitVec 32 := 2

/-- `ah_cred` is a copy of one of the two credentials of the handle, and shares its body. -/
inductive AhCred where
  | orig
  | short
  deriving DecidableEq, Repr

/-- An `AUTH` with its `struct audata`. -/
structure AuthUnix where
  ahCred : AhCred
  ahVerf : OpaqueAuth
  auOrigcred : OpaqueAuth
  auShcred : OpaqueAuth
  auShfaults : BitVec 32
  auMarshed : List UInt8
  auMpos : Nat
  deriving DecidableEq, Repr

namespace AuthUnix

/-- `ah_cred`. -/
def cred (auth : AuthUnix) : OpaqueAuth :=
  match auth.ahCred with
  | .orig => auth.auOrigcred
  | .short => auth.auShcred

/-- `marshal_new_auth`. When the credential does not fit, `au_mpos` is left as it was. -/
def marshalNewAuth (auth : AuthUnix) : AuthUnix :=
  let xdrs := XdrMem.xdrmemCreate auth.auMarshed maxAuthBytes true
  let marshal : Fallible XdrMem Unit := do
    let _ ← xdrOpaqueAuth .encode auth.cred
    let _ ← xdrOpaqueAuth .encode auth.ahVerf
    pure ()
  match marshal.run xdrs with
  | (some _, xdrs) => { auth with auMarshed := xdrs.base, auMpos := xdrs.xdrmemGetpos }
  | (none, xdrs) => { auth with auMarshed := xdrs.base }

/-- `authunix_create`, at the time `now`. `mymem` is what is on the stack, and `none` is
`abort`. -/
def authunixCreate (now : BitVec 32) (mymem machname : List UInt8) (uid gid len : BitVec 32)
    (aupGids : List (BitVec 32)) : Option AuthUnix :=
  let aup : AuthunixParms := {
    aupTime := now
    aupMachname := some machname
    aupUid := uid
    aupGid := gid
    aupLen := len
    aupGids := some aupGids }
  match (xdrAuthunixParms .encode aup).run (XdrMem.xdrmemCreate mymem maxAuthBytes true) with
  | (none, _) => none
  | (some _, xdrs) =>
      some (marshalNewAuth {
        ahCred := .orig
        ahVerf := nullAuth
        auOrigcred := {
          oaFlavor := authUnix
          oaBase := some (xdrs.base.take xdrs.xdrmemGetpos)
          oaLength := BitVec.ofNat 32 xdrs.xdrmemGetpos }
        auShcred := nullAuth
        auShfaults := 0
        auMarshed := memAlloc maxAuthBytes
        auMpos := 0 })

/-- The shorthand that `authunix_validate` decodes from a verifier. -/
def shorthand (shcred verf : OpaqueAuth) : Option OpaqueAuth :=
  ((xdrOpaqueAuth .decode { shcred with oaBase := none }).run
    (XdrMem.xdrmemCreate (verf.oaBase.getD []) verf.oaLength.toNat true)).1

/-- `authunix_validate`. The old shorthand is released in any case. -/
def authunixValidate (verf : OpaqueAuth) (auth : AuthUnix) : Bool × AuthUnix :=
  if verf.oaFlavor = authShort then
    match shorthand auth.auShcred verf with
    | some shcred => (true, marshalNewAuth { auth with auShcred := shcred, ahCred := .short })
    | none =>
        (true, marshalNewAuth {
          auth with auShcred := { auth.auShcred with oaBase := none }, ahCred := .orig })
  else (true, auth)

/-- `authunix_refresh`, at the time `now`. -/
def authunixRefresh (now : BitVec 32) (auth : AuthUnix) : Bool × AuthUnix :=
  match auth.ahCred with
  | .orig => (false, auth)
  | .short =>
      let auth := { auth with auShfaults := auth.auShfaults + 1 }
      let xdrs := XdrMem.xdrmemCreate (auth.auOrigcred.oaBase.getD [])
        auth.auOrigcred.oaLength.toNat true
      match (xdrAuthunixParms .decode .fresh).run xdrs with
      | (none, _) => (false, auth)
      | (some aup, xdrs) =>
          let xdrs := ((XdrMem.xdrmemSetpos 0).run xdrs).2
          match (xdrAuthunixParms .encode { aup with aupTime := now }).run xdrs with
          | (none, xdrs) =>
              (false, { auth with auOrigcred := { auth.auOrigcred with oaBase := some xdrs.base } })
          | (some _, xdrs) =>
              (true, marshalNewAuth {
                auth with
                auOrigcred := { auth.auOrigcred with oaBase := some xdrs.base }
                ahCred := .orig })

end AuthUnix

/-! ### The bytes of a credential -/

namespace UnixCred

/-- The credential as it is put. -/
def bytes (c : UnixCred) : List UInt8 :=
  Word.toBytes c.time ++ ((Word.toBytes (BitVec.ofNat 32 c.machname.length) ++
    padded c.machname) ++ (Word.toBytes c.uid ++ (Word.toBytes c.gid ++
      (Word.toBytes (BitVec.ofNat 32 c.gids.length) ++ c.gids.flatMap Word.toBytes))))

/-- The name has no null in it, and neither it nor the groups are too many. -/
structure Valid (c : UnixCred) : Prop where
  machname_nul : 0 ∉ c.machname
  machname_length : c.machname.length ≤ maxMachineName
  gids_length : c.gids.length ≤ ngrps

/-- The longest credential has 340 bytes. -/
theorem length_bytes (c : UnixCred) :
    c.bytes.length = 20 + rndup c.machname.length + 4 * c.gids.length := by
  simp only [bytes, List.length_append, Word.length_toBytes, length_padded,
    length_flatMap_toBytes]
  omega

theorem rndup_le {n m : Nat} (h : n ≤ 4 * m) : rndup n ≤ 4 * m := by
  unfold rndup bytesPerXdrUnit
  omega

theorem Valid.length_le {c : UnixCred} (h : c.Valid) : c.bytes.length ≤ 340 := by
  have hName := rndup_le (m := 64) (Nat.le_trans h.machname_length (by decide))
  have hGids := h.gids_length
  rw [length_bytes]
  unfold ngrps at hGids
  omega

end UnixCred

section Encode

variable {p : AuthunixParms}

/-- Parameters that `xdr_authunix_parms` encodes. -/
structure AuthunixParms.Sendable (p : AuthunixParms) : Prop where
  machname : ∃ sp, p.aupMachname = some sp ∧ strlen sp ≤ maxMachineName
  len : p.aupLen.toNat ≤ ngrps
  gids : p.aupLen.toNat ≤ (p.aupGids.getD []).length

theorem emits_gids {σ : Type} [XdrOps σ] [XdrSink σ] {n : Nat} {target : List (BitVec 32)}
    (h : n ≤ target.length) :
    Emits (xdrElements .encode xdrInt n target : Fallible σ _) target
      ((target.take n).flatMap Word.toBytes) := by
  induction n generalizing target with
  | zero => exact Emits.pure target
  | succ n ih =>
      cases target with
      | nil => exact absurd h (Nat.not_succ_le_zero n)
      | cons gid target =>
          apply (emits_xdrInteger id id gid).bind
          exact (ih (Nat.le_of_succ_le_succ h)).bind_pure rfl

theorem emits_xdrAuthunixParms {σ : Type} [XdrOps σ] [XdrSink σ] (h : p.Sendable) :
    Emits (xdrAuthunixParms .encode p : Fallible σ _) p p.cred.bytes := by
  obtain ⟨sp, hName, hLen⟩ := h.machname
  have hText : cString (p.aupMachname.getD []) = cString sp := by rw [hName, Option.getD_some]
  have hSize : strlen sp < 2 ^ 32 := Nat.lt_of_le_of_lt hLen (by decide)
  have hGids : (p.cred.gids).length = p.aupLen.toNat := by
    rw [AuthunixParms.cred, List.length_take, Nat.min_eq_left h.gids]
  have hWord : BitVec.ofNat 32 p.cred.gids.length = p.aupLen := by
    rw [hGids, BitVec.ofNat_toNat, BitVec.setWidth_eq]
  have hGuard : ¬ ((p.aupLen.toNat > ngrps ∨ uintMax / 4 < p.aupLen.toNat) ∧
      XdrOp.encode ≠ .free) := by
    have hMax := h.len
    unfold ngrps uintMax at *
    omega
  have hString : Emits (xdrString maxMachineName .encode p.aupMachname : Fallible σ _)
      p.aupMachname (Word.toBytes (BitVec.ofNat 32 p.cred.machname.length) ++
        padded p.cred.machname) := by
    have hRun := @emits_xdrString σ _ _ maxMachineName sp hLen hSize
    rw [← hName] at hRun
    rw [show p.cred.machname = cString sp from hText]
    exact hRun
  unfold UnixCred.bytes
  rw [hWord]
  apply (emits_xdrInteger id id p.aupTime).bind
  apply hString.bind
  apply (emits_xdrInteger id id p.aupUid).bind
  apply (emits_xdrInteger id id p.aupGid).bind
  refine Emits.bind_pure (a := (p.aupGids, p.aupLen)) ?_ rfl
  apply (emits_xdrInteger id id p.aupLen).bind
  apply Emits.require hGuard
  exact (emits_gids h.gids).bind_pure rfl

end Encode

section Decode

open ByteStream

variable {c : UnixCred}

theorem takes_gids (gids : List (BitVec 32)) :
    Takes (xdrElements .decode xdrInt gids.length (List.replicate gids.length 0)) gids
      (gids.flatMap Word.toBytes) := by
  have hEach : ∀ gid ∈ gids, ∃ gid', Takes (xdrInt .decode 0) gid' (Word.toBytes gid) ∧
      gid = gid' := fun gid _ => ⟨gid, takes_xdrInteger id id 0 gid, rfl⟩
  obtain ⟨target, hTakes, hSame⟩ := takes_xdrElements xdrInt 0 Eq hEach
  rw [List.forall₂_eq_eq_eq] at hSame
  subst hSame
  exact hTakes

/-- What is encoded is decoded again. -/
theorem takes_xdrAuthunixParms (h : c.Valid) :
    ∃ q : AuthunixParms, Takes (xdrAuthunixParms .decode .fresh) q c.bytes ∧ q.cred = c ∧
      q.Sendable := by
  have hName := h.machname_length
  have hGids := h.gids_length
  have hWord : (BitVec.ofNat 32 c.gids.length).toNat = c.gids.length := by
    rw [BitVec.toNat_ofNat]
    exact Nat.mod_eq_of_lt (by unfold ngrps at hGids; omega)
  have hString := takes_xdrString hName (by unfold maxMachineName uintMax at *; omega)
  have hArray := takes_xdrArray ngrps 4 0 hGids
    (by unfold ngrps uintMax at *; omega) (by unfold ngrps at *; omega) (takes_gids c.gids)
  refine ⟨{
    aupTime := c.time
    aupMachname := some (c.machname ++ [0])
    aupUid := c.uid
    aupGid := c.gid
    aupLen := BitVec.ofNat 32 c.gids.length
    aupGids := if c.gids.length = 0 then none else some c.gids }, ?_, ?_, ?_, ?_, ?_⟩
  · unfold UnixCred.bytes
    apply (takes_xdrInteger id id 0 c.time).bind
    apply hString.bind
    apply (takes_xdrInteger id id 0 c.uid).bind
    apply (takes_xdrInteger id id 0 c.gid).bind
    exact hArray.bind_pure rfl
  · have hTake : ((if c.gids.length = 0 then none else some c.gids).getD []).take
        c.gids.length = c.gids := by
      split
      · next hZero =>
          rw [List.eq_nil_of_length_eq_zero hZero]
          rfl
      · rw [Option.getD_some, List.take_length]
    simp only [AuthunixParms.cred, Option.getD_some, cString_append_nul h.machname_nul, hWord,
      hTake]
  · refine ⟨_, rfl, ?_⟩
    rw [strlen, cString_append_nul h.machname_nul]
    exact hName
  · rw [hWord]
    exact hGids
  · rw [hWord]
    split
    · next hZero =>
        rw [hZero]
        exact Nat.zero_le _
    · exact Nat.le_refl _

theorem credAt_bytes (h : c.Valid) (beyond : List UInt8) :
    credAt (c.bytes ++ beyond) c.bytes.length = some c := by
  obtain ⟨q, hTakes, hCred, -⟩ := takes_xdrAuthunixParms h
  have hRun := hTakes []
  rw [List.append_nil] at hRun
  have hAll := run_xdrAuthunixParms AuthunixParms.ready_fresh c.bytes
  rw [hRun] at hAll
  rw [← credAt_take, List.take_left, ← hAll, ← hCred]
  rfl

end Decode

/-! ### Marshalling -/

namespace AuthUnix

variable {auth : AuthUnix}

/-- The bytes of the credential and the verifier. -/
def header (auth : AuthUnix) : List UInt8 := auth.cred.bytes ++ auth.ahVerf.bytes

/-- `au_marshed`, up to `au_mpos`, is the credential and the verifier. -/
def Consistent (auth : AuthUnix) : Prop :=
  auth.auMpos ≤ auth.auMarshed.length ∧ auth.auMarshed.take auth.auMpos = auth.header

instance (auth : AuthUnix) : Decidable auth.Consistent := inferInstanceAs (Decidable (_ ∧ _))

/-- The marshalling leaves all but the bytes, and the bytes are those of the credential and the
verifier exactly when these fit. -/
theorem marshalNewAuth_spec (hLength : auth.auMarshed.length = maxAuthBytes)
    (hCred : auth.cred.Fits) (hVerf : auth.ahVerf.Fits) :
    ∃ marshed mpos, auth.marshalNewAuth = { auth with auMarshed := marshed, auMpos := mpos } ∧
      marshed.length = maxAuthBytes ∧
      (auth.header.length ≤ maxAuthBytes →
        mpos ≤ marshed.length ∧ marshed.take mpos = auth.header) := by
  have hEmits : Emits (do
      let _ ← xdrOpaqueAuth .encode auth.cred
      let _ ← xdrOpaqueAuth .encode auth.ahVerf
      pure () : Fallible XdrMem Unit) () auth.header :=
    (emits_xdrOpaqueAuth hCred).bind ((emits_xdrOpaqueAuth hVerf).bind_pure rfl)
  have hWithin : (XdrMem.xdrmemCreate auth.auMarshed maxAuthBytes true).Within := by
    show 0 + maxAuthBytes ≤ auth.auMarshed.length
    rw [hLength, Nat.zero_add]
  have hPut : ∀ bs, bs.length ≤ maxAuthBytes →
      ((XdrMem.xdrmemCreate auth.auMarshed maxAuthBytes true).put bs).base.length =
        maxAuthBytes := by
    intro bs hLe
    show (Buffer.writeAt auth.auMarshed 0 bs).length = maxAuthBytes
    rw [Buffer.length_writeAt (by omega), hLength]
  unfold marshalNewAuth
  dsimp only
  rcases hEmits _ hWithin with ⟨-, s', hRun, hLe, -, rfl⟩ | ⟨hFull, bs, s', hRun, -, hLe, -, rfl⟩
  · have hFits : auth.header.length ≤ maxAuthBytes := hLe
    rw [hRun]
    refine ⟨_, _, rfl, hPut _ hFits, fun _ => ⟨?_, ?_⟩⟩
    · rw [hPut _ hFits]
      show 0 + auth.header.length ≤ maxAuthBytes
      omega
    · show (Buffer.writeAt auth.auMarshed 0 auth.header).take (0 + auth.header.length) =
        auth.header
      rw [Buffer.writeAt, List.take_zero, List.nil_append, Nat.zero_add, List.take_left]
  · rw [hRun]
    exact ⟨_, _, rfl, hPut _ hLe, fun hFits => absurd hFits hFull⟩

/-! ### The handle -/

theorem length_bytes_of_fits {ap : OpaqueAuth} (h : ap.Fits) :
    ap.bytes.length = 8 + rndup ap.oaLength.toNat := by
  have hBody : ((ap.oaBase.getD []).take ap.oaLength.toNat).length = ap.oaLength.toNat := by
    rw [List.length_take, Nat.min_eq_left h.within]
  simp only [OpaqueAuth.bytes, List.length_append, Word.length_toBytes, length_padded, hBody]
  omega

/-- The handle of a client with these credentials, but for the time of them. -/
structure Sound (c : UnixCred) (auth : AuthUnix) : Prop where
  valid : c.Valid
  orig_flavor : auth.auOrigcred.oaFlavor = authUnix
  orig_base : ∃ time, auth.auOrigcred.oaBase = some { c with time := time }.bytes
  orig_length : auth.auOrigcred.oaLength = BitVec.ofNat 32 c.bytes.length
  marshed : auth.auMarshed.length = maxAuthBytes
  verf : auth.ahVerf = nullAuth
  short : auth.ahCred = .short → auth.auShcred.Fits

namespace Sound

variable {c : UnixCred}

theorem toNat_orig_length (h : auth.Sound c) :
    auth.auOrigcred.oaLength.toNat = c.bytes.length := by
  have hLe := h.valid.length_le
  rw [h.orig_length, BitVec.toNat_ofNat]
  exact Nat.mod_eq_of_lt (by omega)

theorem orig_fits (h : auth.Sound c) : auth.auOrigcred.Fits := by
  have hLe := h.valid.length_le
  obtain ⟨time, hBase⟩ := h.orig_base
  constructor
  · rw [h.toNat_orig_length]
    unfold maxAuthBytes
    omega
  · rw [h.toNat_orig_length, hBase, Option.getD_some, UnixCred.length_bytes,
      UnixCred.length_bytes]

theorem cred_fits (h : auth.Sound c) : auth.cred.Fits := by
  unfold cred
  split
  · exact h.orig_fits
  · next hShort => exact h.short hShort

theorem verf_fits (h : auth.Sound c) : auth.ahVerf.Fits := by
  rw [h.verf]
  exact ⟨Nat.zero_le _, Nat.zero_le _⟩

theorem length_header (h : auth.Sound c) :
    auth.header.length = 16 + rndup auth.cred.oaLength.toNat := by
  have hVerf : auth.ahVerf.bytes.length = 8 := by
    rw [h.verf]
    rfl
  rw [header, List.length_append, length_bytes_of_fits h.cred_fits, hVerf]
  omega

/-- The credential and the verifier fit when the credential is no longer than 384 bytes. -/
theorem header_fits (h : auth.Sound c) :
    auth.header.length ≤ maxAuthBytes ↔ auth.cred.oaLength.toNat ≤ 384 := by
  rw [h.length_header]
  unfold rndup bytesPerXdrUnit maxAuthBytes
  omega

/-- What is kept is never consistent with a credential that does not fit. -/
theorem not_consistent (h : auth.Sound c) (hLong : 384 < auth.cred.oaLength.toNat) :
    ¬ auth.Consistent := by
  rintro ⟨-, hSame⟩
  have hFull : maxAuthBytes < auth.header.length :=
    Nat.not_le.mp fun hFits => Nat.not_le.mpr hLong (h.header_fits.mp hFits)
  rw [← hSame, List.length_take, h.marshed] at hFull
  omega

theorem marshalNewAuth (h : auth.Sound c) : auth.marshalNewAuth.Sound c := by
  obtain ⟨marshed, mpos, hNew, hLength, -⟩ :=
    marshalNewAuth_spec h.marshed h.cred_fits h.verf_fits
  rw [hNew]
  exact ⟨h.valid, h.orig_flavor, h.orig_base, h.orig_length, hLength, h.verf, h.short⟩

theorem consistent_marshalNewAuth (h : auth.Sound c) (hShort : auth.cred.oaLength.toNat ≤ 384) :
    auth.marshalNewAuth.Consistent := by
  obtain ⟨marshed, mpos, hNew, -, hMarshed⟩ :=
    marshalNewAuth_spec h.marshed h.cred_fits h.verf_fits
  rw [hNew]
  exact hMarshed (h.header_fits.mpr hShort)

/-- The credential that the handle was made with always fits. -/
theorem orig_short (h : auth.Sound c) : auth.auOrigcred.oaLength.toNat ≤ 384 := by
  have hLe := h.valid.length_le
  rw [h.toNat_orig_length]
  omega

end Sound

@[simp] theorem ahCred_marshalNewAuth (auth : AuthUnix) :
    auth.marshalNewAuth.ahCred = auth.ahCred ∧ auth.marshalNewAuth.auShcred = auth.auShcred ∧
      auth.marshalNewAuth.auOrigcred = auth.auOrigcred := by
  unfold marshalNewAuth
  dsimp only
  split
  · exact ⟨rfl, rfl, rfl⟩
  · exact ⟨rfl, rfl, rfl⟩

/-- Encoding over a block that is large enough. -/
theorem run_encode {p : AuthunixParms} (h : p.Sendable) {block : List UInt8} {len : Nat}
    (hLen : len ≤ block.length) (hFits : p.cred.bytes.length ≤ len) (aligned : Bool) :
    ∃ s', (xdrAuthunixParms .encode p).run (XdrMem.xdrmemCreate block len aligned) =
        (some p, s') ∧ s'.priv = p.cred.bytes.length ∧
      s'.base = p.cred.bytes ++ block.drop p.cred.bytes.length := by
  have hWithin : (XdrMem.xdrmemCreate block len aligned).Within := by
    show 0 + len ≤ block.length
    rwa [Nat.zero_add]
  have hEmits : Emits (xdrAuthunixParms .encode p : Fallible XdrMem _) p p.cred.bytes :=
    emits_xdrAuthunixParms h
  rcases hEmits _ hWithin with ⟨-, s', hRun, -, -, rfl⟩ | ⟨hFull, -⟩
  · refine ⟨_, hRun, Nat.zero_add _, ?_⟩
    show Buffer.writeAt block 0 p.cred.bytes = _
    rw [Buffer.writeAt, List.take_zero, List.nil_append, Nat.zero_add]
  · exact absurd hFits hFull

/-- What `authunix_create` is told. -/
def given (now : BitVec 32) (machname : List UInt8) (uid gid len : BitVec 32)
    (aupGids : List (BitVec 32)) : UnixCred where
  time := now
  machname := cString machname
  uid := uid
  gid := gid
  gids := aupGids.take len.toNat

/-- A handle is made of every name and groups that are not too long. -/
theorem authunixCreate_spec (now : BitVec 32) {mymem machname : List UInt8}
    (uid gid : BitVec 32) {len : BitVec 32} {aupGids : List (BitVec 32)}
    (hMem : mymem.length = maxAuthBytes) (hName : strlen machname ≤ maxMachineName)
    (hLen : len.toNat ≤ ngrps) (hGids : len.toNat ≤ aupGids.length) :
    ∃ auth, authunixCreate now mymem machname uid gid len aupGids = some auth ∧
      auth.Consistent ∧ auth.ahCred = .orig ∧
      auth.auOrigcred.oaBase = some (given now machname uid gid len aupGids).bytes ∧
      auth.Sound (given now machname uid gid len aupGids) := by
  have hSendable : AuthunixParms.Sendable {
      aupTime := now
      aupMachname := some machname
      aupUid := uid
      aupGid := gid
      aupLen := len
      aupGids := some aupGids } := ⟨⟨machname, rfl, hName⟩, hLen, hGids⟩
  have hValid : (given now machname uid gid len aupGids).Valid := by
    refine ⟨?_, hName, ?_⟩
    · intro hBad
      have hNot := List.mem_takeWhile_imp hBad
      simp at hNot
    · show (aupGids.take len.toNat).length ≤ ngrps
      rw [List.length_take]
      exact (Nat.min_le_left _ _).trans hLen
  have hBytes := hValid.length_le
  obtain ⟨s', hRun, hPriv, hBase⟩ := run_encode hSendable (Nat.le_of_eq hMem.symm)
    (hBytes.trans (by decide)) true
  have hTake : s'.base.take s'.priv = (given now machname uid gid len aupGids).bytes := by
    rw [hBase, hPriv, List.take_left]
    rfl
  have hSound : Sound (given now machname uid gid len aupGids) {
      ahCred := .orig
      ahVerf := nullAuth
      auOrigcred := {
        oaFlavor := authUnix
        oaBase := some (s'.base.take s'.priv)
        oaLength := BitVec.ofNat 32 s'.priv }
      auShcred := nullAuth
      auShfaults := 0
      auMarshed := memAlloc maxAuthBytes
      auMpos := 0 } := by
    refine ⟨hValid, rfl, ⟨now, congrArg some hTake⟩, ?_, ?_, rfl, fun hBad => (by cases hBad)⟩
    · show BitVec.ofNat 32 s'.priv = _
      rw [hPriv]
      rfl
    · show (memAlloc maxAuthBytes).length = _
      rw [memAlloc, List.length_replicate]
  have hConsistent := hSound.consistent_marshalNewAuth hSound.orig_short
  refine ⟨_, ?_, hConsistent, (ahCred_marshalNewAuth _).1, ?_, hSound.marshalNewAuth⟩
  · unfold authunixCreate
    dsimp only
    rw [hRun]
    rfl
  · rw [(ahCred_marshalNewAuth _).2.2]
    exact congrArg some hTake

/-- The filter, the parser of the server and the client agree on the credentials of Unix. -/
theorem authunix_agree :
    (∀ (area : AuthunixParms) (aligned aligned' : Bool) (body beyond : List UInt8),
      area.Ready → body.length ≤ maxAuthBytes → ∀ c : UnixCred,
      (∃ aup, svcauthUnix area aligned (body ++ beyond) (BitVec.ofNat 32 body.length) = .ok aup ∧
        aup.cred = c) ↔
      ∃ q xdrs, (xdrAuthunixParms .decode .fresh).run
          (XdrMem.xdrmemCreate body body.length aligned') = (some q, xdrs) ∧ q.cred = c ∧
        c.machname.length ≤ maxMachineName ∧ c.gids.length ≤ ngrps) ∧
    ∀ (now : BitVec 32) (mymem machname : List UInt8) (uid gid len : BitVec 32)
      (aupGids : List (BitVec 32)), mymem.length = maxAuthBytes →
      strlen machname ≤ maxMachineName → len.toNat ≤ ngrps → len.toNat ≤ aupGids.length →
      ∃ auth body, authunixCreate now mymem machname uid gid len aupGids = some auth ∧
        auth.auOrigcred =
          { oaFlavor := authUnix, oaBase := some body, oaLength := BitVec.ofNat 32 body.length } ∧
        body.length ≤ maxAuthBytes ∧
        auth.auMarshed.take auth.auMpos = auth.auOrigcred.bytes ++ nullAuth.bytes ∧
        ∀ (area : AuthunixParms) (aligned : Bool) (beyond : List UInt8), area.Ready →
          ∃ aup, svcauthUnix area aligned (body ++ beyond) (BitVec.ofNat 32 body.length) =
            .ok aup ∧ aup.cred = given now machname uid gid len aupGids := by
  have hLength : ∀ {body : List UInt8}, body.length ≤ maxAuthBytes →
      (BitVec.ofNat 32 body.length).toNat = body.length := by
    intro body hLe
    rw [BitVec.toNat_ofNat]
    exact Nat.mod_eq_of_lt (by unfold maxAuthBytes at hLe; omega)
  constructor
  · intro area aligned aligned' body beyond hArea hBody c
    have hServer := @cred_svcauthUnix area hArea aligned (body ++ beyond)
      (BitVec.ofNat 32 body.length) (by
        rw [hLength hBody, List.length_append]
        exact Nat.le_add_right _ _)
    have hFilter := xdrmem_xdrAuthunixParms AuthunixParms.ready_fresh (Nat.le_refl body.length)
      aligned'
    rw [hLength hBody, ← credAt_take, List.take_left] at hServer
    rw [SvcauthUnix.ok_iff, hServer]
    constructor
    · intro hCred
      obtain ⟨hName, hGids⟩ := credAt_bounds hCred
      rw [hCred, Option.map_eq_some_iff] at hFilter
      obtain ⟨q, hSome, rfl⟩ := hFilter
      exact ⟨q, _, Prod.ext hSome rfl, rfl, hName, hGids⟩
    · rintro ⟨q, xdrs, hRun, rfl, -⟩
      rw [← hFilter, hRun]
      rfl
  · intro now mymem machname uid gid len aupGids hMem hName hLen hGids
    obtain ⟨auth, hCreate, hConsistent, hOrig, hBase, hSound⟩ :=
      authunixCreate_spec now uid gid hMem hName hLen hGids
    have hBytes := hSound.valid.length_le
    have hBody : (given now machname uid gid len aupGids).bytes.length ≤ maxAuthBytes :=
      hBytes.trans (by decide)
    refine ⟨auth, _, hCreate, ?_, hBody, ?_, ?_⟩
    · have hFlavor := hSound.orig_flavor
      have hLen := hSound.orig_length
      generalize auth.auOrigcred = orig at *
      obtain ⟨flavor, base, length⟩ := orig
      cases hFlavor
      cases hBase
      cases hLen
      rfl
    · have hHeader := hConsistent.2
      unfold header cred at hHeader
      rw [hOrig, hSound.verf] at hHeader
      exact hHeader
    · intro area aligned beyond hArea
      rw [SvcauthUnix.ok_iff, cred_svcauthUnix hArea aligned, hLength hBody,
        credAt_bytes hSound.valid]
      rw [hLength hBody, List.length_append]
      exact Nat.le_add_right _ _

/-- The area of a request, and what the stack holds for `authunix_create`. -/
def emptyArea : AuthunixParms where
  aupTime := 0
  aupMachname := some (List.replicate (maxMachineName + 1) 0)
  aupUid := 0
  aupGid := 0
  aupLen := 0
  aupGids := some (List.replicate ngrps 0)

theorem ready_emptyArea : emptyArea.Ready where
  machname := fun s h => by
    cases h
    rw [List.length_replicate]
    exact Nat.lt_succ_self _
  gids := fun l h => by
    cases h
    rw [List.length_replicate]

def hostName : List UInt8 := CString.ascii "host" ++ [0]

theorem authunix_agree_host :
    (∃ auth body aup,
      authunixCreate 7 (List.replicate maxAuthBytes 0) hostName 1 2 1 [5] = some auth ∧
      auth.auOrigcred =
        { oaFlavor := authUnix, oaBase := some body, oaLength := BitVec.ofNat 32 body.length } ∧
      svcauthUnix emptyArea true (body ++ [1, 2, 3]) (BitVec.ofNat 32 body.length) = .ok aup ∧
      aup.cred = { time := 7, machname := CString.ascii "host", uid := 1, gid := 2, gids := [5] }) ∧
    ¬ ∃ aup, svcauthUnix emptyArea true ([] ++ [0, 0, 0]) (BitVec.ofNat 32 0) = .ok aup ∧
      aup.cred = { time := 0, machname := [], uid := 0, gid := 0, gids := [] } := by
  obtain ⟨hAgree, hCreate⟩ := authunix_agree
  constructor
  · obtain ⟨auth, body, hAuth, hOrig, -, -, hAccept⟩ :=
      hCreate 7 (List.replicate maxAuthBytes 0) hostName 1 2 1 [5] (by decide +kernel)
        (by decide) (by decide) (by decide)
    obtain ⟨aup, hOk, hCred⟩ := hAccept emptyArea true [1, 2, 3] ready_emptyArea
    refine ⟨auth, body, aup, hAuth, hOrig, hOk, hCred.trans ?_⟩
    decide
  · intro hBad
    obtain ⟨q, xdrs, hRun, -⟩ := (hAgree emptyArea true true [] [0, 0, 0] ready_emptyArea
      (Nat.zero_le _) _).mp hBad
    have hNone : ((xdrAuthunixParms .decode .fresh).run
        (XdrMem.xdrmemCreate [] 0 true)).1 = none := by decide
    rw [List.length_nil] at hRun
    rw [hRun] at hNone
    cases hNone

/-! ### The calls -/

/-- The body that `xdr_bytes` allocates is as long as it says. -/
theorem yields_xdrBytes (size : BitVec 32) :
    Yields (fun body : Option (List UInt8) × BitVec 32 =>
      body.2.toNat ≤ maxAuthBytes ∧ body.2.toNat ≤ (body.1.getD []).length)
      (xdrBytes maxAuthBytes .decode (none, size) : Fallible XdrMem _) := by
  unfold xdrBytes
  refine (Yields.any _).bind fun size _ => Yields.require fun hGuard => ?_
  have hMax : size.toNat ≤ maxAuthBytes := Nat.not_lt.mp fun hBad => hGuard ⟨hBad, by decide⟩
  have hLong : ∀ bs : List UInt8,
      size.toNat ≤ (Buffer.writeAt (memAlloc size.toNat) 0 bs).length := by
    intro bs
    simp only [Buffer.writeAt, memAlloc, List.take_zero, List.nil_append, List.length_append,
      List.length_drop, List.length_replicate]
    omega
  have hOpaque : Yields (fun bs => size.toNat ≤ bs.length)
      (xdrOpaque .decode (memAlloc size.toNat) size.toNat : Fallible XdrMem _) := by
    have hFresh : size.toNat ≤ (memAlloc size.toNat).length := by
      rw [memAlloc, List.length_replicate]
    unfold xdrOpaque
    refine Yields.ite (Yields.pure hFresh) ((Yields.any _).bind fun bs _ => ?_)
    exact Yields.ite (Yields.pure (hLong bs))
      ((Yields.any _).bind fun _ _ => Yields.pure (hLong bs))
  dsimp only
  split
  · next hZero => exact Yields.pure ⟨hMax, by rw [hZero]; exact Nat.zero_le _⟩
  · exact hOpaque.bind fun bs hLe => Yields.pure ⟨hMax, hLe⟩

/-- The body of what is decoded is in its area, and is let through. -/
theorem fits_shorthand {shcred verf sh : OpaqueAuth} (h : shorthand shcred verf = some sh) :
    sh.Fits := by
  have hYields : Yields OpaqueAuth.Fits
      (xdrOpaqueAuth .decode { shcred with oaBase := none } : Fallible XdrMem OpaqueAuth) := by
    unfold xdrOpaqueAuth
    exact (Yields.any _).bind fun flavor _ => (yields_xdrBytes _).bind fun body hLe =>
      Yields.pure ⟨hLe.1, hLe.2⟩
  unfold shorthand at h
  exact hYields _ _ _ (Prod.ext h rfl)

/-- What was in the shorthand before does not matter. -/
theorem shorthand_eq (shcred verf : OpaqueAuth) : shorthand shcred verf = shorthand nullAuth verf :=
  rfl

/-- All that `authunix_validate` can do. -/
theorem authunixValidate_cases (verf : OpaqueAuth) (auth : AuthUnix) :
    verf.oaFlavor ≠ authShort ∧ authunixValidate verf auth = (true, auth) ∨
    verf.oaFlavor = authShort ∧ (∃ sh, shorthand nullAuth verf = some sh ∧
      authunixValidate verf auth =
        (true, marshalNewAuth { auth with auShcred := sh, ahCred := .short })) ∨
    verf.oaFlavor = authShort ∧ shorthand nullAuth verf = none ∧
      authunixValidate verf auth = (true, marshalNewAuth {
        auth with auShcred := { auth.auShcred with oaBase := none }, ahCred := .orig }) := by
  unfold authunixValidate
  rw [shorthand_eq]
  by_cases hFlavor : verf.oaFlavor = authShort
  · rw [if_pos hFlavor]
    cases hSh : shorthand nullAuth verf with
    | some sh => exact Or.inr (Or.inl ⟨hFlavor, sh, rfl, rfl⟩)
    | none => exact Or.inr (Or.inr ⟨hFlavor, rfl, rfl⟩)
  · rw [if_neg hFlavor]
    exact Or.inl ⟨hFlavor, rfl⟩

/-- The original credential is decoded and put back with another time. -/
theorem run_refresh {c : UnixCred} (hValid : c.Valid) (now : BitVec 32) :
    ∃ q xdrs xdrs', (xdrAuthunixParms .decode .fresh).run
        (XdrMem.xdrmemCreate c.bytes c.bytes.length true) = (some q, xdrs) ∧
      (xdrAuthunixParms .encode { q with aupTime := now }).run
        ((XdrMem.xdrmemSetpos 0).run xdrs).2 = (some { q with aupTime := now }, xdrs') ∧
      xdrs'.base = { c with time := now }.bytes := by
  have hBefore : XdrMem.Before c.bytes c.bytes.length
      (XdrMem.xdrmemCreate c.bytes c.bytes.length true) c.bytes := by
    refine ⟨rfl, Nat.zero_add _, ?_, List.take_length⟩
    show 0 + c.bytes.length ≤ c.bytes.length
    rw [Nat.zero_add]
  obtain ⟨q, hTakes, hCred, hSendable⟩ := takes_xdrAuthunixParms hValid
  have hBytes := hTakes []
  rw [List.append_nil] at hBytes
  have hRefines := decodes_xdrAuthunixParms XdrMem.lawful .fresh _ _ hBefore
  rw [hBytes] at hRefines
  have hRun : (xdrAuthunixParms .decode .fresh).run
      (XdrMem.xdrmemCreate c.bytes c.bytes.length true) = (some q,
        ((xdrAuthunixParms .decode .fresh).run
          (XdrMem.xdrmemCreate c.bytes c.bytes.length true)).2) := Prod.ext hRefines.1 rfl
  have hAfter := hRefines.2 rfl
  generalize ((xdrAuthunixParms .decode .fresh).run
    (XdrMem.xdrmemCreate c.bytes c.bytes.length true)).2 = xdrs at *
  obtain ⟨hBase, hStop, -, -⟩ := hAfter
  have hStart : ((XdrMem.xdrmemSetpos 0).run xdrs).2 =
      XdrMem.xdrmemCreate c.bytes c.bytes.length xdrs.aligned := by
    obtain ⟨base, priv, handy, aligned⟩ := xdrs
    subst hBase
    have hSet : (XdrMem.xdrmemSetpos 0).run (XdrMem.mk c.bytes priv handy aligned) =
        (some (), XdrMem.mk c.bytes 0 (priv + handy) aligned) := by
      simp [Fallible.run, XdrMem.xdrmemSetpos]
    rw [hSet, show priv + handy = c.bytes.length from hStop]
    rfl
  have hNow : AuthunixParms.Sendable { q with aupTime := now } :=
    ⟨hSendable.machname, hSendable.len, hSendable.gids⟩
  have hText : AuthunixParms.cred { q with aupTime := now } = { c with time := now } := by
    rw [← hCred]
    rfl
  have hSame : (AuthunixParms.cred { q with aupTime := now }).bytes.length = c.bytes.length := by
    rw [hText, UnixCred.length_bytes, UnixCred.length_bytes]
  obtain ⟨xdrs', hEncode, -, hNew⟩ := run_encode hNow (Nat.le_refl c.bytes.length)
    (Nat.le_of_eq hSame) xdrs.aligned
  refine ⟨q, xdrs, xdrs', hRun, ?_, ?_⟩
  · rw [hStart]
    exact hEncode
  · rw [hNew, hSame, List.drop_length, List.append_nil, hText]

/-- All that `authunix_refresh` can do. It fails only with the original credential. -/
theorem Sound.refresh_cases {c : UnixCred} (h : auth.Sound c) (now : BitVec 32) :
    auth.ahCred = .orig ∧ authunixRefresh now auth = (false, auth) ∨
    ∃ auth' : AuthUnix, authunixRefresh now auth = (true, auth'.marshalNewAuth) ∧ auth'.ahCred = .orig ∧
      auth'.Sound c := by
  unfold authunixRefresh
  cases hCred : auth.ahCred with
  | orig => exact Or.inl ⟨rfl, rfl⟩
  | short =>
      obtain ⟨time, hBase⟩ := h.orig_base
      have hValid : UnixCred.Valid { c with time := time } :=
        ⟨h.valid.machname_nul, h.valid.machname_length, h.valid.gids_length⟩
      have hSame : (UnixCred.bytes { c with time := time }).length = c.bytes.length := by
        rw [UnixCred.length_bytes, UnixCred.length_bytes]
      obtain ⟨q, xdrs, xdrs', hDecode, hEncode, hNew⟩ := run_refresh hValid now
      rw [hSame] at hDecode
      right
      refine ⟨{
        auth with
        auShfaults := auth.auShfaults + 1
        auOrigcred := { auth.auOrigcred with oaBase := some xdrs'.base }
        ahCred := .orig }, ?_, rfl, ?_⟩
      · dsimp only
        rw [hBase, Option.getD_some, h.toNat_orig_length, hDecode]
        dsimp only
        rw [hEncode]
      · refine ⟨h.valid, h.orig_flavor, ⟨now, ?_⟩, h.orig_length, h.marshed, h.verf, fun hBad => ?_⟩
        · show some xdrs'.base = _
          rw [hNew]
        · cases hBad

/-! ### Runs -/

/-- A call on the handle. -/
inductive Op where
  | validate (verf : OpaqueAuth)
  | refresh (now : BitVec 32)
  deriving DecidableEq, Repr

def step (auth : AuthUnix) : Op → Bool × AuthUnix
  | .validate verf => authunixValidate verf auth
  | .refresh now => authunixRefresh now auth

/-- The handle after a sequence of calls. -/
def run (auth : AuthUnix) (ops : List Op) : AuthUnix := ops.foldl (fun auth op => (auth.step op).2) auth

/-- The shorthand that a call decodes. -/
def Op.decoded : Op → Option OpaqueAuth
  | .validate verf => if verf.oaFlavor = authShort then shorthand nullAuth verf else none
  | .refresh _ => none

/-- The last shorthand that was decoded. -/
def lastShorthand (ops : List Op) : Option OpaqueAuth := (ops.filterMap Op.decoded).getLast?

/-- The handle is as it is meant to be after the calls. -/
structure Faithful (c : UnixCred) (ops : List Op) (auth : AuthUnix) : Prop where
  consistent : auth.Consistent
  cred : auth.cred = auth.auOrigcred ∨ lastShorthand ops = some auth.cred
  orig : auth.auOrigcred.oaFlavor = authUnix ∧
    ∃ time, auth.auOrigcred.oaBase = some { c with time := time }.bytes ∧
      auth.auOrigcred.oaLength.toNat = { c with time := time }.bytes.length
  failed : ∀ op, (auth.step op).1 = false → (auth.step op).2.cred = auth.cred ∧
    (auth.step op).2.auMarshed = auth.auMarshed ∧ (auth.step op).2.auMpos = auth.auMpos

variable {c : UnixCred}

/-- A call keeps the handle sound, and leaves it consistent unless it decodes a shorthand that
is too long. -/
theorem Sound.step (h : auth.Sound c) (op : Op) : (auth.step op).2.Sound c ∧
    ((∀ sh, op.decoded = some sh → sh.oaLength.toNat ≤ 384) → auth.Consistent →
      (auth.step op).2.Consistent) ∧
    (∀ sh, op.decoded = some sh →
      (auth.step op).2.ahCred = .short ∧ (auth.step op).2.auShcred = sh) ∧
    (op.decoded = none → (auth.step op).2.ahCred = .orig ∨
      (auth.step op).2.ahCred = auth.ahCred ∧ (auth.step op).2.auShcred = auth.auShcred) := by
  cases op with
  | validate verf =>
      show (authunixValidate verf auth).2.Sound c ∧ _
      unfold AuthUnix.step Op.decoded
      dsimp only
      rcases authunixValidate_cases verf auth with
        ⟨hFlavor, hRun⟩ | ⟨hFlavor, sh, hSh, hRun⟩ | ⟨hFlavor, hNone, hRun⟩
      · rw [hRun, if_neg hFlavor]
        exact ⟨h, fun _ hConsistent => hConsistent, fun _ hBad => (by cases hBad),
          fun _ => Or.inr ⟨rfl, rfl⟩⟩
      · rw [hRun, if_pos hFlavor, hSh]
        have hNew : Sound c { auth with auShcred := sh, ahCred := .short } :=
          ⟨h.valid, h.orig_flavor, h.orig_base, h.orig_length, h.marshed, h.verf,
            fun _ => fits_shorthand hSh⟩
        refine ⟨hNew.marshalNewAuth, fun hShort _ => ?_, fun sh' hSame => ?_,
          fun hBad => (by cases hBad)⟩
        · exact hNew.consistent_marshalNewAuth (hShort sh rfl)
        · cases hSame
          exact ⟨(ahCred_marshalNewAuth _).1, (ahCred_marshalNewAuth _).2.1⟩
      · rw [hRun, if_pos hFlavor, hNone]
        have hNew : Sound c {
            auth with auShcred := { auth.auShcred with oaBase := none }, ahCred := .orig } :=
          ⟨h.valid, h.orig_flavor, h.orig_base, h.orig_length, h.marshed, h.verf,
            fun hBad => (by cases hBad)⟩
        exact ⟨hNew.marshalNewAuth, fun _ _ => hNew.consistent_marshalNewAuth hNew.orig_short,
          fun _ hBad => (by cases hBad), fun _ => Or.inl (ahCred_marshalNewAuth _).1⟩
  | refresh now =>
      show (authunixRefresh now auth).2.Sound c ∧ _
      unfold AuthUnix.step Op.decoded
      dsimp only
      rcases h.refresh_cases now with ⟨hOrig, hRun⟩ | ⟨auth', hRun, hOrig, hNew⟩
      · rw [hRun]
        exact ⟨h, fun _ hConsistent => hConsistent, fun _ hBad => (by cases hBad),
          fun _ => Or.inl hOrig⟩
      · have hShort : auth'.cred.oaLength.toNat ≤ 384 := by
          unfold AuthUnix.cred
          rw [hOrig]
          exact hNew.orig_short
        rw [hRun]
        exact ⟨hNew.marshalNewAuth, fun _ _ => hNew.consistent_marshalNewAuth hShort,
          fun _ hBad => (by cases hBad),
          fun _ => Or.inl ((ahCred_marshalNewAuth _).1.trans hOrig)⟩

theorem run_append (auth : AuthUnix) (ops : List Op) (op : Op) :
    auth.run (ops ++ [op]) = ((auth.run ops).step op).2 := by
  rw [run, run, List.foldl_append]
  rfl

theorem lastShorthand_append (ops : List Op) (op : Op) :
    lastShorthand (ops ++ [op]) = op.decoded.or (lastShorthand ops) := by
  unfold lastShorthand
  rw [List.filterMap_append]
  cases hDecoded : op.decoded with
  | none => simp [hDecoded]
  | some sh => simp [hDecoded]

/-- In every run the handle is sound, and a shorthand in use is the last one decoded. -/
theorem Sound.run (h : auth.Sound c) (hOrig : auth.ahCred = .orig) (ops : List Op) :
    (auth.run ops).Sound c ∧ ((auth.run ops).ahCred = .short →
      lastShorthand ops = some (auth.run ops).auShcred) := by
  induction ops using List.reverseRecOn with
  | nil => exact ⟨h, fun hShort => by rw [AuthUnix.run, List.foldl_nil, hOrig] at hShort; cases hShort⟩
  | append_singleton ops op ih =>
      obtain ⟨hSound, hLast⟩ := ih
      obtain ⟨hNext, -, hDecoded, hNone⟩ := hSound.step op
      rw [run_append, lastShorthand_append]
      refine ⟨hNext, fun hShort => ?_⟩
      cases hOp : op.decoded with
      | some sh =>
          rw [(hDecoded sh hOp).2]
          rfl
      | none =>
          rcases hNone hOp with hBad | ⟨hSame, hSh⟩
          · rw [hBad] at hShort
            cases hShort
          · rw [hSh]
            exact hLast (hSame ▸ hShort)

/-- Without a shorthand that is too long, the handle is consistent in every run. -/
theorem Sound.consistent_run (h : auth.Sound c) (hOrig : auth.ahCred = .orig)
    (hConsistent : auth.Consistent) {ops : List Op}
    (hShort : ∀ op ∈ ops, ∀ sh, op.decoded = some sh → sh.oaLength.toNat ≤ 384) :
    (auth.run ops).Consistent := by
  induction ops using List.reverseRecOn with
  | nil => exact hConsistent
  | append_singleton ops op ih =>
      rw [run_append]
      have hBefore := ih fun op hMem => hShort op (List.mem_append_left _ hMem)
      have hOp := hShort op (List.mem_append_right _ (List.mem_singleton.mpr rfl))
      exact ((h.run hOrig ops).1.step op).2.1 hOp hBefore

/-- A call that fails changes none of what is sent. -/
theorem Sound.step_failed (h : auth.Sound c) {op : Op} (hFailed : (auth.step op).1 = false) :
    (auth.step op).2 = auth := by
  cases op with
  | validate verf =>
      change (authunixValidate verf auth).1 = false at hFailed
      rcases authunixValidate_cases verf auth with
        ⟨-, hRun⟩ | ⟨-, sh, -, hRun⟩ | ⟨-, -, hRun⟩
      · rw [hRun] at hFailed
        cases hFailed
      · rw [hRun] at hFailed
        cases hFailed
      · rw [hRun] at hFailed
        cases hFailed
  | refresh now =>
      change (authunixRefresh now auth).1 = false at hFailed
      rcases h.refresh_cases now with ⟨-, hRun⟩ | ⟨auth', hRun, -⟩
      · show (authunixRefresh now auth).2 = auth
        rw [hRun]
      · rw [hRun] at hFailed
        cases hFailed

theorem Sound.faithful_run (h : auth.Sound c) (hOrig : auth.ahCred = .orig) (ops : List Op)
    (hConsistent : (auth.run ops).Consistent) : Faithful c ops (auth.run ops) := by
  obtain ⟨hSound, hLast⟩ := h.run hOrig ops
  constructor
  · exact hConsistent
  · unfold AuthUnix.cred
    cases hCred : (auth.run ops).ahCred with
    | orig => exact Or.inl rfl
    | short => exact Or.inr (hLast hCred)
  · obtain ⟨time, hBase⟩ := hSound.orig_base
    refine ⟨hSound.orig_flavor, time, hBase, ?_⟩
    rw [hSound.toNat_orig_length, UnixCred.length_bytes, UnixCred.length_bytes]
  · intro op hFailed
    rw [hSound.step_failed hFailed]
    exact ⟨rfl, rfl, rfl⟩

/-- A handle is as it is meant to be in every state of a run exactly when no shorthand that the
run decodes is longer than 384 bytes. -/
theorem authunix_faithful_iff (now : BitVec 32) {mymem machname : List UInt8}
    (uid gid : BitVec 32) {len : BitVec 32} {aupGids : List (BitVec 32)} {auth : AuthUnix}
    (hMem : mymem.length = maxAuthBytes) (hName : strlen machname ≤ maxMachineName)
    (hLen : len.toNat ≤ ngrps) (hGids : len.toNat ≤ aupGids.length)
    (hAuth : authunixCreate now mymem machname uid gid len aupGids = some auth) (ops : List Op) :
    (∀ n, Faithful (given now machname uid gid len aupGids) (ops.take n)
        (auth.run (ops.take n))) ↔
      ∀ op ∈ ops, ∀ sh, op.decoded = some sh → sh.oaLength.toNat ≤ 384 := by
  obtain ⟨auth', hCreate, hConsistent, hOrig, -, hSound⟩ :=
    authunixCreate_spec now uid gid hMem hName hLen hGids
  rw [hCreate] at hAuth
  cases hAuth
  constructor
  · intro h op hMem sh hDecoded
    obtain ⟨n, hn, rfl⟩ := List.mem_iff_getElem.mp hMem
    have hAfter := (h (n + 1)).consistent
    rw [List.take_succ_eq_append_getElem hn, run_append] at hAfter
    obtain ⟨hNext, -, hShort, -⟩ := (hSound.run hOrig (ops.take n)).1.step ops[n]
    obtain ⟨hCred, hSh⟩ := hShort sh hDecoded
    by_contra hLong
    refine hNext.not_consistent ?_ hAfter
    unfold AuthUnix.cred
    rw [hCred, hSh]
    exact Nat.not_le.mp hLong
  · intro h n
    apply hSound.faithful_run hOrig
    apply hSound.consistent_run hOrig hConsistent
    exact fun op hMem => h op (List.mem_of_mem_take hMem)

/-- A verifier with a shorthand of `n` bytes. -/
def shortVerf (n : Nat) : OpaqueAuth :=
  let body := Word.toBytes authShort ++ Word.toBytes (BitVec.ofNat 32 n) ++
    padded (List.replicate n 7)
  { oaFlavor := authShort, oaBase := some body, oaLength := BitVec.ofNat 32 body.length }

theorem authunix_faithful_iff_short :
    ∃ auth, authunixCreate 7 (List.replicate maxAuthBytes 0) hostName 1 2 1 [5] = some auth ∧
      ∀ n, Faithful (given 7 hostName 1 2 1 [5])
        ([Op.validate (shortVerf 384), .refresh 8].take n)
        (auth.run ([Op.validate (shortVerf 384), .refresh 8].take n)) := by
  obtain ⟨auth, hCreate, -⟩ := authunixCreate_spec 7 1 2
    (show (List.replicate maxAuthBytes 0).length = maxAuthBytes by decide +kernel)
    (show strlen hostName ≤ maxMachineName by decide)
    (show (1 : BitVec 32).toNat ≤ ngrps by decide)
    (show (1 : BitVec 32).toNat ≤ [5].length by decide)
  refine ⟨auth, hCreate, (authunix_faithful_iff 7 1 2 (by decide +kernel) (by decide +kernel)
    (by decide) (by decide) hCreate _).mpr ?_⟩
  have hShort : ∀ op ∈ [Op.validate (shortVerf 384), .refresh 8],
      (op.decoded.map fun sh => decide (sh.oaLength.toNat ≤ 384)).getD true = true := by
    decide +kernel
  intro op hMem sh hDecoded
  have hLe := hShort op hMem
  rw [hDecoded] at hLe
  exact of_decide_eq_true hLe

/-- A shorthand of 392 bytes is decoded, but it does not fit with a verifier behind it. -/
theorem not_authunix_faithful_long :
    ¬ ∀ auth, authunixCreate 7 (List.replicate maxAuthBytes 0) hostName 1 2 1 [5] = some auth →
      ∀ n, Faithful (given 7 hostName 1 2 1 [5]) ([Op.validate (shortVerf 392)].take n)
        (auth.run ([Op.validate (shortVerf 392)].take n)) := by
  intro h
  have hCreate : (authunixCreate 7 (List.replicate maxAuthBytes 0) hostName 1 2 1 [5]).map
      (fun auth => decide (auth.run [Op.validate (shortVerf 392)]).Consistent) = some false := by
    decide +kernel
  obtain ⟨auth, hAuth, hBad⟩ := Option.map_eq_some_iff.mp hCreate
  exact of_decide_eq_false hBad (h auth hAuth 1).consistent

end AuthUnix

end OncRpc
