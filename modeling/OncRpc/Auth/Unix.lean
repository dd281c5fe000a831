import OncRpc.Base.CString
import OncRpc.Rpc.CallMsg
import OncRpc.Xdr.Offsets

/-! `authunix_prot.c` and `svc_auth_unix.c`: the credentials of Unix, as the filters decode them
and as the server parses them in place. -/
namespace OncRpc

open XdrOps Fallible

/-- `MAX_MACHINE_NAME` and `NGRPS`. -/
def maxMachineName : Nat := 255
def ngrps : Nat := 16

/-- `struct authunix_parms`, with the memory that its pointers point to. -/
structure AuthunixParms where
  aupTime : BitVec 32
  aupMachname : Option (List UInt8)
  aupUid : BitVec 32
  aupGid : BitVec 32
  aupLen : BitVec 32
  aupGids : Option (List (BitVec 32))
  deriving DecidableEq, Repr

section Routine

variable {σ : Type} [XdrOps σ]

def xdrAuthunixParms : XdrProc σ AuthunixParms := fun op p => do
  let time ← xdrULong op p.aupTime
  let machname ← xdrString maxMachineName op p.aupMachname
  let uid ← xdrInt op p.aupUid
  let gid ← xdrInt op p.aupGid
  let gids ← xdrArray ngrps 4 0 xdrInt op (p.aupGids, p.aupLen)
  pure {
    aupTime := time
    aupMachname := machname
    aupUid := uid
    aupGid := gid
    aupLen := gids.2
    aupGids := gids.1 }

end Routine

/-- The groups of `_svcauth_unix`. -/
def getGids : Nat → Nat → Fallible XdrMem (List (BitVec 32))
  | 0, _ => pure []
  | n + 1, buf => do
      let (gid, buf) ← ixdrGetInt32 .decode buf
      let gids ← getGids n buf
      pure (gid :: gids)

/-- `_svcauth_unix` behind a pointer into the credential. A failure is `AUTH_BADCRED`. What is
read may be behind the end of the credential: only the last check looks at its length. -/
def svcauthInline (area : AuthunixParms) (authLen buf : Nat) : Fallible XdrMem AuthunixParms := do
  let (time, buf) ← ixdrGetInt32 .decode buf
  let (strLen, buf) ← ixdrGetInt32 .decode buf
  require (¬ strLen.toNat > maxMachineName)
  let name ← loadBytes .decode buf strLen.toNat
  let machname := Buffer.writeAt (area.aupMachname.getD []) 0 name
  let machname := Buffer.writeAt machname strLen.toNat [0]
  let strLen := rndup strLen.toNat
  let (uid, buf) ← ixdrGetInt32 .decode (buf + strLen)
  let (gid, buf) ← ixdrGetInt32 .decode buf
  let (gidLen, buf) ← ixdrGetInt32 .decode buf
  require (¬ gidLen.toNat > ngrps)
  let gids ← getGids gidLen.toNat buf
  require (¬ (5 + gidLen.toNat) * bytesPerXdrUnit + strLen > authLen)
  pure {
    aupTime := time
    aupMachname := some machname
    aupUid := uid
    aupGid := gid
    aupLen := gidLen
    aupGids := some (Buffer.writeAt (area.aupGids.getD []) 0 gids) }

/-- What becomes of a credential. -/
inductive SvcauthUnix where
  /-- `AUTH_OK`, with the parameters in the area of the request. -/
  | ok (aup : AuthunixParms)
  /-- `AUTH_BADCRED`. -/
  | badcred
  /-- `XDR_FREE` releases the machine name in the area, which was never allocated. -/
  | areaFreed
  deriving DecidableEq, Repr

/-- `_svcauth_unix`. The area is where `rq_clntcred` points to, with whatever it holds; the
memory at `oa_base` goes on behind the credential. -/
def svcauthUnix (area : AuthunixParms) (aligned : Bool) (oaBase : List UInt8)
    (oaLength : BitVec 32) : SvcauthUnix :=
  let authLen := oaLength.toNat
  match (inline .decode authLen).run (XdrMem.xdrmemCreate oaBase authLen aligned) with
  | (some (some buf), xdrs) =>
      match (svcauthInline area authLen buf).run xdrs with
      | (some aup, _) => .ok aup
      | (none, _) => .badcred
  | (_, xdrs) =>
      match (xdrAuthunixParms .decode area).run xdrs with
      | (some aup, _) => .ok aup
      | (none, _) => .areaFreed

/-! ### What a credential says -/

/-- The contents of a credential. -/
structure UnixCred where
  time : BitVec 32
  machname : CString
  uid : BitVec 32
  gid : BitVec 32
  gids : List (BitVec 32)
  deriving DecidableEq, Repr

namespace AuthunixParms

/-- The contents of the parameters. -/
def cred (p : AuthunixParms) : UnixCred where
  time := p.aupTime
  machname := cString (p.aupMachname.getD [])
  uid := p.aupUid
  gid := p.aupGid
  gids := (p.aupGids.getD []).take p.aupLen.toNat

/-- The pointers are NULL, or point to areas for the longest name and for all groups. -/
structure Ready (p : AuthunixParms) : Prop where
  machname : ∀ s, p.aupMachname = some s → maxMachineName < s.length
  gids : ∀ l, p.aupGids = some l → ngrps ≤ l.length

/-- Parameters with pointers that are NULL. -/
def fresh : AuthunixParms where
  aupTime := 0
  aupMachname := none
  aupUid := 0
  aupGid := 0
  aupLen := 0
  aupGids := none

theorem ready_fresh : fresh.Ready where
  machname := fun _ h => by cases h
  gids := fun _ h => by cases h

end AuthunixParms

/-- The words from an offset on. -/
def wordsAt (t : List UInt8) : Nat → Nat → List (BitVec 32)
  | 0, _ => []
  | n + 1, k => wordAt t k :: wordsAt t n (k + 4)

/-- The contents of the credential that the first `len` bytes are, if they are one. -/
def credAt (t : List UInt8) (len : Nat) : Option UnixCred :=
  let n := (wordAt t 4).toNat
  let k := 8 + rndup n
  let gidLen := (wordAt t (k + 8)).toNat
  if n ≤ maxMachineName ∧ gidLen ≤ ngrps ∧ k + 12 + 4 * gidLen ≤ len then
    some {
      time := wordAt t 0
      machname := cString (Buffer.readAt t 8 n)
      uid := wordAt t k
      gid := wordAt t (k + 4)
      gids := wordsAt t gidLen (k + 12) }
  else none

theorem length_wordsAt (t : List UInt8) (n k : Nat) : (wordsAt t n k).length = n := by
  induction n generalizing k with
  | zero => rfl
  | succ n ih => rw [wordsAt, List.length_cons, ih]

/-- What stands behind the end of the credential does not matter. -/
theorem readAt_of_take {t : List UInt8} {len k n : Nat} (h : k + n ≤ len) :
    Buffer.readAt (t.take len) k n = Buffer.readAt t k n := by
  rw [Buffer.readAt, Buffer.readAt, List.drop_take, List.take_take, Nat.min_eq_left (by omega)]

theorem wordAt_take {t : List UInt8} {len k : Nat} (h : k + 4 ≤ len) :
    wordAt (t.take len) k = wordAt t k := by
  rw [wordAt, wordAt, readAt_of_take h]

theorem wordsAt_take {t : List UInt8} {len n k : Nat} (h : k + 4 * n ≤ len) :
    wordsAt (t.take len) n k = wordsAt t n k := by
  induction n generalizing k with
  | zero => rfl
  | succ n ih => rw [wordsAt, wordsAt, wordAt_take (by omega), ih (by omega)]

theorem le_rndup (n : Nat) : n ≤ rndup n := by
  rw [rndup_eq]
  exact Nat.le_add_right _ _

theorem credAt_take (t : List UInt8) (len : Nat) : credAt (t.take len) len = credAt t len := by
  by_cases hHeader : 8 ≤ len
  · have hLen : wordAt (t.take len) 4 = wordAt t 4 := wordAt_take hHeader
    unfold credAt
    dsimp only
    rw [hLen]
    by_cases hName : 8 + rndup (wordAt t 4).toNat + 12 ≤ len
    · have hBound := le_rndup (wordAt t 4).toNat
      rw [wordAt_take (show 8 + rndup (wordAt t 4).toNat + 8 + 4 ≤ len by omega)]
      split
      · next hAll =>
          rw [wordAt_take (by omega), readAt_of_take (by omega), wordAt_take (by omega),
            wordAt_take (by omega), wordsAt_take (by omega)]
      · rfl
    · rw [if_neg (by omega), if_neg (by omega)]
  · unfold credAt
    dsimp only
    rw [if_neg (by omega), if_neg (by omega)]

/-- The name and the groups are within their limits. -/
theorem credAt_bounds {t : List UInt8} {len : Nat} {c : UnixCred} (h : credAt t len = some c) :
    c.machname.length ≤ maxMachineName ∧ c.gids.length ≤ ngrps := by
  unfold credAt at h
  dsimp only at h
  split at h
  · next hAll =>
      cases h
      refine ⟨?_, ?_⟩
      · have hText : (cString (Buffer.readAt t 8 (wordAt t 4).toNat)).length ≤
            (Buffer.readAt t 8 (wordAt t 4).toNat).length :=
          (List.takeWhile_prefix _).length_le
        have hRead : (Buffer.readAt t 8 (wordAt t 4).toNat).length ≤ (wordAt t 4).toNat :=
          List.length_take_le _ _
        exact (hText.trans hRead).trans hAll.1
      · show (wordsAt t _ _).length ≤ ngrps
        rw [length_wordsAt]
        exact hAll.2.1
  · cases h

/-! ### The machine name in memory -/

theorem cString_append_zero (a b : List UInt8) : cString (a ++ 0 :: b) = cString a := by
  induction a with
  | nil => simp [cString]
  | cons c a ih =>
      rw [List.cons_append]
      unfold cString at ih ⊢
      rw [List.takeWhile_cons, List.takeWhile_cons, ih]

/-- The server moves the name and then ends it. -/
theorem cString_name_end (area name : List UInt8) :
    cString (Buffer.writeAt (Buffer.writeAt area 0 name) name.length [0]) = cString name := by
  have hFirst : Buffer.writeAt area 0 name = name ++ area.drop name.length := by
    simp [Buffer.writeAt]
  have hBoth : Buffer.writeAt (name ++ area.drop name.length) name.length [0] =
      name ++ 0 :: area.drop (name.length + 1) := by
    simp [Buffer.writeAt, List.drop_append]
  rw [hFirst, hBoth, cString_append_zero]

/-- `xdr_string` ends the name and then moves it. -/
theorem cString_end_name {area name : List UInt8} (h : name.length < area.length) :
    cString (Buffer.writeAt (Buffer.writeAt area name.length [0]) 0 name) = cString name := by
  have hEnd : Buffer.writeAt area name.length [0] =
      area.take name.length ++ 0 :: area.drop (name.length + 1) := by
    simp [Buffer.writeAt]
  have hTake : (area.take name.length).length = name.length := by
    rw [List.length_take, Nat.min_eq_left (Nat.le_of_lt h)]
  have hBoth : Buffer.writeAt (area.take name.length ++ 0 :: area.drop (name.length + 1)) 0 name =
      name ++ 0 :: area.drop (name.length + 1) := by
    simp only [Buffer.writeAt, List.take_zero, List.nil_append, Nat.zero_add]
    rw [List.drop_left' hTake]
  rw [hEnd, hBoth, cString_append_zero]

/-! ### Reading at an offset -/

namespace ByteStream

theorem reads_xdrElements (t : List UInt8) (k n : Nat) {target : List (BitVec 32)}
    (hLen : n ≤ target.length) : Reads t k (4 * n) (xdrElements .decode xdrInt n target)
      (wordsAt t n k ++ target.drop n) := by
  induction n generalizing k target with
  | zero => exact Reads.pure t k target
  | succ n ih =>
      cases target with
      | nil => exact absurd hLen (Nat.not_succ_le_zero n)
      | cons v target =>
          have hRest := ih (k + 4) (Nat.le_of_succ_le_succ hLen)
          rw [show 4 * (n + 1) = 4 + 4 * n by omega]
          exact (reads_xdrInteger t k v).bind (hRest.bind_pure rfl)

/-- The array is decoded into its area, or into a new one. -/
theorem reads_xdrArray (t : List UInt8) (k : Nat) {addr : Option (List (BitVec 32))}
    (v : BitVec 32) (hAddr : ∀ l, addr = some l → ngrps ≤ l.length)
    (hSize : (wordAt t k).toNat ≤ ngrps) :
    ∃ addr', Reads t k (4 + 4 * (wordAt t k).toNat)
        (xdrArray ngrps 4 0 xdrInt .decode (addr, v)) (addr', wordAt t k) ∧
      (addr'.getD []).take (wordAt t k).toNat = wordsAt t (wordAt t k).toNat (k + 4) := by
  have hGuard : ¬ (((wordAt t k).toNat > ngrps ∨ uintMax / 4 < (wordAt t k).toNat) ∧
      XdrOp.decode ≠ .free) := by
    unfold ngrps uintMax at *
    omega
  have hTake : ∀ rest : List (BitVec 32),
      (wordsAt t (wordAt t k).toNat (k + 4) ++ rest).take (wordAt t k).toNat =
        wordsAt t (wordAt t k).toNat (k + 4) :=
    fun rest => List.take_left' (length_wordsAt _ _ _)
  cases addr with
  | none =>
      by_cases hZero : (wordAt t k).toNat = 0
      · refine ⟨none, ?_, ?_⟩
        · apply (reads_xdrInteger t k v).bind
          apply Reads.require hGuard
          dsimp only
          rw [if_pos hZero, hZero]
          exact Reads.pure t _ _
        · rw [hZero]
          rfl
      · refine ⟨some (wordsAt t (wordAt t k).toNat (k + 4) ++
          (List.replicate (wordAt t k).toNat 0).drop (wordAt t k).toNat), ?_, hTake _⟩
        apply (reads_xdrInteger t k v).bind
        apply Reads.require hGuard
        dsimp only
        rw [if_neg hZero]
        exact (reads_xdrElements t (k + 4) _ (by rw [List.length_replicate])).bind_pure rfl
  | some target =>
      refine ⟨some (wordsAt t (wordAt t k).toNat (k + 4) ++
        target.drop (wordAt t k).toNat), ?_, hTake _⟩
      apply (reads_xdrInteger t k v).bind
      apply Reads.require hGuard
      exact (reads_xdrElements t (k + 4) _ (hSize.trans (hAddr target rfl))).bind_pure rfl

theorem fails_xdrArray {t : List UInt8} {k : Nat} (addr : Option (List (BitVec 32)))
    (v : BitVec 32) (hSize : ngrps < (wordAt t k).toNat) :
    Fails t k (xdrArray ngrps 4 0 xdrInt .decode (addr, v)) := by
  apply (reads_xdrInteger t k v).fails
  apply Fails.require
  rw [not_not]
  exact ⟨Or.inl hSize, fun h => by cases h⟩

end ByteStream

/-! ### The parser of the server -/

theorem run_getGids (n buf : Nat) (s : XdrMem) :
    (getGids n buf).run s = (some (wordsAt s.base n buf), s) := by
  induction n generalizing buf with
  | zero => rfl
  | succ n ih =>
      rw [getGids, run_bind_some (run_ixdrGetInt32 .decode buf s)]
      show (getGids n (buf + 4) >>= _).run s = _
      rw [run_bind_some (ih (buf + 4))]
      rfl

/-- The server ends the name that it has moved, and has as many groups as it has read. -/
theorem cred_of_area (area : AuthunixParms) {time uid gid gidLen : BitVec 32} {name : List UInt8}
    {n : Nat} {gids : List (BitVec 32)} (hName : name.length = n)
    (hGids : gids.length = gidLen.toNat) :
    AuthunixParms.cred {
      aupTime := time
      aupMachname := some
        (Buffer.writeAt (Buffer.writeAt (area.aupMachname.getD []) 0 name) n [0])
      aupUid := uid
      aupGid := gid
      aupLen := gidLen
      aupGids := some (Buffer.writeAt (area.aupGids.getD []) 0 gids) } =
    { time := time, machname := cString name, uid := uid, gid := gid, gids := gids } := by
  have hTake : (Buffer.writeAt (area.aupGids.getD []) 0 gids).take gidLen.toNat = gids := by
    rw [← hGids]
    simp [Buffer.writeAt]
  subst hName
  rw [AuthunixParms.cred, Option.getD_some, Option.getD_some, cString_name_end, hTake]

/-- What the server accepts behind a pointer, and what it then has. -/
theorem run_svcauthInline (area : AuthunixParms) {authLen : Nat} {s : XdrMem}
    (hBlock : authLen ≤ s.base.length) :
    ((svcauthInline area authLen 0).run s).1.map AuthunixParms.cred = credAt s.base authLen := by
  have hLoad : ∀ k, Word.ofBytes (load .decode k 4 s) = wordAt s.base k := fun _ => rfl
  simp only [svcauthInline, run_bind, run_ixdrGetInt32, run_loadBytes, run_require, run_getGids,
    run_pure, hLoad, Nat.zero_add, Nat.reduceAdd]
  unfold credAt
  dsimp only
  generalize hn : (wordAt s.base 4).toNat = n
  by_cases hName : n > maxMachineName
  · have hNot : ¬ n ≤ maxMachineName := Nat.not_le.mpr hName
    rw [if_neg (not_not.mpr hName), if_neg (fun hAll => hNot hAll.1)]
    rfl
  · rw [if_pos hName]
    simp only [hLoad, Nat.add_assoc, Nat.reduceAdd]
    generalize hg : wordAt s.base (8 + (rndup n + 8)) = gidLen
    by_cases hGids : gidLen.toNat > ngrps
    · have hNot : ¬ (n ≤ maxMachineName ∧ gidLen.toNat ≤ ngrps ∧
          8 + (rndup n + (12 + 4 * gidLen.toNat)) ≤ authLen) :=
        fun hAll => Nat.not_le.mpr hGids hAll.2.1
      rw [if_neg (not_not.mpr hGids), if_neg hNot]
      rfl
    · rw [if_pos hGids]
      by_cases hFits : (5 + gidLen.toNat) * bytesPerXdrUnit + rndup n > authLen
      · have hNot : ¬ (n ≤ maxMachineName ∧ gidLen.toNat ≤ ngrps ∧
            8 + (rndup n + (12 + 4 * gidLen.toNat)) ≤ authLen) := by
          rw [bytesPerXdrUnit] at hFits
          omega
        dsimp only
        rw [if_neg (not_not.mpr hFits), if_neg hNot]
        rfl
      · have hAll : n ≤ maxMachineName ∧ gidLen.toNat ≤ ngrps ∧
            8 + (rndup n + (12 + 4 * gidLen.toNat)) ≤ authLen := by
          rw [bytesPerXdrUnit] at hFits
          omega
        have hBound := le_rndup n
        have hLen : (Buffer.readAt s.base 8 n).length = n :=
          Buffer.length_readAt_of_le (by omega)
        dsimp only
        rw [if_pos hFits, if_pos hAll]
        show some (AuthunixParms.cred _) = some _
        rw [Option.some.injEq]
        exact cred_of_area area hLen (length_wordsAt _ _ _)

/-! ### The filter -/

section Filter

open ByteStream

variable {p : AuthunixParms} {t : List UInt8}

/-- The name is decoded into its area, or into a new one. -/
theorem reads_machname (hReady : p.Ready) (hName : (wordAt t 4).toNat ≤ maxMachineName) :
    ∃ machname, Reads t 4 (4 + rndup (wordAt t 4).toNat)
        (xdrString maxMachineName .decode p.aupMachname) machname ∧
      (8 + (wordAt t 4).toNat ≤ t.length →
        cString (machname.getD []) = cString (Buffer.readAt t 8 (wordAt t 4).toNat)) := by
  refine ⟨_, reads_xdrString (by decide) t 4 p.aupMachname hName, fun hRoom => ?_⟩
  generalize (wordAt t 4).toNat = n at *
  have hLen : (Buffer.readAt t 8 n).length = n := Buffer.length_readAt_of_le hRoom
  have hArea : n < (p.aupMachname.getD (memAlloc (n + 1))).length := by
    cases hSome : p.aupMachname with
    | none =>
        rw [Option.getD_none, memAlloc, List.length_replicate]
        exact Nat.lt_succ_self n
    | some area => exact Nat.lt_of_le_of_lt hName (hReady.machname area hSome)
  rw [← hLen] at hArea
  have hBoth := cString_end_name hArea
  rw [hLen] at hBoth
  exact hBoth

variable {machname : Option (List UInt8)} {r n : Nat} {q : Option (List (BitVec 32)) × BitVec 32}

theorem xdrAuthunixParms_reads
    (hString : Reads t 4 (4 + r) (xdrString maxMachineName .decode p.aupMachname) machname)
    (hArray : Reads t (8 + r + 8) n
      (xdrArray ngrps 4 0 xdrInt .decode (p.aupGids, p.aupLen)) q) :
    Reads t 0 (8 + r + 8 + n) (xdrAuthunixParms .decode p) {
      aupTime := wordAt t 0
      aupMachname := machname
      aupUid := wordAt t (8 + r)
      aupGid := wordAt t (8 + r + 4)
      aupLen := q.2
      aupGids := q.1 } := by
  rw [show 8 + r + 8 + n = 4 + ((4 + r) + (4 + (4 + n))) by omega]
  apply (reads_xdrInteger t 0 _).bind
  apply hString.bind
  rw [show 0 + 4 + (4 + r) = 8 + r by omega]
  apply (reads_xdrInteger t _ _).bind
  apply (reads_xdrInteger t _ _).bind
  exact hArray.bind_pure rfl

theorem xdrAuthunixParms_fails
    (hString : Reads t 4 (4 + r) (xdrString maxMachineName .decode p.aupMachname) machname)
    (hArray : Fails t (8 + r + 8) (xdrArray ngrps 4 0 xdrInt .decode (p.aupGids, p.aupLen))) :
    Fails t 0 (xdrAuthunixParms .decode p) := by
  apply (reads_xdrInteger t 0 _).fails
  apply hString.fails
  rw [show 0 + 4 + (4 + r) = 8 + r by omega]
  apply (reads_xdrInteger t _ _).fails
  apply (reads_xdrInteger t _ _).fails
  exact fun hLe => fst_run_bind (hArray hLe)

/-- What the filter decodes of a credential. -/
theorem run_xdrAuthunixParms (hReady : p.Ready) (t : List UInt8) :
    ((xdrAuthunixParms .decode p : Fallible ByteStream AuthunixParms).run t).1.map
      AuthunixParms.cred = credAt t t.length := by
  unfold credAt
  dsimp only
  by_cases hName : maxMachineName < (wordAt t 4).toNat
  · have hFails : Fails t 0 (xdrAuthunixParms .decode p) :=
      (reads_xdrInteger t 0 _).fails fun hLe => fst_run_bind (fails_xdrString _ hName hLe)
    rw [if_neg (fun hAll => Nat.not_le.mpr hName hAll.1)]
    exact congrArg (Option.map AuthunixParms.cred) (hFails (Nat.zero_le _))
  · obtain ⟨machname, hString, hText⟩ := reads_machname hReady (Nat.not_lt.mp hName)
    by_cases hGids : ngrps < (wordAt t (8 + rndup (wordAt t 4).toNat + 8)).toNat
    · have hNone := xdrAuthunixParms_fails hString (fails_xdrArray _ _ hGids)
      rw [if_neg (fun hAll => Nat.not_le.mpr hGids hAll.2.1)]
      exact congrArg (Option.map AuthunixParms.cred) (hNone (Nat.zero_le _))
    · obtain ⟨addr, hArray, hTake⟩ := reads_xdrArray t _ p.aupLen hReady.gids
        (Nat.not_lt.mp hGids)
      have hRun := xdrAuthunixParms_reads hString hArray
      by_cases hRoom : 8 + rndup (wordAt t 4).toNat + 12 +
          4 * (wordAt t (8 + rndup (wordAt t 4).toNat + 8)).toNat ≤ t.length
      · have hBound := le_rndup (wordAt t 4).toNat
        have hSome := hRun.yields (by omega)
        rw [List.drop_zero] at hSome
        rw [hSome, if_pos ⟨Nat.not_lt.mp hName, Nat.not_lt.mp hGids, hRoom⟩]
        show some (AuthunixParms.cred _) = some _
        rw [AuthunixParms.cred, hTake, hText (by omega)]
      · have hNone := hRun.short (Nat.zero_le _) (by omega)
        rw [if_neg (fun hAll => hRoom hAll.2.2)]
        exact congrArg (Option.map AuthunixParms.cred) hNone

end Filter

/-! ### Agreement -/

theorem decodes_xdrAuthunixParms {σ : Type} [XdrOps σ] {R : σ → List UInt8 → Prop}
    (h : LawfulReader R) : DecodesAs R xdrAuthunixParms xdrAuthunixParms := by
  intro p
  apply Refines.bind (decodes_xdrInteger h id id _)
  intro time
  apply Refines.bind (decodes_xdrString h _ _)
  intro machname
  apply Refines.bind (decodes_xdrInteger h id id _)
  intro uid
  apply Refines.bind (decodes_xdrInteger h id id _)
  intro gid
  apply Refines.bind (decodes_xdrArray h _ _ _ (decodes_xdrInteger h id id) _)
  intro gids
  exact Refines.pure _

/-- What the filter decodes from a block of memory. -/
theorem xdrmem_xdrAuthunixParms {p : AuthunixParms} (hReady : p.Ready) {block : List UInt8}
    {len : Nat} (hBlock : len ≤ block.length) (aligned : Bool) :
    ((xdrAuthunixParms .decode p).run (XdrMem.xdrmemCreate block len aligned)).1.map
      AuthunixParms.cred = credAt block len := by
  have hBefore : XdrMem.Before block len (XdrMem.xdrmemCreate block len aligned)
      (block.take len) := by
    refine ⟨rfl, Nat.zero_add len, ?_, rfl⟩
    show 0 + len ≤ block.length
    rwa [Nat.zero_add]
  have hSame := (decodes_xdrAuthunixParms XdrMem.lawful p _ _ hBefore).1
  have hLen : (block.take len).length = len := by rw [List.length_take, Nat.min_eq_left hBlock]
  have hCred := run_xdrAuthunixParms hReady (block.take len)
  rw [hLen, credAt_take] at hCred
  rw [hSame, hCred]

namespace SvcauthUnix

/-- The contents of a credential that is accepted. -/
def cred : SvcauthUnix → Option UnixCred
  | ok aup => some aup.cred
  | badcred | areaFreed => none

theorem ok_iff {r : SvcauthUnix} {c : UnixCred} :
    (∃ aup, r = ok aup ∧ aup.cred = c) ↔ r.cred = some c := by
  cases r with
  | ok aup => simp [cred]
  | badcred => simp [cred]
  | areaFreed => simp [cred]

end SvcauthUnix

/-- Behind a pointer or not, the server accepts what the bytes of the credential say. -/
theorem cred_svcauthUnix {area : AuthunixParms} (hArea : area.Ready) (aligned : Bool)
    {oaBase : List UInt8} {oaLength : BitVec 32} (hBlock : oaLength.toNat ≤ oaBase.length) :
    (svcauthUnix area aligned oaBase oaLength).cred = credAt oaBase oaLength.toNat := by
  unfold svcauthUnix
  dsimp only
  cases aligned with
  | true =>
      have hInline : (inline .decode oaLength.toNat).run
          (XdrMem.xdrmemCreate oaBase oaLength.toNat true) =
            (some (some 0), ⟨oaBase, 0 + oaLength.toNat, oaLength.toNat - oaLength.toNat, true⟩) :=
        if_pos (Nat.le_refl _)
      have hRun := run_svcauthInline area (s :=
        ⟨oaBase, 0 + oaLength.toNat, oaLength.toNat - oaLength.toNat, true⟩) hBlock
      rw [hInline]
      dsimp only
      rw [← hRun]
      split
      · next aup _ hOk => rw [hOk]; rfl
      · next hBad => rw [hBad]; rfl
  | false =>
      have hRun := xdrmem_xdrAuthunixParms hArea hBlock false
      have hInline : (inline .decode oaLength.toNat).run
          (XdrMem.xdrmemCreate oaBase oaLength.toNat false) =
            (some none, XdrMem.xdrmemCreate oaBase oaLength.toNat false) := rfl
      rw [hInline]
      dsimp only
      rw [← hRun]
      split
      · next aup _ hOk => rw [hOk]; rfl
      · next hBad => rw [hBad]; rfl

end OncRpc
