import OncRpc.Clnt.Control
import OncRpc.Clnt.VcCallRun
import OncRpc.Svc.Callout
import OncRpc.Svc.Sendreply

/-! `clnt_create_vers`: which version of a program is agreed on, by what a server says of those that
it has. -/
namespace OncRpc

open Buffer SvcXprt

/-! ### `clnt_create_vers` -/

/-- What `clnt_create_vers` leaves. -/
structure CreateVersEnd (σ : Type) where
  /-- The handle that is returned, where it is not null. -/
  clnt : Option σ
  /-- What is stored at `vers_out`. -/
  versOut : Option (BitVec 32)
  /-- `rpc_createerr.cf_stat`, where it is set. -/
  createerr : Option ClntStat
  /-- The handle of the probes is passed to `clnt_destroy`. -/
  destroyed : Bool

/-- The end of `clnt_create_vers` without a version. -/
def createVersError {σ : Type} (rpcStat : ClntStat) : CreateVersEnd σ where
  clnt := none
  versOut := none
  createerr := some rpcStat
  destroyed := true

namespace ClntKindOps

variable {σ κ : Type} (ops : ClntKindOps σ κ) (order : Word.ByteOrder)

/-- A call of `NULLPROC` that is answered by the version in the header, and the handle behind
it. -/
def nullCall (answer : BitVec 32 → RpcErr) (args : κ) (clnt : σ) : ClntStat × σ :=
  (.replied (answer (Word.ntohl order (ops.word 16 clnt))), (ops.call args clnt).2)

/-- The second probe of `clnt_create_vers`, with the upper end of both ranges. The control is
accepted always. -/
def createVersAgain (answer : BitVec 32 → RpcErr) (probe : κ) (clnt : σ) (versHigh : BitVec 32) :
    CreateVersEnd σ :=
  match ops.control (.clsetVers versHigh) true clnt with
  | none => createVersError .cantSend
  | some r =>
      let again := ops.nullCall order answer probe r.2.2
      if again.1 = .replied .success then
        { clnt := some again.2, versOut := some versHigh, createerr := none, destroyed := false }
      else createVersError again.1

/-- `clnt_create_vers`, behind `clnt_create`. -/
def clntCreateVers (answer : BitVec 32 → RpcErr) (probes : Nat → κ) (created : Option σ)
    (versLow versHigh : BitVec 32) : CreateVersEnd σ :=
  match created with
  | none => { clnt := none, versOut := none, createerr := none, destroyed := false }
  | some clnt =>
      let r := ops.nullCall order answer (probes 0) clnt
      match r.1 with
      | .replied .success =>
          { clnt := some r.2, versOut := some versHigh, createerr := none, destroyed := false }
      | .replied (.progVersMismatch reVers) =>
          let high := if reVers.high < versHigh then reVers.high else versHigh
          let low := if reVers.low > versLow then reVers.low else versLow
          if low > high then createVersError r.1
          else ops.createVersAgain order answer (probes 1) r.2 high
      | rpcStat => createVersError rpcStat

/-- Every message of some calls has the version. -/
def CallsCarry (v : BitVec 32) : σ → List κ → Prop
  | _, [] => True
  | h, args :: rest =>
      (∀ sent ∈ (ops.call args h).1, readAt sent.header 16 4 = Word.toBytes v) ∧
        CallsCarry v (ops.call args h).2 rest

/-- The handle is for the greatest version that both have, and there is none without one. -/
structure Negotiated (S : Set (BitVec 32)) (versLow versHigh : BitVec 32)
    (r : CreateVersEnd σ) : Prop where
  common : ∀ v ∈ S, versLow ≤ v → v ≤ versHigh →
    ∃ clnt out, r.clnt = some clnt ∧ r.versOut = some out ∧
      IsGreatest { u | u ∈ S ∧ versLow ≤ u ∧ u ≤ versHigh } out ∧
      ∀ calls, ops.CallsCarry out clnt calls
  disjoint : (∀ v ∈ S, ¬ (versLow ≤ v ∧ v ≤ versHigh)) →
    r.clnt = none ∧ r.destroyed = true ∧
      ∃ reVers, r.createerr = some (.replied (.progVersMismatch reVers))

end ClntKindOps

/-! ### The server -/

/-- A server of some versions: the null procedure of any other is answered with their bounds. -/
structure ServesVersions (S : Set (BitVec 32)) (answer : BitVec 32 → RpcErr) : Prop where
  success : ∀ v ∈ S, answer v = .success
  mismatch : ∀ v ∉ S, ∃ minvers maxvers, IsLeast S minvers ∧ IsGreatest S maxvers ∧
    answer v = .progVersMismatch { low := minvers, high := maxvers }

/-- The answer of `svc_getreq_common`, where every dispatch routine answers its null procedure. -/
def nullAnswer {δ : Type} (prog : BitVec 32) (svcHead : List (SvcCallout δ)) (vers : BitVec 32) :
    RpcErr :=
  seterrReply <|
    match serviceOf prog vers svcHead with
    | .dispatch _ => accepted success { low := 0, high := 0 }
    | .progvers lowVers highVers => accepted progMismatch { low := lowVers, high := highVers }
    | .noprog => accepted progUnavail { low := 0, high := 0 }

theorem servesVersions_nullAnswer {δ : Type} {prog : BitVec 32} {svcHead : List (SvcCallout δ)}
    (h : (versions prog svcHead).Nonempty) :
    ServesVersions (versions prog svcHead) (nullAnswer prog svcHead) where
  success := by
    rintro v ⟨s, hMem, hProg, hVers⟩
    rcases hFind : svcFind prog v none svcHead with - | ⟨before, t, behind⟩
    · exact absurd (for_none.mpr ⟨hProg, hVers⟩) (svcFind_eq_none.mp hFind s hMem)
    · have hRun : serviceOf prog v svcHead = .dispatch t.scDispatch := getreqFind_of_svcFind hFind
      rw [nullAnswer, hRun]
      rfl
  mismatch := by
    intro v hv
    have hNone : ∀ s ∈ svcHead, s.scProg = prog → s.scVers ≠ v := fun s hMem hProg hVers =>
      hv ⟨s, hMem, hProg, hVers⟩
    rcases serviceOf_of_unregistered hNone with ⟨-, hEmpty⟩ | ⟨minvers, maxvers, hRun, hMin, hMax⟩
    · exact absurd hEmpty h.ne_empty
    · refine ⟨minvers, maxvers, hMin, hMax, ?_⟩
      rw [nullAnswer, hRun]
      rfl

/-! ### What is agreed on -/

/-- The upper end of a range is a version of the server, or none of its versions is above it, or
none is within the range. -/
def EndShows (S : Set (BitVec 32)) (versLow versHigh : BitVec 32) : Prop :=
  versHigh ∈ S ∨ (∀ v ∈ S, v ≤ versHigh) ∨ ∀ v ∈ S, ¬ (versLow ≤ v ∧ v ≤ versHigh)

namespace ClntKindOps

variable {σ κ : Type} {ops : ClntKindOps σ κ} {order : Word.ByteOrder}
  {inv : BitVec 32 → σ → Prop} {S : Set (BitVec 32)} {answer : BitVec 32 → RpcErr}
  {versLow versHigh v w : BitVec 32} {clnt : σ}

/-- What a kind of client makes of the version of a handle. -/
structure TracksVers (ops : ClntKindOps σ κ) (order : Word.ByteOrder)
    (inv : BitVec 32 → σ → Prop) : Prop where
  word : ∀ {v clnt}, inv v clnt → Word.ntohl order (ops.word 16 clnt) = v
  control : ∀ {w clnt} (v), inv w clnt →
    ∃ r, ops.control (.clsetVers v) true clnt = some r ∧ inv v r.2.2
  call : ∀ {v clnt} (args), inv v clnt →
    (∀ sent ∈ (ops.call args clnt).1, readAt sent.header 16 4 = Word.toBytes v) ∧
      inv v (ops.call args clnt).2

namespace TracksVers

theorem callsCarry (h : ops.TracksVers order inv) (hClnt : inv v clnt) (calls : List κ) :
    ops.CallsCarry v clnt calls := by
  induction calls generalizing clnt with
  | nil => trivial
  | cons args calls ih =>
      obtain ⟨hSent, hNext⟩ := h.call args hClnt
      exact ⟨hSent, ih hNext⟩

theorem nullCall (h : ops.TracksVers order inv) (answer : BitVec 32 → RpcErr)
    (hClnt : inv v clnt) (args : κ) :
    (ops.nullCall order answer args clnt).1 = .replied (answer v) ∧
      inv v (ops.nullCall order answer args clnt).2 := by
  refine ⟨?_, (h.call args hClnt).2⟩
  rw [ClntKindOps.nullCall, h.word hClnt]

/-- A probe of a version that there is. -/
theorem createVersAgain_of_mem (h : ops.TracksVers order inv) (hServer : ServesVersions S answer)
    (hClnt : inv w clnt) (hv : v ∈ S) (probe : κ) :
    ∃ clnt', inv v clnt' ∧ ops.createVersAgain order answer probe clnt v =
      { clnt := some clnt', versOut := some v, createerr := none, destroyed := false } := by
  obtain ⟨r, hRun, hInv⟩ := h.control v hClnt
  obtain ⟨hStat, hNext⟩ := h.nullCall answer hInv probe
  rw [hServer.success v hv] at hStat
  refine ⟨_, hNext, ?_⟩
  rw [createVersAgain, hRun]
  dsimp only
  rw [if_pos hStat]

theorem createVersAgain_of_notMem (h : ops.TracksVers order inv)
    (hServer : ServesVersions S answer) (hClnt : inv w clnt) (hv : v ∉ S) (probe : κ) :
    ∃ reVers, ops.createVersAgain order answer probe clnt v =
      createVersError (.replied (.progVersMismatch reVers)) := by
  obtain ⟨r, hRun, hInv⟩ := h.control v hClnt
  obtain ⟨hStat, -⟩ := h.nullCall answer hInv probe
  obtain ⟨minvers, maxvers, -, -, hAnswer⟩ := hServer.mismatch v hv
  rw [hAnswer] at hStat
  refine ⟨{ low := minvers, high := maxvers }, ?_⟩
  rw [createVersAgain, hRun]
  dsimp only
  rw [hStat, if_neg nofun]

/-- A handle of the greatest common version is what is asked for. -/
theorem negotiated (h : ops.TracksVers order inv) (hClnt : inv v clnt)
    (hBest : IsGreatest { u | u ∈ S ∧ versLow ≤ u ∧ u ≤ versHigh } v) :
    ops.Negotiated S versLow versHigh
      { clnt := some clnt, versOut := some v, createerr := none, destroyed := false } where
  common _ _ _ _ := ⟨clnt, v, rfl, rfl, hBest, h.callsCarry hClnt⟩
  disjoint hNone := absurd hBest.1.2 (hNone v hBest.1.1)

end TracksVers

theorem negotiated_error_iff (reVers : Versions) :
    ops.Negotiated S versLow versHigh (createVersError (.replied (.progVersMismatch reVers))) ↔
      ∀ v ∈ S, ¬ (versLow ≤ v ∧ v ≤ versHigh) := by
  constructor
  · rintro h v hv ⟨hLow, hHigh⟩
    obtain ⟨clnt, -, hBad, -⟩ := h.common v hv hLow hHigh
    cases hBad
  · intro h
    exact ⟨fun v hv hLow hHigh => absurd ⟨hLow, hHigh⟩ (h v hv), fun _ => ⟨rfl, rfl, _, rfl⟩⟩

/-- The two probes find the greatest common version where the upper end shows it. -/
theorem TracksVers.negotiated_iff (h : ops.TracksVers order inv)
    (hServer : ServesVersions S answer) (hRange : versLow ≤ versHigh) (hClnt : inv versHigh clnt)
    (probes : Nat → κ) :
    ops.Negotiated S versLow versHigh
        (ops.clntCreateVers order answer probes (some clnt) versLow versHigh) ↔
      EndShows S versLow versHigh := by
  obtain ⟨hStat, hNext⟩ := h.nullCall answer hClnt (probes 0)
  unfold clntCreateVers
  dsimp only
  by_cases hEnd : versHigh ∈ S
  · rw [hStat, hServer.success _ hEnd]
    exact iff_of_true
      (h.negotiated hNext ⟨⟨hEnd, hRange, BitVec.le_refl _⟩, fun u hu => hu.2.2⟩) (Or.inl hEnd)
  · obtain ⟨minvers, maxvers, hMin, hMax, hAnswer⟩ := hServer.mismatch _ hEnd
    have hLeMax : ∀ v ∈ S, v ≤ maxvers := fun v hv => hMax.2 hv
    have hMinLe : ∀ v ∈ S, minvers ≤ v := fun v hv => hMin.2 hv
    rw [hStat, hAnswer]
    dsimp only
    generalize hLowest : (if minvers > versLow then minvers else versLow) = lowest
    by_cases hBelow : maxvers < versHigh
    · -- The range of the server ends first: its last version is probed.
      have hAll : ∀ v ∈ S, v ≤ versHigh := fun v hv =>
        BitVec.le_trans (hLeMax v hv) (BitVec.le_of_lt hBelow)
      refine iff_of_true ?_ (Or.inr (Or.inl hAll))
      rw [if_pos hBelow]
      split
      · next hApart =>
          rw [negotiated_error_iff]
          rintro v hv ⟨hLow, -⟩
          have hLe := hLeMax v hv
          have hMinMax := hMinLe maxvers hMax.1
          split at hLowest <;> bv_omega
      · next hMeet =>
          obtain ⟨clnt', hInv, hRun⟩ := h.createVersAgain_of_mem hServer hNext hMax.1 (probes 1)
          rw [hRun]
          refine h.negotiated hInv ⟨⟨hMax.1, ?_, BitVec.le_of_lt hBelow⟩, fun u hu => hLeMax u hu.1⟩
          split at hLowest <;> bv_omega
    · -- There is a version above the end, which is no version itself.
      have hAbove : ¬ ∀ v ∈ S, v ≤ versHigh := by
        intro hAll
        have hLe := hAll maxvers hMax.1
        have hEq : maxvers = versHigh := by bv_omega
        exact hEnd (hEq ▸ hMax.1)
      have hError : ∃ reVers, (if lowest > versHigh then
            createVersError (.replied (.progVersMismatch { low := minvers, high := maxvers }))
          else ops.createVersAgain order answer (probes 1)
            (ops.nullCall order answer (probes 0) clnt).2 versHigh) =
          createVersError (.replied (.progVersMismatch reVers)) := by
        split
        · exact ⟨_, rfl⟩
        · exact h.createVersAgain_of_notMem hServer hNext hEnd (probes 1)
      obtain ⟨reVers, hRun⟩ := hError
      rw [if_neg hBelow, hRun, negotiated_error_iff, EndShows]
      exact ⟨fun hNone => Or.inr (Or.inr hNone), fun hShows =>
        (hShows.resolve_left hEnd).resolve_left hAbove⟩

end ClntKindOps

/-! ### The two kinds of client -/

/-- What is set at a handle of a version, whatever else it is for. -/
def versSetting (v : BitVec 32) : Settings := fun a => if a = .vers then some (.word v) else none

theorem word_clntCreate (order : Word.ByteOrder) (kind : ClntKind) (xid prog vers : BitVec 32) :
    Word.ntohl order ((clntCreate kind xid prog vers).word order 16) = vers := by
  have hRead : readAt (clntCreate kind xid prog vers).mcallc 16 4 = Word.toBytes vers := rfl
  unfold Word.ntohl ClntHandle.word
  rw [hRead, Word.store_load order rfl, Word.ofBytes_toBytes]

theorem CuData.shows_versSetting {order : Word.ByteOrder} {cu : CuData} {v : BitVec 32} :
    cu.Shows order (versSetting v) ↔ Word.ntohl order (cu.header.word order 16) = v := by
  constructor
  · intro h
    exact ControlInfo.word.inj (h .vers (.word v) rfl).2
  · rintro rfl a u hSet
    cases a <;> cases hSet
    exact ⟨nofun, rfl⟩

theorem CtData.shows_versSetting {order : Word.ByteOrder} {ct : CtData} {v : BitVec 32} :
    ct.Shows order (versSetting v) ↔ Word.ntohl order (ct.header.word order 16) = v := by
  constructor
  · intro h
    exact ControlInfo.word.inj (Option.some.inj (h.attr .vers (.word v) rfl).2.2)
  · rintro rfl
    refine ⟨fun a u hSet => ?_, nofun⟩
    cases a <;> cases hSet
    exact ⟨nofun, nofun, rfl⟩

theorem dgClient_tracksVers (order : Word.ByteOrder) :
    (dgClient order).TracksVers order fun v cu => cu.Shows order (versSetting v) where
  word h := CuData.shows_versSetting.mp h
  control {w cu} v _ := ⟨_, rfl, CuData.shows_versSetting.mpr
    ((congrArg (Word.ntohl order) (cu.header.word_setWord (by decide) _)).trans
      (Word.ntohl_htonl order v))⟩
  call args hClnt := by
    obtain ⟨hCarries, hShows⟩ := (dgClient_keeps order).call args hClnt
    exact ⟨fun sent hSent => (hCarries sent hSent).vers _ rfl, hShows⟩

theorem vcClient_tracksVers (order : Word.ByteOrder) (ρ : Type) :
    (vcClient order ρ).TracksVers order fun v ct => ct.Shows order (versSetting v) where
  word h := CtData.shows_versSetting.mp h
  control {w ct} v _ := ⟨_, rfl, CtData.shows_versSetting.mpr
    ((congrArg (Word.ntohl order) (ct.header.word_setWord (by decide) _)).trans
      (Word.ntohl_htonl order v))⟩
  call args hClnt := by
    obtain ⟨hCarries, hShows⟩ := (vcClient_keeps order ρ).call args hClnt
    exact ⟨fun sent hSent => (hCarries sent hSent).vers _ rfl, hShows⟩

/-- With either kind of client the greatest common version is found wherever the upper end of the
range shows it. -/
theorem clntCreateVers_negotiated_iff (order : Word.ByteOrder) (ρ : Type) {S : Set (BitVec 32)}
    {answer : BitVec 32 → RpcErr} (hServer : ServesVersions S answer)
    {versLow versHigh : BitVec 32} (hRange : versLow ≤ versHigh) (xid prog : BitVec 32)
    (cu : CuData) (ct : CtData) (probes : Nat → DgCallArgs) (probes' : Nat → VcCallArgs ρ) :
    ((dgClient order).Negotiated S versLow versHigh
        ((dgClient order).clntCreateVers order answer probes
          (some { cu with header := clntCreate .dg xid prog versHigh }) versLow versHigh) ↔
      EndShows S versLow versHigh) ∧
    ((vcClient order ρ).Negotiated S versLow versHigh
        ((vcClient order ρ).clntCreateVers order answer probes'
          (some { ct with header := clntCreate .vc xid prog versHigh }) versLow versHigh) ↔
      EndShows S versLow versHigh) := by
  have hDg : CuData.Shows order (versSetting versHigh)
      { cu with header := clntCreate .dg xid prog versHigh } :=
    CuData.shows_versSetting.mpr (word_clntCreate order .dg xid prog versHigh)
  have hVc : CtData.Shows order (versSetting versHigh)
      { ct with header := clntCreate .vc xid prog versHigh } :=
    CtData.shows_versSetting.mpr (word_clntCreate order .vc xid prog versHigh)
  exact ⟨(dgClient_tracksVers order).negotiated_iff hServer hRange hDg probes,
    (vcClient_tracksVers order ρ).negotiated_iff hServer hRange hVc probes'⟩

/-- A services list with the first and the third version of a program. -/
def gapCallouts : List (SvcCallout Unit) :=
  [{ scProg := 100000, scVers := 1, scNetid := none, scDispatch := () },
    { scProg := 100000, scVers := 3, scNetid := none, scDispatch := () }]

theorem versions_gapCallouts : versions 100000 gapCallouts = {1, 3} := by
  ext v
  simp [versions, gapCallouts, eq_comm]

theorem servesVersions_gapCallouts :
    ServesVersions (versions 100000 gapCallouts) (nullAnswer 100000 gapCallouts) :=
  servesVersions_nullAnswer ⟨1, _, List.mem_cons_self, rfl, rfl⟩

/-- The null procedure, called by either kind of client. -/
def nullProbe : DgCallArgs where
  req := nullRequest ⟨10, 0⟩
  passes _ := plainPass []
  starttime := Timeval.zero

def nullProbe' : VcCallArgs (BitVec 32) where
  req := (VcHandle.plainCall VcHandle.silence).req
  passes := (VcHandle.plainCall VcHandle.silence).passes
  timeout := ⟨10, 0⟩

/-- A connection-oriented client. -/
def connectedCt : CtData where
  toVcHandle := VcHandle.newHandle
  ctFd := 3
  ctCloseit := false
  ctWait := ⟨-1, -1⟩
  ctWaitset := false
  ctAddr := []

/-- The whole range of the server is asked for. -/
theorem clntCreateVers_negotiated_whole :
    (dgClient .big).Negotiated (versions 100000 gapCallouts) 1 3
        ((dgClient .big).clntCreateVers .big (nullAnswer 100000 gapCallouts) (fun _ => nullProbe)
          (some { retryingCu ⟨0, 100000⟩ with header := clntCreate .dg 9 100000 3 }) 1 3) ∧
      (vcClient .big (BitVec 32)).Negotiated (versions 100000 gapCallouts) 1 3
        ((vcClient .big (BitVec 32)).clntCreateVers .big (nullAnswer 100000 gapCallouts)
          (fun _ => nullProbe')
          (some { connectedCt with header := clntCreate .vc 9 100000 3 }) 1 3) := by
  have hShows : EndShows (versions 100000 gapCallouts) 1 3 := by
    rw [versions_gapCallouts]
    exact Or.inl (Or.inr rfl)
  have hRange : (1 : BitVec 32) ≤ 3 := by decide
  have hBoth := clntCreateVers_negotiated_iff .big (BitVec 32) servesVersions_gapCallouts hRange
    9 100000 (retryingCu ⟨0, 100000⟩) connectedCt (fun _ => nullProbe) (fun _ => nullProbe')
  exact ⟨hBoth.1.mpr hShows, hBoth.2.mpr hShows⟩

/-- The first version is common, and it is not found below the second. -/
theorem not_clntCreateVers_negotiated :
    ¬ ∀ (S : Set (BitVec 32)) (answer : BitVec 32 → RpcErr), ServesVersions S answer →
      ∀ versLow versHigh, versLow ≤ versHigh → ∀ (xid prog : BitVec 32) (cu : CuData)
        (probes : Nat → DgCallArgs), (dgClient .big).Negotiated S versLow versHigh
          ((dgClient .big).clntCreateVers .big answer probes
            (some { cu with header := clntCreate .dg xid prog versHigh }) versLow versHigh) := by
  intro h
  have hFound := h _ _ servesVersions_gapCallouts 1 2 (by decide) 9 100000
    (retryingCu ⟨0, 100000⟩) fun _ => nullProbe
  obtain ⟨clnt, -, hSome, -⟩ := hFound.common 1 (by rw [versions_gapCallouts]; exact Or.inl rfl)
    (by decide) (by decide)
  have hNone : ((dgClient .big).clntCreateVers .big (nullAnswer 100000 gapCallouts)
      (fun _ => nullProbe)
      (some { retryingCu ⟨0, 100000⟩ with header := clntCreate .dg 9 100000 2 }) 1 2).clnt.isNone =
        true := by
    decide +kernel
  rw [hSome] at hNone
  cases hNone

end OncRpc
