import OncRpc.Base.Exclusive
import OncRpc.Sthread.Tls

/-! When the destructor of a key gets the data of that key only. -/
namespace OncRpc.Sthread

open Runs Exclusive

/-- The slot is active, and its key is not there yet. -/
def KeyCreatePc.underway (pc : KeyCreatePc) : Bool := pc.slot?.isSome && pc.key?.isNone

/-- The destructor `d` is still to be called for what there is at the index `k`. -/
def Cleanup.Watches (c : Cleanup) (d k : Nat) : Prop :=
  (∀ rounds, c.pc ≠ .ended rounds) ∧
    ∃ a ∈ c.snapshot, a.active = true ∧ a.destructor = some d ∧ a.key = k

/-- The destructor was given for the key that the thread has stored the value under. -/
def DestructorCall.Right (c : DestructorCall) (given : List (Option Nat)) : Prop :=
  ∃ data g serial, c.value = .stored data c.thread g serial ∧ given[g]? = some (some c.destructor)

namespace Tls

/-- The condition on a step: no snapshot is taken while a key with a destructor is being created,
`pthread_key_delete` does not come upon the slot of a key that is being created, and a thread whose
data is being destroyed stores none at an index that was handed out since, if it was that of a key
with a destructor before. -/
def Meets (s : Tls) : TlsEvent → Prop
  | .exit thread => (s.exits thread).pc = .idle →
      ∀ i, (s.creates i).pc.underway = true → (s.creates i).destructor = none
  | .delete _ key => ∀ i slot, findKey s.tlskeys key = some slot →
      (s.creates i).pc.slot? = some slot → (s.creates i).pc.underway = false
  | .setspecific thread key data ok => ok = true → data ≠ 0 → ∀ d,
      (s.exits thread).Watches d key → ∃ g, s.owner key = some g ∧ g < (s.exits thread).since
  | _ => True

/-- A destructor gets what the thread has stored under a key that it was given for, and that once.
The cleanup of a thread has come to its end after so many rounds, of so many slots, and no two keys
have the same slot or the same index. -/
structure Sound (s : Tls) : Prop where
  own : ∀ c ∈ s.calls, c.Right s.given
  once : (s.calls.map DestructorCall.value).Nodup
  rounds : ∀ t n, (s.exits t).pc = .ended n → n ≤ pthreadDestructorIterations
  ends : ∀ t, (s.exits t).taken ≤ 1 + 2 * (pthreadMaxKeys * pthreadDestructorIterations)
  apart : ∀ i j slot slot' index index', i ≠ j → (s.creates i).pc = .created slot index →
    (s.creates j).pc = .created slot' index' → slot ≠ slot' ∧ index ≠ index'

/-! ### The table -/

end Tls

/-- The slot that a creation holds is active, with its destructor, and with its key at the end. -/
def KeyCreate.Has (c : KeyCreate) (tlskeys : List TlsAtom) : Prop :=
  ∀ slot, c.pc.slot? = some slot → ∃ a, tlskeys[slot]? = some a ∧ a.active = true ∧
    a.destructor = c.destructor ∧ ∀ k, c.pc.key? = some k → a.key = k

/-- The index that a creation holds was handed out with its destructor. -/
def KeyCreate.Owns (c : KeyCreate) (owner : Nat → Option Nat) (given : List (Option Nat)) : Prop :=
  ∀ k, c.pc.index? = some k → ∃ g, owner k = some g ∧ given[g]? = some c.destructor

/-- The index that is to be freed. -/
def KeyDeletePc.index? : KeyDeletePc → Option Nat
  | .freeing index => some index
  | _ => none

/-- Who has which slot and which index. -/
structure TableInv (tlskeys : List TlsAtom) (creates : Nat → KeyCreate)
    (deletes : Nat → KeyDeletePc) (owner : Nat → Option Nat) (given : List (Option Nat)) :
    Prop where
  has : ∀ i, (creates i).Has tlskeys
  held : ∀ (slot : Nat) (a : TlsAtom), tlskeys[slot]? = some a → a.active = true →
    ∃ i, (creates i).pc.slot? = some slot
  slots : Held fun i => (creates i).pc.slot?
  owns : ∀ i, (creates i).Owns owner given
  indexes : Held fun i => (creates i).pc.index?
  freeing : ∀ i k, (deletes i).index? = some k →
    owner k ≠ none ∧ ∀ j, (creates j).pc.index? ≠ some k
  freeings : Held fun i => (deletes i).index?
  counted : ∀ k g, owner k = some g → g < given.length

variable {tlskeys tlskeys' : List TlsAtom} {creates : Nat → KeyCreate}
  {deletes : Nat → KeyDeletePc} {owner owner' : Nat → Option Nat} {given given' : List (Option Nat)}

/-- A creation goes on: it keeps its slot and its index, takes such as nobody has, or drops them. -/
theorem TableInv.proceed (h : TableInv tlskeys creates deletes owner given) {i : Nat}
    {c : KeyCreate} (hHas : c.Has tlskeys') (hOwns : c.Owns owner' given')
    (hSlot : ∀ slot, c.pc.slot? = some slot → (creates i).pc.slot? = some slot ∨
      ∃ a, tlskeys[slot]? = some a ∧ a.active = false)
    (hTable : ∀ slot, (creates i).pc.slot? ≠ some slot → c.pc.slot? ≠ some slot →
      tlskeys'[slot]? = tlskeys[slot]?)
    (hLeft : ∀ (slot : Nat) (a : TlsAtom), (creates i).pc.slot? = some slot →
      tlskeys'[slot]? = some a → a.active = true → c.pc.slot? = some slot)
    (hIndex : ∀ k, c.pc.index? = some k → (creates i).pc.index? = some k ∨ owner k = none)
    (hOwner : ∀ k g, owner k = some g → owner' k = some g)
    (hGiven : ∀ (g : Nat) (d : Option Nat), given[g]? = some d → given'[g]? = some d)
    (hCounted : ∀ k g, owner' k = some g → g < given'.length) :
    TableInv tlskeys' (Function.update creates i c) deletes owner' given' := by
  have hNewSlot : ∀ slot, c.pc.slot? = some slot → ∀ j, j ≠ i →
      (creates j).pc.slot? ≠ some slot := by
    intro slot hc j hNe hj
    rcases hSlot slot hc with hi | ⟨a, ha, hInactive⟩
    · exact hNe (h.slots j i slot hj hi)
    · obtain ⟨a', ha', hActive, -⟩ := h.has j slot hj
      rw [ha, Option.some.injEq] at ha'
      rw [← ha', hInactive] at hActive
      cases hActive
  have hNewIndex : ∀ k, c.pc.index? = some k → ∀ j, j ≠ i →
      (creates j).pc.index? ≠ some k := by
    intro k hc j hNe hj
    rcases hIndex k hc with hi | hFree
    · exact hNe (h.indexes j i k hj hi)
    · obtain ⟨g, hg, -⟩ := h.owns j k hj
      rw [hFree] at hg
      cases hg
  constructor
  · refine forall_update (P := fun _ (c : KeyCreate) => c.Has tlskeys') hHas ?_
    intro j hNe slot hj
    rw [hTable slot]
    · exact h.has j slot hj
    · exact fun hi => hNe (h.slots j i slot hj hi)
    · exact fun hc => hNewSlot slot hc j hNe hj
  · intro slot a ha hActive
    by_cases hc : c.pc.slot? = some slot
    · exact ⟨i, by rw [Function.update_self, hc]⟩
    · have hNot : (creates i).pc.slot? ≠ some slot := fun hi => hc (hLeft slot a hi ha hActive)
      rw [hTable slot hNot hc] at ha
      obtain ⟨j, hj⟩ := h.held slot a ha hActive
      have hNe : j ≠ i := by
        rintro rfl
        exact hNot hj
      exact ⟨j, by rw [Function.update_of_ne hNe, hj]⟩
  · exact Held.update (fun c : KeyCreate => c.pc.slot?) h.slots hNewSlot
  · refine forall_update (P := fun _ (c : KeyCreate) => c.Owns owner' given') hOwns ?_
    intro j _ k hk
    obtain ⟨g, hg, hd⟩ := h.owns j k hk
    exact ⟨g, hOwner k g hg, hGiven g _ hd⟩
  · exact Held.update (fun c : KeyCreate => c.pc.index?) h.indexes hNewIndex
  · intro j k hj
    obtain ⟨hSome, hOther⟩ := h.freeing j k hj
    constructor
    · obtain ⟨g, hg⟩ := Option.ne_none_iff_exists'.mp hSome
      rw [hOwner k g hg]
      exact nofun
    · refine forall_update (P := fun _ (c : KeyCreate) => c.pc.index? ≠ some k) ?_
        fun j' _ => hOther j'
      intro hc
      rcases hIndex k hc with hi | hFree
      · exact hOther i hi
      · exact hSome hFree
  · exact h.freeings
  · exact hCounted

/-- A creation goes on without the table and the system, and keeps its slot. -/
theorem TableInv.goOn (h : TableInv tlskeys creates deletes owner given) {i : Nat}
    {pc : KeyCreatePc} (hSlot : pc.slot? = (creates i).pc.slot?)
    (hIndex : ∀ k, pc.index? = some k → (creates i).pc.index? = some k) (hKey : pc.key? = none) :
    TableInv tlskeys (Function.update creates i { creates i with pc := pc }) deletes owner
      given := by
  refine h.proceed ?_ (fun k hk => h.owns i k (hIndex k hk)) ?_ (fun _ _ _ => rfl) ?_
    (fun k hk => Or.inl (hIndex k hk)) (fun _ _ => id) (fun _ _ => id) h.counted
  · intro slot hc
    obtain ⟨a, ha, hActive, hGiven, -⟩ := h.has i slot (hSlot.symm.trans hc)
    refine ⟨a, ha, hActive, hGiven, fun k hk => ?_⟩
    rw [hKey] at hk
    cases hk
  · exact fun slot hc => Or.inl (hSlot.symm.trans hc)
  · exact fun slot a hi _ _ => hSlot.trans hi

theorem KeyCreatePc.index?_of_key? {pc : KeyCreatePc} {k : Nat} (h : pc.key? = some k) :
    pc.index? = some k := by
  cases pc with
  | created slot index => exact h
  | _ => cases h

/-- A deletion is over, or has not found anything. -/
theorem TableInv.done (h : TableInv tlskeys creates deletes owner given) (i : Nat) (found : Bool) :
    TableInv tlskeys creates (Function.update deletes i (.done found)) owner given where
  has := h.has
  held := h.held
  slots := h.slots
  owns := h.owns
  indexes := h.indexes
  freeing := forall_update
    (P := fun _ pc => ∀ k, KeyDeletePc.index? pc = some k → owner k ≠ none ∧
      ∀ j, (creates j).pc.index? ≠ some k) nofun fun j _ => h.freeing j
  freeings := Held.update KeyDeletePc.index? h.freeings nofun
  counted := h.counted

/-- An index is to be freed that nobody has any more. -/
theorem TableInv.free (h : TableInv tlskeys creates deletes owner given) (i : Nat) {k : Nat}
    (hOwner : owner k ≠ none) (hNone : ∀ j, (creates j).pc.index? ≠ some k)
    (hFree : ∀ j, (deletes j).index? ≠ some k) :
    TableInv tlskeys creates (Function.update deletes i (.freeing k)) owner given where
  has := h.has
  held := h.held
  slots := h.slots
  owns := h.owns
  indexes := h.indexes
  freeing := by
    refine forall_update
      (P := fun _ pc => ∀ k, KeyDeletePc.index? pc = some k → owner k ≠ none ∧
        ∀ j, (creates j).pc.index? ≠ some k) ?_ fun j _ => h.freeing j
    intro k' hk
    obtain rfl := Option.some.inj hk
    exact ⟨hOwner, hNone⟩
  freeings := by
    refine Held.update KeyDeletePc.index? h.freeings fun k' hk j _ => ?_
    obtain rfl := Option.some.inj hk
    exact hFree j
  counted := h.counted

/-- An index is freed that nobody had any more. -/
theorem TableInv.freed (h : TableInv tlskeys creates deletes owner given) {i k : Nat}
    (hFreeing : (deletes i).index? = some k) :
    TableInv tlskeys creates (Function.update deletes i (.done true)) (Function.update owner k none)
      given := by
  have hDone := h.done i true
  obtain ⟨-, hNone⟩ := h.freeing i k hFreeing
  have hOther : ∀ k', k' ≠ k → Function.update owner k none k' = owner k' :=
    fun k' hNe => Function.update_of_ne hNe ..
  refine { hDone with owns := ?_, freeing := ?_, counted := ?_ }
  · intro j k' hk
    rw [hOther k' fun hEq => hNone j (hEq ▸ hk)]
    exact h.owns j k' hk
  · intro j k' hj
    rw [hOther]
    · exact hDone.freeing j k' hj
    · rintro rfl
      rcases eq_or_ne j i with rfl | hNe
      · rw [Function.update_self] at hj
        cases hj
      · rw [Function.update_of_ne hNe] at hj
        exact hNe (h.freeings j i k' hj hFreeing)
  · intro k' g hg
    rcases eq_or_ne k' k with rfl | hNe
    · rw [Function.update_self] at hg
      cases hg
    · rw [hOther k' hNe] at hg
      exact h.counted k' g hg

/-- What a modified table has at another slot. -/
theorem getElem?_modify_of_ne {slot idx : Nat} (f : TlsAtom → TlsAtom) (h : slot ≠ idx) :
    (tlskeys.modify idx f)[slot]? = tlskeys[slot]? :=
  List.getElem?_modify_ne f tlskeys h.symm

namespace Tls

/-- Who has what, in a state. -/
def Table (s : Tls) : Prop := TableInv s.tlskeys s.creates s.deletes s.owner s.given

variable {s : Tls}

theorem Table.create (h : s.Table) (i thread : Nat) (destructor : Option Nat) :
    (s.create i thread destructor).Table := by
  unfold Tls.create
  split
  · next hPc =>
      have hNone : (s.creates i).pc.slot? = none := by rw [hPc]; rfl
      split
      · next idx hFree =>
          obtain ⟨hLt, hInactive, -⟩ := List.findIdx?_eq_some_iff_getElem.mp hFree
          have hSlot := List.getElem?_eq_getElem hLt
          refine TableInv.proceed h ?_ nofun ?_ ?_ ?_ nofun (fun _ _ => id) (fun _ _ => id)
            h.counted
          · intro slot hc
            obtain rfl := Option.some.inj hc
            refine ⟨{ s.tlskeys[idx] with destructor := destructor, active := true }, ?_, rfl, rfl,
              nofun⟩
            rw [List.getElem?_modify_eq, hSlot]
            rfl
          · intro slot hc
            obtain rfl := Option.some.inj hc
            exact Or.inr ⟨_, hSlot, by simpa using hInactive⟩
          · exact fun slot _ hc => getElem?_modify_of_ne _ fun hEq => hc (congrArg some hEq.symm)
          · intro slot a hi
            rw [hNone] at hi
            cases hi
      · refine TableInv.proceed h nofun nofun nofun (fun _ _ _ => rfl) ?_ nofun (fun _ _ => id)
          (fun _ _ => id) h.counted
        intro slot a hi
        rw [hNone] at hi
        cases hi
  · exact h

theorem Table.tlsAlloc (h : s.Table) (i : Nat) (index : Option Nat) :
    (s.tlsAlloc i index).Table := by
  unfold Tls.tlsAlloc
  split
  · next hPc => exact TableInv.goOn h (by rw [hPc]; rfl) nofun rfl
  · next idx k hPc =>
      split
      · next hFree =>
          have hSlot : (s.creates i).pc.slot? = some idx := by rw [hPc]; rfl
          have hOther : ∀ k' g, s.owner k' = some g →
              Function.update s.owner k (some s.given.length) k' = some g := by
            intro k' g hg
            rw [Function.update_of_ne, hg]
            rintro rfl
            rw [hFree.2] at hg
            cases hg
          have hCounted : ∀ k' g, Function.update s.owner k (some s.given.length) k' = some g →
              g < (s.given ++ [(s.creates i).destructor]).length := by
            intro k' g hg
            rw [List.length_append, List.length_singleton]
            rcases eq_or_ne k' k with rfl | hNe
            · rw [Function.update_self, Option.some.injEq] at hg
              omega
            · rw [Function.update_of_ne hNe] at hg
              exact Nat.lt_succ_of_lt (h.counted k' g hg)
          refine TableInv.proceed h ?_ ?_ ?_ (fun _ _ _ => rfl) ?_ ?_ hOther ?_ hCounted
          · intro slot hc
            obtain ⟨a, ha, hActive, hGiven, -⟩ := h.has i slot (hSlot.trans hc)
            exact ⟨a, ha, hActive, hGiven, nofun⟩
          · intro k' hk
            obtain rfl := Option.some.inj hk
            exact ⟨s.given.length, Function.update_self .., List.getElem?_concat_length⟩
          · exact fun slot hc => Or.inl (hSlot.trans hc)
          · exact fun slot a hi _ _ => hSlot.symm.trans hi
          · intro k' hk
            obtain rfl := Option.some.inj hk
            exact Or.inr hFree.2
          · intro g d hd
            rw [List.getElem?_append_left (List.getElem?_eq_some_iff.mp hd).1, hd]
      · exact h
  · exact h

theorem Table.tlsZero (h : s.Table) (i : Nat) (ok : Bool) : (s.tlsZero i ok).Table := by
  unfold Tls.tlsZero
  split
  · next idx k hPc =>
      split
      · exact TableInv.goOn h (by rw [hPc]; rfl) (fun k' hk => by rw [hPc]; exact hk) rfl
      · exact TableInv.goOn h (by rw [hPc]; rfl) nofun rfl
  · exact h

theorem Table.createEnd (h : s.Table) (i : Nat) : (s.createEnd i).Table := by
  unfold Tls.createEnd
  split
  · next idx hPc =>
      have hSlot : (s.creates i).pc.slot? = some idx := by rw [hPc]; rfl
      refine TableInv.proceed h nofun nofun nofun ?_ ?_ nofun (fun _ _ => id) (fun _ _ => id)
        h.counted
      · exact fun slot hi _ => getElem?_modify_of_ne _ fun hEq => hi (hEq ▸ hSlot)
      · intro slot a hi ha hActive
        obtain rfl := Option.some.inj (hSlot.symm.trans hi)
        obtain ⟨a', ha', -⟩ := h.has i idx hSlot
        rw [List.getElem?_modify_eq, ha'] at ha
        rw [← Option.some.inj ha] at hActive
        cases hActive
  · next idx k hPc =>
      have hSlot : (s.creates i).pc.slot? = some idx := by rw [hPc]; rfl
      have hIndex : (s.creates i).pc.index? = some k := by rw [hPc]; rfl
      refine TableInv.proceed h ?_ ?_ ?_ ?_ ?_ ?_ (fun _ _ => id) (fun _ _ => id) h.counted
      · intro slot hc
        obtain rfl := Option.some.inj hc
        obtain ⟨a, ha, hActive, hGiven, -⟩ := h.has i idx hSlot
        refine ⟨{ a with key := k }, ?_, hActive, hGiven, fun k' hk => Option.some.inj hk⟩
        rw [List.getElem?_modify_eq, ha]
        rfl
      · exact fun k' hk => h.owns i k' (hIndex.trans hk)
      · exact fun slot hc => Or.inl (hSlot.trans hc)
      · exact fun slot hi _ => getElem?_modify_of_ne _ fun hEq => hi (hEq ▸ hSlot)
      · exact fun slot a hi _ _ => hSlot.symm.trans hi
      · exact fun k' hk => Or.inl (hIndex.trans hk)
  · exact h

theorem Table.delete (h : s.Table) {i key : Nat} (hMeets : s.Meets (.delete i key)) :
    (s.delete i key).Table := by
  unfold Tls.delete
  split
  · split
    · next idx hFind =>
        obtain ⟨hLt, hFound, -⟩ := List.findIdx?_eq_some_iff_getElem.mp hFind
        rw [Bool.and_eq_true, beq_iff_eq] at hFound
        have ha := List.getElem?_eq_getElem hLt
        obtain ⟨j, hj⟩ := h.held idx _ ha hFound.1
        obtain ⟨a, ha', -, -, hIs⟩ := h.has j idx hj
        obtain rfl := Option.some.inj (ha.symm.trans ha')
        have hKey : (s.creates j).pc.key? = some key := by
          have hDone := hMeets j idx hFind hj
          rw [KeyCreatePc.underway, hj, Option.isSome_some, Bool.true_and] at hDone
          obtain ⟨k, hk⟩ := Option.isSome_iff_exists.mp (Option.isNone_eq_false_iff.mp hDone)
          rw [hk, ← hIs k hk, hFound.2]
        have hIndex := KeyCreatePc.index?_of_key? hKey
        obtain ⟨g, hg, -⟩ := h.owns j key hIndex
        have hCreates : (fun j' => if (s.creates j').pc.key? = some key
            then { s.creates j' with pc := .deleted } else s.creates j') =
              Function.update s.creates j { s.creates j with pc := .deleted } := by
          funext j'
          rcases eq_or_ne j' j with rfl | hNe
          · rw [if_pos hKey, Function.update_self]
          · rw [if_neg, Function.update_of_ne hNe]
            exact fun hk => hNe (h.indexes j' j key (KeyCreatePc.index?_of_key? hk) hIndex)
        have hNext : TableInv (s.tlskeys.set idx ⟨false, none, 0⟩)
            (Function.update s.creates j { s.creates j with pc := .deleted }) s.deletes s.owner
              s.given := by
          refine TableInv.proceed h nofun nofun nofun ?_ ?_ nofun (fun _ _ => id) (fun _ _ => id)
            h.counted
          · intro slot hi _
            rw [List.getElem?_set_ne]
            rintro rfl
            exact hi hj
          · intro slot a hi ha hActive
            obtain rfl := Option.some.inj (hj.symm.trans hi)
            rw [List.getElem?_set_self hLt] at ha
            rw [← Option.some.inj ha] at hActive
            cases hActive
        have hNone : ∀ j', (Function.update s.creates j
            { s.creates j with pc := .deleted } j').pc.index? ≠ some key := by
          refine forall_update (P := fun _ (c : KeyCreate) => c.pc.index? ≠ some key) nofun ?_
          exact fun j' hNe hj' => hNe (h.indexes j' j key hj' hIndex)
        rw [← hCreates] at hNext hNone
        refine hNext.free i (by rw [hg]; exact nofun) hNone fun j' hj' => ?_
        exact (h.freeing j' key hj').2 j hIndex
    · exact TableInv.done h i false
  · exact h

theorem Table.tlsFree (h : s.Table) (i : Nat) : (s.tlsFree i).Table := by
  unfold Tls.tlsFree
  split
  · next k hPc => exact TableInv.freed h (by rw [hPc]; rfl)
  · exact h

end Tls

/-! ### The data -/

/-- The value was stored before the `n`-th one. -/
def TlsValue.Before (n : Nat) : TlsValue → Prop
  | .other _ => True
  | .stored _ _ _ serial => serial < n

theorem TlsValue.Before.mono {v : TlsValue} {m n : Nat} (h : v.Before m) (hLe : m ≤ n) :
    v.Before n := by
  cases v with
  | other data => trivial
  | stored data t g serial => exact Nat.lt_of_lt_of_le h hLe

/-- What thread `t` is to do at its end: the indexes that it looks at and that were not handed out
since go with the destructors that it calls, it has no data at others, and what it has found is to
be passed for the first time. -/
structure CleanupInv (t : Nat) (c : Cleanup) (owner : Nat → Option Nat) (given : List (Option Nat))
    (values : Nat → Nat → Option TlsValue) (serial : Nat) (calls : List DestructorCall) : Prop where
  since : c.since ≤ given.length
  known : ∀ d k g, c.Watches d k → owner k = some g → g < c.since → given[g]? = some (some d)
  data : ∀ d k v, c.Watches d k → values t k = some v → ∃ g, owner k = some g ∧ g < c.since
  right : ∀ it idx count d v, c.pc = .found it idx count d v →
    DestructorCall.Right ⟨t, d, v⟩ given ∧ v.Before serial
  first : ∀ it idx count d v, c.pc = .found it idx count d v →
    (∀ call ∈ calls, call.value ≠ v) ∧ ∀ t' k, values t' k = some v →
      t' = t ∧ k = (c.snapshot[idx]?.map TlsAtom.key).getD 0

/-- Where the data of all threads comes from, and what became of it. -/
structure ValueInv (owner : Nat → Option Nat) (given : List (Option Nat))
    (values : Nat → Nat → Option TlsValue) (serial : Nat) (calls : List DestructorCall)
    (exits : Nat → Cleanup) : Prop where
  own : ∀ t k v g, values t k = some v → owner k = some g → ∃ data n, v = .stored data t g n
  fresh : ∀ t k v, values t k = some v → v.Before serial
  single : ∀ t k t' k' data u g n, values t k = some (.stored data u g n) →
    values t' k' = some (.stored data u g n) → t = t' ∧ k = k'
  right : ∀ call ∈ calls, call.Right given ∧ call.value.Before serial
  gone : ∀ call ∈ calls, ∀ t k, values t k ≠ some call.value
  once : (calls.map DestructorCall.value).Nodup
  exits : ∀ t, CleanupInv t (exits t) owner given values serial calls

variable {values values' : Nat → Nat → Option TlsValue} {serial : Nat} {calls : List DestructorCall}
  {exits : Nat → Cleanup}

theorem DestructorCall.Right.mono {c : DestructorCall} (h : c.Right given)
    (hGiven : ∀ (g : Nat) (d : Option Nat), given[g]? = some d → given'[g]? = some d) :
    c.Right given' := by
  obtain ⟨data, g, n, hValue, hd⟩ := h
  exact ⟨data, g, n, hValue, hGiven g _ hd⟩

/-- Data goes, and an index of which all data is gone is handed out anew or freed. -/
theorem ValueInv.shrink (h : ValueInv owner given values serial calls exits)
    (hValues : ∀ t k v, values' t k = some v → values t k = some v ∧ owner' k = owner k)
    (hOwner : ∀ k g, owner' k = some g → owner k = some g ∨ given.length ≤ g)
    (hGiven : ∀ (g : Nat) (d : Option Nat), given[g]? = some d → given'[g]? = some d)
    (hLength : given.length ≤ given'.length) :
    ValueInv owner' given' values' serial calls exits where
  own t k v g hv hg := by
    obtain ⟨hOld, hSame⟩ := hValues t k v hv
    exact h.own t k v g hOld (hSame.symm.trans hg)
  fresh t k v hv := h.fresh t k v (hValues t k v hv).1
  single t k t' k' data u g n hv hv' :=
    h.single t k t' k' data u g n (hValues t k _ hv).1 (hValues t' k' _ hv').1
  right call hCall := ⟨(h.right call hCall).1.mono hGiven, (h.right call hCall).2⟩
  gone call hCall t k hv := h.gone call hCall t k (hValues t k _ hv).1
  once := h.once
  exits t := by
    obtain ⟨hSince, hKnown, hData, hRight, hFirst⟩ := h.exits t
    constructor
    · exact Nat.le_trans hSince hLength
    · intro d k g hWatch hg hLt
      rcases hOwner k g hg with hOld | hNew
      · exact hGiven g _ (hKnown d k g hWatch hOld hLt)
      · omega
    · intro d k v hWatch hv
      obtain ⟨hOld, hSame⟩ := hValues t k v hv
      obtain ⟨g, hg, hLt⟩ := hData d k v hWatch hOld
      exact ⟨g, hSame.trans hg, hLt⟩
    · intro it idx count d v hPc
      exact ⟨(hRight it idx count d v hPc).1.mono hGiven, (hRight it idx count d v hPc).2⟩
    · intro it idx count d v hPc
      obtain ⟨hNot, hPlace⟩ := hFirst it idx count d v hPc
      exact ⟨hNot, fun t' k hv => hPlace t' k (hValues t' k v hv).1⟩

theorem Tls.of_place_none {t k t' k' : Nat} {v : TlsValue}
    (hv : Tls.place values t k none t' k' = some v) :
    values t' k' = some v ∧ ¬ (t' = t ∧ k' = k) := by
  rw [Tls.place] at hv
  split at hv
  · cases hv
  · next hApart => exact ⟨hv, hApart⟩

theorem ValueInv.drop (h : ValueInv owner given values serial calls exits) (t k : Nat) :
    ValueInv owner given (Tls.place values t k none) serial calls exits :=
  h.shrink (fun _ _ _ hv => ⟨(Tls.of_place_none hv).1, rfl⟩) (fun _ _ => Or.inl) (fun _ _ => id)
    (Nat.le_refl _)

/-- A thread stores a value that was not there before. -/
theorem ValueInv.put (h : ValueInv owner given values serial calls exits) {t key serial' : Nat}
    {v : TlsValue} (hOwn : ∀ g, owner key = some g → ∃ data n, v = .stored data t g n)
    (hNew : ∀ data u g n, v = .stored data u g n → serial ≤ n) (hBefore : v.Before serial')
    (hLe : serial ≤ serial')
    (hWatch : ∀ d, (exits t).Watches d key → ∃ g, owner key = some g ∧ g < (exits t).since) :
    ValueInv owner given (Tls.place values t key (some v)) serial' calls exits := by
  have hCases : ∀ {t' k v'}, Tls.place values t key (some v) t' k = some v' →
      t' = t ∧ k = key ∧ v' = v ∨ values t' k = some v' := by
    intro t' k v' hv
    rw [Tls.place] at hv
    split at hv
    · next hSame => exact Or.inl ⟨hSame.1, hSame.2, (Option.some.inj hv).symm⟩
    · exact Or.inr hv
  have hOld : ∀ {data u g n}, v = .stored data u g n →
      ¬ (TlsValue.stored data u g n).Before serial := by
    intro data u g n hv
    exact Nat.not_lt.mpr (hNew data u g n hv)
  constructor
  · intro t' k v' g hv hg
    rcases hCases hv with ⟨rfl, rfl, rfl⟩ | hv
    · exact hOwn g hg
    · exact h.own t' k v' g hv hg
  · intro t' k v' hv
    rcases hCases hv with ⟨rfl, rfl, rfl⟩ | hv
    · exact hBefore
    · exact (h.fresh t' k v' hv).mono hLe
  · intro t₁ k₁ t₂ k₂ data u g n hv₁ hv₂
    rcases hCases hv₁ with ⟨ht₁, hk₁, hEq⟩ | h₁ <;> rcases hCases hv₂ with ⟨ht₂, hk₂, hEq'⟩ | h₂
    · exact ⟨ht₁.trans ht₂.symm, hk₁.trans hk₂.symm⟩
    · exact absurd (h.fresh t₂ k₂ _ h₂) (hOld hEq.symm)
    · exact absurd (h.fresh t₁ k₁ _ h₁) (hOld hEq'.symm)
    · exact h.single t₁ k₁ t₂ k₂ data u g n h₁ h₂
  · exact fun call hCall => ⟨(h.right call hCall).1, (h.right call hCall).2.mono hLe⟩
  · intro call hCall t' k hv
    rcases hCases hv with ⟨-, -, hEq⟩ | hv
    · obtain ⟨⟨data, g, n, hValue, -⟩, hOlder⟩ := h.right call hCall
      rw [hValue] at hOlder
      exact hOld (hEq.symm.trans hValue) hOlder
    · exact h.gone call hCall t' k hv
  · exact h.once
  · intro t'
    obtain ⟨hSince, hKnown, hData, hRight, hFirst⟩ := h.exits t'
    constructor
    · exact hSince
    · exact hKnown
    · intro d k v' hw hv
      rcases hCases hv with ⟨rfl, rfl, -⟩ | hv
      · exact hWatch d hw
      · exact hData d k v' hw hv
    · intro it idx count d v' hPc
      exact ⟨(hRight it idx count d v' hPc).1, (hRight it idx count d v' hPc).2.mono hLe⟩
    · intro it idx count d v' hPc
      obtain ⟨hNot, hPlace⟩ := hFirst it idx count d v' hPc
      refine ⟨hNot, fun t₁ k hv => ?_⟩
      rcases hCases hv with ⟨-, -, hEq⟩ | hv
      · obtain ⟨⟨data, g, n, hValue, -⟩, hOlder⟩ := hRight it idx count d v' hPc
        rw [show v' = _ from hValue] at hOlder
        exact absurd hOlder (hOld (hEq.symm.trans hValue))
      · exact hPlace t₁ k hv

/-- The snapshot has no slot of a key that is being created, if the key has a destructor. -/
theorem ValueInv.snapshot (h : ValueInv owner given values serial calls exits)
    (hTable : TableInv tlskeys creates deletes owner given) (t : Nat)
    (hCreated : ∀ i, (creates i).pc.underway = true → (creates i).destructor = none) :
    ValueInv owner given values serial calls
      (Function.update exits t ⟨.scanning 0 0 0, tlskeys, given.length, 1⟩) := by
  have hKnown : ∀ (a : TlsAtom) d, a ∈ tlskeys → a.active = true → a.destructor = some d →
      ∃ g, owner a.key = some g ∧ given[g]? = some (some d) := by
    intro a d ha hActive hd
    obtain ⟨slot, hSlot⟩ := List.mem_iff_getElem?.mp ha
    obtain ⟨i, hi⟩ := hTable.held slot a hSlot hActive
    obtain ⟨a', ha', -, hGiven, hKey⟩ := hTable.has i slot hi
    obtain rfl := Option.some.inj (hSlot.symm.trans ha')
    have hDestructor : (creates i).destructor = some d := hGiven.symm.trans hd
    have hDone : (creates i).pc.underway = false := by
      by_contra hUnder
      have hNone := hCreated i (by simpa using hUnder)
      rw [hDestructor] at hNone
      cases hNone
    rw [KeyCreatePc.underway, hi, Option.isSome_some, Bool.true_and] at hDone
    obtain ⟨k, hk⟩ := Option.isSome_iff_exists.mp (Option.isNone_eq_false_iff.mp hDone)
    obtain ⟨g, hg, hd'⟩ := hTable.owns i k (KeyCreatePc.index?_of_key? hk)
    rw [hKey k hk]
    exact ⟨g, hg, hd'.trans (congrArg some hDestructor)⟩
  refine { h with exits := ?_ }
  refine forall_update
    (P := fun t c => CleanupInv t c owner given values serial calls) ?_ fun t' _ => h.exits t'
  constructor
  · exact Nat.le_refl _
  · rintro d k g ⟨-, a, ha, hActive, hd, rfl⟩ hg -
    obtain ⟨g', hg', hGiven⟩ := hKnown a d ha hActive hd
    rw [hg] at hg'
    rw [Option.some.inj hg', hGiven]
  · rintro d k v ⟨-, a, ha, hActive, hd, rfl⟩ -
    obtain ⟨g, hg, -⟩ := hKnown a d ha hActive hd
    exact ⟨g, hg, hTable.counted _ g hg⟩
  · exact nofun
  · exact nofun

/-- A cleanup that goes on looks at no other index. -/
theorem Cleanup.Watches.of_snapshot {c c' : Cleanup} {d k : Nat} (h : c'.Watches d k)
    (hSnapshot : c'.snapshot = c.snapshot) (hPc : ∀ rounds, c.pc ≠ .ended rounds) :
    c.Watches d k := by
  obtain ⟨-, a, ha, hRest⟩ := h
  exact ⟨hPc, a, hSnapshot ▸ ha, hRest⟩

/-- Behind a slot comes the next one, the next round, or the end. -/
theorem CleanupPc.advance_cases (it idx count : Nat) :
    (advance it idx count = .scanning it (idx + 1) count ∧ idx + 1 < pthreadMaxKeys) ∨
      advance it idx count = .ended (it + 1) ∨
      (advance it idx count = .scanning (it + 1) 0 0 ∧ it + 1 < pthreadDestructorIterations) := by
  unfold advance
  split
  · next hMore => exact Or.inl ⟨rfl, hMore⟩
  · split
    · exact Or.inr (Or.inl rfl)
    · split
      · next hNext => exact Or.inr (Or.inr ⟨rfl, hNext⟩)
      · exact Or.inr (Or.inl rfl)

theorem CleanupPc.advance_ne_found {it idx count it' idx' count' d : Nat} {v : TlsValue} :
    advance it idx count ≠ .found it' idx' count' d v := by
  rcases advance_cases it idx count with ⟨h, -⟩ | h | ⟨h, -⟩ <;> rw [h] <;> exact nofun

theorem Cleanup.of_dataAt {c : Cleanup} {idx : Nat} {at? : Nat → Option TlsValue}
    {found : Nat × TlsValue} (h : c.dataAt idx at? = some found) :
    ∃ a, c.snapshot[idx]? = some a ∧ a.active = true ∧ a.destructor = some found.1 ∧
      at? a.key = some found.2 := by
  obtain ⟨a, ha, h⟩ := Option.bind_eq_some_iff.mp h
  obtain ⟨d, hd, h⟩ := Option.bind_eq_some_iff.mp h
  obtain ⟨v, hv, h⟩ := Option.bind_eq_some_iff.mp h
  obtain rfl := Option.some.inj h
  unfold TlsAtom.destructor? at hd
  split at hd
  · next hActive => exact ⟨a, ha, hActive, hd, hv⟩
  · cases hd

/-- The cleanup of a thread goes on without a value to pass. -/
theorem CleanupInv.goOn {t : Nat} {c : Cleanup}
    (h : CleanupInv t c owner given values serial calls) (hPc : ∀ rounds, c.pc ≠ .ended rounds)
    (it idx count taken : Nat) :
    CleanupInv t { c with pc := .advance it idx count, taken := taken } owner given values serial
      calls where
  since := h.since
  known d k g hWatch := h.known d k g (hWatch.of_snapshot rfl hPc)
  data d k v hWatch := h.data d k v (hWatch.of_snapshot rfl hPc)
  right _ _ _ _ _ hFound := absurd hFound CleanupPc.advance_ne_found
  first _ _ _ _ _ hFound := absurd hFound CleanupPc.advance_ne_found

/-- The cleanup of a thread has found data, which was stored under the key of the slot. -/
theorem CleanupInv.find {t : Nat} {c : Cleanup}
    (h : CleanupInv t c owner given values serial calls)
    (hValues : ValueInv owner given values serial calls exits)
    (hPc : ∀ rounds, c.pc ≠ .ended rounds) {it idx count d taken : Nat} {a : TlsAtom} {v : TlsValue}
    (ha : c.snapshot[idx]? = some a) (hActive : a.active = true) (hd : a.destructor = some d)
    (hv : values t a.key = some v) :
    CleanupInv t { c with pc := .found it idx count d v, taken := taken } owner given values serial
      calls := by
  have hWatch : c.Watches d a.key := ⟨hPc, a, List.mem_of_getElem? ha, hActive, hd, rfl⟩
  obtain ⟨g, hg, hLt⟩ := h.data d a.key v hWatch hv
  obtain ⟨data, n, rfl⟩ := hValues.own t a.key v g hv hg
  constructor
  · exact h.since
  · exact fun d k g hWatch' => h.known d k g (hWatch'.of_snapshot rfl hPc)
  · exact fun d k v hWatch' => h.data d k v (hWatch'.of_snapshot rfl hPc)
  · intro it' idx' count' d' v' hFound
    cases hFound
    exact ⟨⟨data, g, n, rfl, h.known d a.key g hWatch hg hLt⟩, hValues.fresh t a.key _ hv⟩
  · intro it' idx' count' d' v' hFound
    cases hFound
    refine ⟨fun call hCall hEq => hValues.gone call hCall t a.key (hEq ▸ hv), fun t' k hv' => ?_⟩
    obtain ⟨rfl, rfl⟩ := hValues.single t' k t a.key data t g n hv' hv
    refine ⟨rfl, ?_⟩
    show _ = (c.snapshot[idx]?.map TlsAtom.key).getD 0
    rw [ha]
    rfl

/-- What was found is passed. -/
theorem ValueInv.pass (h : ValueInv owner given values serial calls exits) {t : Nat}
    {it idx count d taken : Nat} {v : TlsValue} (hPc : (exits t).pc = .found it idx count d v) :
    ValueInv owner given
      (Tls.place values t (((exits t).snapshot[idx]?.map TlsAtom.key).getD 0) none) serial
      (calls ++ [⟨t, d, v⟩])
      (Function.update exits t
        { exits t with pc := .advance it idx (count + 1), taken := taken }) := by
  obtain ⟨hRight, hBefore⟩ := (h.exits t).right it idx count d v hPc
  obtain ⟨hFirst, hPlace⟩ := (h.exits t).first it idx count d v hPc
  have hLess := h.drop t (((exits t).snapshot[idx]?.map TlsAtom.key).getD 0)
  refine { hLess with right := ?_, gone := ?_, once := ?_, exits := ?_ }
  · intro call hCall
    rcases List.mem_append.mp hCall with hCall | hNew
    · exact hLess.right call hCall
    · rw [List.mem_singleton.mp hNew]
      exact ⟨hRight, hBefore⟩
  · intro call hCall t' k hv
    rcases List.mem_append.mp hCall with hCall | hNew
    · exact hLess.gone call hCall t' k hv
    · rw [List.mem_singleton.mp hNew] at hv
      obtain ⟨hWas, hApart⟩ := Tls.of_place_none hv
      exact hApart (hPlace t' k hWas)
  · rw [List.map_append, List.nodup_append]
    refine ⟨h.once, by simp, ?_⟩
    rintro v' hv' _ hv rfl
    rw [List.map_singleton, List.mem_singleton] at hv
    obtain ⟨call, hCall, hEq⟩ := List.mem_map.mp hv'
    exact hFirst call hCall (hEq.trans hv)
  · refine forall_update (P := fun t' c => CleanupInv t' c owner given _ serial _) ?_ ?_
    · have hNext := (hLess.exits t).goOn (by rw [hPc]; exact nofun) it idx (count + 1) taken
      exact { hNext with first := fun _ _ _ _ _ hFound => absurd hFound CleanupPc.advance_ne_found }
    · intro t' hNe
      refine { hLess.exits t' with first := ?_ }
      intro it' idx' count' d' v' hFound
      obtain ⟨hNot, hPlace'⟩ := (hLess.exits t').first it' idx' count' d' v' hFound
      refine ⟨fun call hCall hEq => ?_, hPlace'⟩
      rcases List.mem_append.mp hCall with hCall | hNew
      · exact hNot call hCall hEq
      · rw [List.mem_singleton.mp hNew] at hEq
        obtain ⟨data, g, n, hValue, -⟩ := hRight
        obtain ⟨⟨data', g', n', hValue', -⟩, -⟩ :=
          (hLess.exits t').right it' idx' count' d' v' hFound
        dsimp only at hEq hValue hValue'
        rw [hEq, hValue'] at hValue
        cases hValue
        exact hNe rfl

/-! ### All of it -/

/-- How many steps a cleanup may have taken. -/
def CleanupPc.spent : CleanupPc → Nat
  | .idle => 0
  | .scanning it idx _ => 1 + 2 * (pthreadMaxKeys * it + idx)
  | .found it idx _ _ _ => 2 + 2 * (pthreadMaxKeys * it + idx)
  | .ended _ => 1 + 2 * (pthreadMaxKeys * pthreadDestructorIterations)

/-- A cleanup is within its rounds and its slots. -/
def CleanupPc.Within : CleanupPc → Prop
  | .idle => True
  | .scanning it idx _ => it < pthreadDestructorIterations ∧ idx < pthreadMaxKeys
  | .found it idx _ _ _ => it < pthreadDestructorIterations ∧ idx < pthreadMaxKeys
  | .ended rounds => rounds ≤ pthreadDestructorIterations

def Cleanup.Bounded (c : Cleanup) : Prop := c.pc.Within ∧ c.taken ≤ c.pc.spent

theorem CleanupPc.advance_bounded {it idx : Nat} (count : Nat)
    (hIt : it < pthreadDestructorIterations) (hIdx : idx < pthreadMaxKeys) :
    (advance it idx count).Within ∧
      1 + 2 * (pthreadMaxKeys * it + idx) + 2 ≤ (advance it idx count).spent := by
  rcases advance_cases it idx count with ⟨h, hMore⟩ | h | ⟨h, hNext⟩ <;> rw [h] <;>
    simp only [Within, spent, pthreadMaxKeys, pthreadDestructorIterations] at * <;> omega

namespace Tls

/-- What data there is, in a state. -/
def Data (s : Tls) : Prop := ValueInv s.owner s.given s.values s.serial s.calls s.exits

/-- The table and the data are as they should be, and the cleanups within their bounds. -/
structure Inv (s : Tls) : Prop where
  table : s.Table
  data : s.Data
  bounded : ∀ t, (s.exits t).Bounded

variable {s : Tls}

theorem inv_init (foreign : Nat → Bool) (data : Nat → Nat → Option Nat) :
    (init foreign data).Inv := by
  have hOther : ∀ {t k v}, (init foreign data).values t k = some v → ∃ d, v = .other d := by
    intro t k v hv
    obtain ⟨d, -, rfl⟩ := Option.map_eq_some_iff.mp hv
    exact ⟨d, rfl⟩
  refine ⟨?_, ?_, fun t => ⟨trivial, Nat.le_refl _⟩⟩
  · refine ⟨nofun, ?_, nofun, nofun, nofun, nofun, nofun, nofun⟩
    intro slot a ha hActive
    have hFree := List.eq_of_mem_replicate (List.mem_of_getElem? ha)
    rw [hFree] at hActive
    cases hActive
  · refine ⟨?_, ?_, ?_, nofun, nofun, List.nodup_nil, ?_⟩
    · exact fun t k v g _ => nofun
    · intro t k v hv
      obtain ⟨d, rfl⟩ := hOther hv
      trivial
    · intro t k t' k' d u g n hv
      obtain ⟨d', hEq⟩ := hOther hv
      cases hEq
    · intro t
      refine ⟨Nat.le_refl _, ?_, ?_, nofun, nofun⟩
      · rintro d k g ⟨-, a, ha, -⟩
        cases ha
      · rintro d k v ⟨-, a, ha, -⟩
        cases ha

theorem Inv.sound (h : s.Inv) : s.Sound where
  own call hCall := (h.data.right call hCall).1
  once := h.data.once
  rounds t n hPc := by
    obtain ⟨hWithin, -⟩ := h.bounded t
    rw [hPc] at hWithin
    exact hWithin
  ends t := by
    obtain ⟨hWithin, hTaken⟩ := h.bounded t
    refine Nat.le_trans hTaken ?_
    cases hPc : (s.exits t).pc with
    | idle => exact Nat.zero_le _
    | ended rounds => exact Nat.le_refl _
    | scanning it idx count =>
        rw [hPc] at hWithin
        simp only [CleanupPc.Within, CleanupPc.spent, pthreadMaxKeys, pthreadDestructorIterations]
          at hWithin ⊢
        omega
    | found it idx count d v =>
        rw [hPc] at hWithin
        simp only [CleanupPc.Within, CleanupPc.spent, pthreadMaxKeys, pthreadDestructorIterations]
          at hWithin ⊢
        omega
  apart i j slot slot' index index' hNe hi hj := by
    constructor
    · rintro rfl
      exact hNe (h.table.slots i j slot (congrArg KeyCreatePc.slot? hi)
        (congrArg KeyCreatePc.slot? hj))
    · rintro rfl
      exact hNe (h.table.indexes i j index (congrArg KeyCreatePc.index? hi)
        (congrArg KeyCreatePc.index? hj))

theorem Data.tlsAlloc (h : s.Data) (i : Nat) (index : Option Nat) : (s.tlsAlloc i index).Data := by
  unfold Tls.tlsAlloc
  split
  · exact h
  · next idx k hPc =>
      split
      · refine ValueInv.shrink h ?_ ?_ ?_ (by simp)
        · intro t k' v hv
          dsimp only [wipe] at hv
          split at hv
          · cases hv
          · next hNe => exact ⟨hv, Function.update_of_ne hNe ..⟩
        · intro k' g hg
          dsimp only at hg
          rcases eq_or_ne k' k with rfl | hNe
          · rw [Function.update_self, Option.some.injEq] at hg
            exact Or.inr (Nat.le_of_eq hg)
          · rw [Function.update_of_ne hNe] at hg
            exact Or.inl hg
        · intro g d hd
          rw [List.getElem?_append_left (List.getElem?_eq_some_iff.mp hd).1, hd]
      · exact h
  · exact h

theorem Data.tlsZero (h : s.Data) (i : Nat) (ok : Bool) : (s.tlsZero i ok).Data := by
  unfold Tls.tlsZero
  split
  · split
    · exact ValueInv.drop h _ _
    · exact h
  · exact h

theorem Data.tlsFree (h : s.Data) (i : Nat) : (s.tlsFree i).Data := by
  unfold Tls.tlsFree
  split
  · next k hPc =>
      refine ValueInv.shrink h ?_ ?_ (fun _ _ => id) (Nat.le_refl _)
      · intro t k' v hv
        dsimp only [wipe] at hv
        split at hv
        · cases hv
        · next hNe => exact ⟨hv, Function.update_of_ne hNe ..⟩
      · intro k' g hg
        dsimp only at hg
        rcases eq_or_ne k' k with rfl | hNe
        · rw [Function.update_self] at hg
          cases hg
        · rw [Function.update_of_ne hNe] at hg
          exact Or.inl hg
  · exact h

theorem Data.setspecific (h : s.Data) {thread key data : Nat} {ok : Bool}
    (hMeets : s.Meets (.setspecific thread key data ok)) :
    (s.setspecific thread key data ok).Data := by
  unfold Tls.setspecific
  split
  · next hOk =>
      split
      · exact ValueInv.drop h _ _
      · next hData =>
          have hWatch := hMeets hOk hData
          split
          · next g hg =>
              refine ValueInv.put h ?_ ?_ (Nat.lt_succ_self _) (Nat.le_succ _) hWatch
              · intro g' hg'
                obtain rfl := Option.some.inj (hg.symm.trans hg')
                exact ⟨data, s.serial, rfl⟩
              · intro data' u g' n hv
                cases hv
                exact Nat.le_refl _
          · next hNone =>
              refine ValueInv.put h ?_ nofun trivial (Nat.le_refl _) hWatch
              intro g' hg'
              rw [hNone] at hg'
              cases hg'
  · exact h

theorem Inv.exit (h : s.Inv) {thread : Nat} (hMeets : s.Meets (.exit thread)) :
    (s.exit thread).Inv := by
  unfold Tls.exit
  split
  · next hPc =>
      refine ⟨h.table, ValueInv.snapshot h.data h.table thread (hMeets hPc), ?_⟩
      exact forall_update (P := fun _ c => Cleanup.Bounded c)
        ⟨⟨Nat.zero_lt_succ _, Nat.zero_lt_succ _⟩, Nat.le_refl _⟩ fun t _ => h.bounded t
  · exact h

theorem Inv.cleanup (h : s.Inv) (thread : Nat) : (s.cleanup thread).Inv := by
  obtain ⟨hWithin, hTaken⟩ := h.bounded thread
  unfold Tls.cleanup
  dsimp only
  split
  · next it idx count hPc =>
      have hNot : ∀ rounds, (s.exits thread).pc ≠ .ended rounds := by
        rw [hPc]
        exact nofun
      rw [hPc] at hWithin hTaken
      obtain ⟨hNext, hSpent⟩ := CleanupPc.advance_bounded count hWithin.1 hWithin.2
      simp only [CleanupPc.spent] at hTaken
      cases hData : (s.exits thread).dataAt idx (s.values thread) with
      | none =>
          refine ⟨h.table, ?_, ?_⟩
          · refine { h.data with exits := ?_ }
            exact forall_update
              (P := fun t c => CleanupInv t c s.owner s.given s.values s.serial s.calls)
              ((h.data.exits thread).goOn hNot it idx count _) fun t _ => h.data.exits t
          · refine forall_update (P := fun _ c => Cleanup.Bounded c) ⟨hNext, ?_⟩
              fun t _ => h.bounded t
            show (s.exits thread).taken + 1 ≤ (CleanupPc.advance it idx count).spent
            omega
      | some found =>
          obtain ⟨a, ha, hActive, hd, hv⟩ := Cleanup.of_dataAt hData
          refine ⟨h.table, ?_, ?_⟩
          · refine { h.data with exits := ?_ }
            exact forall_update
              (P := fun t c => CleanupInv t c s.owner s.given s.values s.serial s.calls)
              ((h.data.exits thread).find h.data hNot ha hActive hd hv) fun t _ => h.data.exits t
          · refine forall_update (P := fun _ c => Cleanup.Bounded c) ⟨hWithin, ?_⟩
              fun t _ => h.bounded t
            show (s.exits thread).taken + 1 ≤ 2 + 2 * (pthreadMaxKeys * it + idx)
            omega
  · next it idx count d v hPc =>
      rw [hPc] at hWithin hTaken
      obtain ⟨hNext, hSpent⟩ := CleanupPc.advance_bounded (count + 1) hWithin.1 hWithin.2
      refine ⟨h.table, ValueInv.pass h.data hPc, ?_⟩
      refine forall_update (P := fun _ c => Cleanup.Bounded c) ⟨hNext, ?_⟩ fun t _ => h.bounded t
      simp only [CleanupPc.spent] at hTaken
      show (s.exits thread).taken + 1 ≤ (CleanupPc.advance it idx (count + 1)).spent
      omega
  · exact h

theorem Data.create (h : s.Data) (i thread : Nat) (destructor : Option Nat) :
    (s.create i thread destructor).Data := by
  unfold Tls.create
  split
  · split <;> exact h
  · exact h

theorem Data.createEnd (h : s.Data) (i : Nat) : (s.createEnd i).Data := by
  unfold Tls.createEnd
  split <;> exact h

theorem Data.delete (h : s.Data) (i key : Nat) : (s.delete i key).Data := by
  unfold Tls.delete
  split
  · split <;> exact h
  · exact h

/-- Only the end of a thread is about the cleanups. -/
theorem exits_step {e : TlsEvent} (hExit : ∀ t, e ≠ .exit t) (hCleanup : ∀ t, e ≠ .cleanup t) :
    (s.step e).exits = s.exits := by
  cases e with
  | exit t => exact absurd rfl (hExit t)
  | cleanup t => exact absurd rfl (hCleanup t)
  | create i thread destructor =>
      unfold Tls.step Tls.create
      dsimp only
      split
      · split <;> rfl
      · rfl
  | tlsAlloc i index =>
      unfold Tls.step Tls.tlsAlloc
      dsimp only
      split
      · rfl
      · split <;> rfl
      · rfl
  | tlsZero i ok =>
      unfold Tls.step Tls.tlsZero
      dsimp only
      split
      · split <;> rfl
      · rfl
  | createEnd i =>
      unfold Tls.step Tls.createEnd
      dsimp only
      split <;> rfl
  | delete i key =>
      unfold Tls.step Tls.delete
      dsimp only
      split
      · split <;> rfl
      · rfl
  | tlsFree i =>
      unfold Tls.step Tls.tlsFree
      dsimp only
      split <;> rfl
  | setspecific thread key data ok =>
      unfold Tls.step Tls.setspecific
      dsimp only
      split
      · split
        · rfl
        · split <;> rfl
      · rfl

theorem table_setspecific (h : s.Table) (thread key data : Nat) (ok : Bool) :
    (s.setspecific thread key data ok).Table := by
  unfold Tls.setspecific
  split
  · split
    · exact h
    · split <;> exact h
  · exact h

/-- What a step of any party does keeps all of it. -/
theorem Inv.step (h : s.Inv) {e : TlsEvent} (hMeets : s.Meets e) : (s.step e).Inv := by
  have hBounded : (∀ t, e ≠ .exit t) → (∀ t, e ≠ .cleanup t) →
      ∀ t, ((s.step e).exits t).Bounded := by
    intro hExit hCleanup
    rw [exits_step hExit hCleanup]
    exact h.bounded
  cases e with
  | create i thread destructor =>
      exact ⟨h.table.create i thread destructor, h.data.create i thread destructor,
        hBounded nofun nofun⟩
  | tlsAlloc i index =>
      exact ⟨h.table.tlsAlloc i index, h.data.tlsAlloc i index, hBounded nofun nofun⟩
  | tlsZero i ok => exact ⟨h.table.tlsZero i ok, h.data.tlsZero i ok, hBounded nofun nofun⟩
  | createEnd i => exact ⟨h.table.createEnd i, h.data.createEnd i, hBounded nofun nofun⟩
  | delete i key => exact ⟨h.table.delete hMeets, h.data.delete i key, hBounded nofun nofun⟩
  | tlsFree i => exact ⟨h.table.tlsFree i, h.data.tlsFree i, hBounded nofun nofun⟩
  | setspecific thread key data ok =>
      exact ⟨table_setspecific h.table thread key data ok, h.data.setspecific hMeets,
        hBounded nofun nofun⟩
  | exit thread => exact h.exit hMeets
  | cleanup thread => exact h.cleanup thread

end Tls

/-- In every run whose steps meet the condition a destructor gets what the thread has stored under
its key, and that once, every cleanup ends within its rounds, and no two keys have the same slot or
the same index. -/
theorem destructors_own_data (foreign : Nat → Bool) (data : Nat → Nat → Option Nat)
    (events : List TlsEvent) :
    SafeWhile (fun s e => some (Tls.step s e)) Tls.Meets Tls.Sound (Tls.init foreign data) events :=
  safeWhile_of_step Tls.Inv (fun _ hInv => hInv.sound)
    (fun _ _ hInv hMeets => ⟨_, rfl, hInv.step hMeets⟩) events _ (Tls.inv_init foreign data)

/-- A thread that ends while a key is being created passes what it has at index 0 to the destructor
of that key. -/
theorem not_destructors_own_data :
    ¬ ∀ (foreign : Nat → Bool) (data : Nat → Nat → Option Nat) (events : List TlsEvent),
      SafeWhile (fun s e => some (Tls.step s e)) (fun _ _ => True) Tls.Sound
        (Tls.init foreign data) events := by
  intro h
  obtain ⟨s, hRun, hSound⟩ := (h (fun _ => false) (fun _ _ => none)
    [.create 0 1 none, .tlsAlloc 0 (some 0), .tlsZero 0 true, .createEnd 0,
      .setspecific 5 0 77 true, .create 1 1 (some 20), .exit 5, .cleanup 5, .cleanup 5,
      .cleanup 5]).run
  cases hRun
  obtain ⟨data, g, n, hValue, hGiven⟩ := hSound.own ⟨5, 20, .stored 77 5 0 0⟩ (by decide)
  cases hValue
  cases hGiven

end OncRpc.Sthread
