import OncRpc.Base.Recent
import OncRpc.Base.Runs
import OncRpc.Clnt.AddrCache
import OncRpc.Rpc.Uaddr

/-! Any number of callers of `getclnthandle` at once: what the cache keeps of the addresses
that have been stored. -/
namespace OncRpc

variable {inet : Inet}

/-- An address that has been stored for a host and a netid. -/
structure StoredAddr (inet : Inet) where
  host : CString
  nconf : NetconfigEnt
  tres : Addrinfo inet nconf
  /-- Whether the call that stored it asked for its universal address. -/
  asked : Bool

namespace StoredAddr

/-- What the address is for. -/
def key (st : StoredAddr inet) : CString × CString := (st.host, st.nconf.ncNetid)

/-- The entry that the cache has for it. -/
def entry (st : StoredAddr inet) : AddressCache where
  acHost := st.host
  acNetid := st.nconf.ncNetid
  acUaddr := if st.asked then st.tres.uaddr else none
  acTaddr := st.tres.aiAddr

end StoredAddr

namespace HandleCall

/-- What the call is for. -/
def key (c : HandleCall inet) : CString × CString := (c.host, c.nconf.ncNetid)

/-- The address that the call stores when it does not find one in the cache. -/
def stores (c : HandleCall inet) : Option (StoredAddr inet) :=
  match rpcNconf2sockinfo c.nconf, c.res with
  | some _, some res =>
      match res.find? fun tres => tres.client.isSome with
      | none => none
      | some tres =>
          if c.allocated then
            some { host := c.host, nconf := c.nconf, tres := tres, asked := c.targaddr }
          else none
  | _, _ => none

end HandleCall

/-- How far a call of `getclnthandle` is: between calls, before `delete_cache`, or behind it. -/
inductive CallerPhase (inet : Inet) where
  | idle
  | stale (c : HandleCall inet) (addrToDelete : List UInt8)
  | afresh (c : HandleCall inet)

/-- What one of the callers does while it has the lock. -/
inductive CacheEvent (inet : Inet) where
  | consult (caller : Nat) (c : HandleCall inet)
  | delete (caller : Nat)
  | create (caller : Nat)

/-- The cache, its callers, and what has been stored so far, the latest first. -/
structure CachedAddrs (inet : Inet) where
  cache : AddrCache
  phase : Nat → CallerPhase inet
  stored : List (StoredAddr inet)

namespace CachedAddrs

/-- Nothing has been called yet. -/
def start : CachedAddrs inet where
  cache := { front := [], cachesize := 0 }
  phase := fun _ => .idle
  stored := []

/-- A caller is at another place of its call. -/
def moved (s : CachedAddrs inet) (caller : Nat) (phase : CallerPhase inet) : CachedAddrs inet :=
  { s with phase := Function.update s.phase caller phase }

/-- What a deletion leads to. -/
def deleted (s : CachedAddrs inet) (caller : Nat) (c : HandleCall inet) (addr : List UInt8) :
    CachedAddrs inet :=
  { s.moved caller (.afresh c) with cache := s.cache.deleteCache c.behind addr }

/-- What the end of a call leads to. -/
def created (s : CachedAddrs inet) (caller : Nat) (c : HandleCall inet) (cache : AddrCache) :
    CachedAddrs inet :=
  { s.moved caller .idle with cache := cache, stored := c.stores.toList ++ s.stored }

/-- A caller goes on. One that is elsewhere in its call stays where it is, and `none` is an
access through a null pointer. -/
def next (s : CachedAddrs inet) : CacheEvent inet → Option (CachedAddrs inet)
  | .consult caller c =>
      match s.phase caller with
      | .idle =>
          match s.cache.consult c with
          | .ready _ => some s
          | .stale addr => some (s.moved caller (.stale c addr))
          | .afresh => some (s.moved caller (.afresh c))
      | _ => some s
  | .delete caller =>
      match s.phase caller with
      | .stale c addr => some (s.deleted caller c addr)
      | _ => some s
  | .create caller =>
      match s.phase caller with
      | .afresh c => (s.cache.create c).map fun r => s.created caller c r.2
      | _ => some s

/-- The size is the length of the list, which is bounded; a host and a netid have no more than
one entry, and it has the address that was stored for them last. -/
structure Tidy (s : CachedAddrs inet) : Prop where
  size : s.cache.cachesize = s.cache.front.length
  bound : s.cache.cachesize ≤ cacheSize
  distinct : Keyed.Distinct AddressCache.key s.cache.front
  latest : ∀ host netid e, s.cache.checkCache host netid = some e →
    ∃ st, Keyed.lookup StoredAddr.key s.stored (host, netid) = some st ∧
      e.acTaddr = st.tres.aiAddr

/-- What an event should do: a hit stores the universal address of the address through
`targaddr`; `delete_cache` takes out the entry that has been found useless and no other; and a
full cache loses the entry that was stored before all the others. -/
def Does (s s' : CachedAddrs inet) : CacheEvent inet → Prop
  | .consult caller c =>
      ∀ reply st, s.phase caller = .idle → s.cache.consult c = .ready reply →
        c.targaddr = true → Keyed.lookup StoredAddr.key s.stored c.key = some st →
        reply.targaddr = some st.tres.uaddr
  | .delete caller =>
      ∀ c addr, s.phase caller = .stale c addr →
        s'.cache.front = s.cache.front.filter fun e => !decide (e.key = c.key ∧ e.acTaddr = addr)
  | .create caller =>
      ∀ c st, s.phase caller = .afresh c → c.stores = some st →
        s.cache.cachesize = cacheSize →
        ∃ kept oldest, s.cache.front = kept ++ [oldest] ∧
          s'.cache.front = st.entry :: kept ∧
          ∀ e ∈ kept, Recent.age StoredAddr.key s.stored e.key <
            Recent.age StoredAddr.key s.stored oldest.key

/-- An event does what it should, and leaves a tidy cache. -/
def Consistent (s : CachedAddrs inet) (e : CacheEvent inet) : Prop :=
  ∃ s', s.next e = some s' ∧ Does s s' e ∧ Tidy s'

/-- The condition on an event. A hit that asks for the universal address is on one that was
stored for a call that asked, or has none. What `delete_cache` comes across first with the bytes
of the address is the entry that they are from. What is stored is for a host and a netid
without an entry, but for one that the cache is about to lose. -/
def Meets (s : CachedAddrs inet) : CacheEvent inet → Prop
  | .consult caller c =>
      ∀ st, s.phase caller = .idle → c.targaddr = true → c.atCached.isSome →
        (s.cache.checkCache c.host c.nconf.ncNetid).isSome →
        Keyed.lookup StoredAddr.key s.stored c.key = some st →
        st.asked = true ∨ st.tres.uaddr = none
  | .delete caller =>
      ∀ c addr e, s.phase caller = .stale c addr →
        s.cache.front.find? (AddressCache.sameBytes c.behind addr) = some e →
        e.key = c.key ∧ e.acTaddr = addr
  | .create caller =>
      ∀ c e, s.phase caller = .afresh c → c.stores.isSome →
        s.cache.checkCache c.host c.nconf.ncNetid = some e →
        s.cache.cachesize = cacheSize ∧ s.cache.front.getLast? = some e

/-! ### What is kept -/

/-- The cache has the last addresses of some hosts and netids, the latest first. -/
structure Keeps (s : CachedAddrs inet) (kept : List (StoredAddr inet)) : Prop where
  front : s.cache.front = kept.map StoredAddr.entry
  size : s.cache.cachesize = kept.length
  bound : kept.length ≤ cacheSize
  recent : Recent.Keeps StoredAddr.key s.stored kept

variable {s : CachedAddrs inet} {kept : List (StoredAddr inet)} {st : StoredAddr inet}
  {c : HandleCall inet} {e : AddressCache} {caller : Nat}

@[simp] theorem key_entry (st : StoredAddr inet) : st.entry.key = st.key := rfl

theorem checkCache_eq_lookup (cache : AddrCache) (host netid : CString) :
    cache.checkCache host netid = Keyed.lookup AddressCache.key cache.front (host, netid) := by
  simp [AddrCache.checkCache, Keyed.lookup, AddressCache.key]

theorem Keeps.checkCache (h : Keeps s kept) (host netid : CString) :
    s.cache.checkCache host netid =
      (Keyed.lookup StoredAddr.key kept (host, netid)).map StoredAddr.entry := by
  rw [checkCache_eq_lookup, h.front, Keyed.lookup, List.find?_map]
  rfl

theorem Keeps.distinct (h : Keeps s kept) : Keyed.Distinct AddressCache.key s.cache.front := by
  rw [Keyed.Distinct, h.front, List.map_map]
  exact h.recent.distinct

theorem Keeps.tidy (h : Keeps s kept) : Tidy s := by
  refine ⟨?_, ?_, h.distinct, ?_⟩
  · rw [h.size, h.front, List.length_map]
  · rw [h.size]
    exact_mod_cast h.bound
  · intro host netid e hHit
    rw [h.checkCache, Option.map_eq_some_iff] at hHit
    obtain ⟨st, hFound, rfl⟩ := hHit
    exact ⟨st, h.recent.lookup hFound, rfl⟩

theorem keeps_start : Keeps (start : CachedAddrs inet) [] :=
  ⟨rfl, rfl, Nat.zero_le _, Recent.keeps_nil _⟩

/-! ### Looking into the cache -/

/-- A hit is on what has been stored last. -/
theorem Keeps.hit (h : Keeps s kept) {host netid : CString}
    (hHit : s.cache.checkCache host netid = some e)
    (hLast : Keyed.lookup StoredAddr.key s.stored (host, netid) = some st) : e = st.entry := by
  rw [h.checkCache, Option.map_eq_some_iff] at hHit
  obtain ⟨st', hFound, rfl⟩ := hHit
  have hSame := (h.recent.lookup hFound).symm.trans hLast
  rw [Option.some.inj hSame]

theorem acUaddr_eq_iff (st : StoredAddr inet) :
    st.entry.acUaddr = st.tres.uaddr ↔ st.asked = true ∨ st.tres.uaddr = none := by
  cases hAsked : st.asked <;> simp [StoredAddr.entry, hAsked, eq_comm]

theorem consult_eq_ready (cache : AddrCache) (c : HandleCall inet) (reply : HandleReply) :
    cache.consult c = .ready reply ↔
      ∃ e client, cache.checkCache c.host c.nconf.ncNetid = some e ∧ c.atCached = some client ∧
        reply = { client := some client
                  targaddr := if c.targaddr then some e.acUaddr else none } := by
  unfold AddrCache.consult
  cases hHit : cache.checkCache c.host c.nconf.ncNetid with
  | none => simp
  | some e =>
      cases hClient : c.atCached with
      | none => by_cases hCopied : c.copied = true ∧ e.acTaddr ≠ [] <;> simp [hCopied]
      | some client =>
          simp only [Consulted.ready.injEq, Option.some.injEq, exists_and_left, exists_eq_left']
          exact eq_comm

/-- A look into the cache changes neither the cache nor what has been stored. -/
theorem next_consult (s : CachedAddrs inet) (caller : Nat) (c : HandleCall inet) :
    ∃ s', s.next (.consult caller c) = some s' ∧ s'.cache = s.cache ∧ s'.stored = s.stored := by
  cases hPhase : s.phase caller with
  | idle =>
      cases hLook : s.cache.consult c with
      | ready reply => exact ⟨s, by simp only [next, hPhase, hLook], rfl, rfl⟩
      | stale addr =>
          exact ⟨s.moved caller (.stale c addr), by simp only [next, hPhase, hLook], rfl, rfl⟩
      | afresh => exact ⟨s.moved caller (.afresh c), by simp only [next, hPhase, hLook], rfl, rfl⟩
  | stale => exact ⟨s, by simp only [next, hPhase], rfl, rfl⟩
  | afresh => exact ⟨s, by simp only [next, hPhase], rfl, rfl⟩

theorem Keeps.congr {s' : CachedAddrs inet} (h : Keeps s kept) (hCache : s'.cache = s.cache)
    (hStored : s'.stored = s.stored) : Keeps s' kept :=
  ⟨hCache ▸ h.front, hCache ▸ h.size, h.bound, hStored ▸ h.recent⟩

theorem Keeps.does_consult_iff (h : Keeps s kept) (s' : CachedAddrs inet) :
    Does s s' (.consult caller c) ↔ Meets s (.consult caller c) := by
  constructor
  · intro hDoes st hIdle hAsks hCreated hFound hLast
    obtain ⟨client, hClient⟩ := Option.isSome_iff_exists.mp hCreated
    obtain ⟨e, hHit⟩ := Option.isSome_iff_exists.mp hFound
    have hReady := (consult_eq_ready s.cache c _).mpr ⟨e, client, hHit, hClient, rfl⟩
    have hUaddr := hDoes _ st hIdle hReady hAsks hLast
    rw [if_pos hAsks, h.hit hHit hLast] at hUaddr
    exact (acUaddr_eq_iff st).mp (Option.some.inj hUaddr)
  · intro hMeets reply st hIdle hReady hAsks hLast
    obtain ⟨e, client, hHit, hClient, rfl⟩ := (consult_eq_ready s.cache c reply).mp hReady
    have hAsked := hMeets st hIdle hAsks (by rw [hClient]; rfl) (by rw [hHit]; rfl) hLast
    show (if c.targaddr then some e.acUaddr else none) = some st.tres.uaddr
    rw [if_pos hAsks, h.hit hHit hLast, (acUaddr_eq_iff st).mpr hAsked]

/-! ### Deletions -/

theorem sameBytes_self (behind : AddressCache → Nat → UInt8) (e : AddressCache) :
    e.sameBytes behind e.acTaddr = true := by
  rw [AddressCache.sameBytes, decide_eq_true_eq]
  apply List.ext_getElem
  · rw [List.length_map, List.length_range]
  · intro i _ hLt
    rw [List.getElem_map, List.getElem_range, List.getElem?_eq_getElem hLt, Option.getD_some]

theorem front_deleteCache (cache : AddrCache) (behind : AddressCache → Nat → UInt8)
    (addr : List UInt8) :
    (cache.deleteCache behind addr).front =
      cache.front.eraseP (AddressCache.sameBytes behind addr) := by
  unfold AddrCache.deleteCache
  split
  · rfl
  · next hNone =>
      rw [List.eraseP_of_forall_not]
      simpa using hNone

theorem cachesize_deleteCache {cache : AddrCache} (h : cache.cachesize = cache.front.length)
    (behind : AddressCache → Nat → UInt8) (addr : List UInt8) :
    (cache.deleteCache behind addr).cachesize =
      (cache.deleteCache behind addr).front.length := by
  rw [front_deleteCache, List.length_eraseP]
  unfold AddrCache.deleteCache
  split
  · next hAny =>
      obtain ⟨e, hMem, _⟩ := List.any_eq_true.mp hAny
      have hPos := List.length_pos_of_mem hMem
      show cache.cachesize - 1 = ((cache.front.length - 1 : Nat) : Int)
      omega
  · exact h

/-- Deletions forget some of what is kept, whatever they take for the entry. -/
theorem Keeps.deleted (h : Keeps s kept) (caller : Nat) (c : HandleCall inet)
    (addr : List UInt8) : ∃ kept', Keeps (s.deleted caller c addr) kept' := by
  have hFront : (s.deleted caller c addr).cache.front =
      (kept.eraseP (AddressCache.sameBytes c.behind addr ∘ StoredAddr.entry)).map
        StoredAddr.entry := by
    show (s.cache.deleteCache c.behind addr).front = _
    rw [front_deleteCache, h.front, List.eraseP_map]
  have hSize : s.cache.cachesize = s.cache.front.length := by
    rw [h.size, h.front, List.length_map]
  refine ⟨_, hFront, ?_, ?_, ?_⟩
  · have hLength := cachesize_deleteCache hSize c.behind addr
    rw [show (s.deleted caller c addr).cache.cachesize = _ from hLength]
    show ((s.deleted caller c addr).cache.front.length : Int) = _
    rw [hFront, List.length_map]
  · exact Nat.le_trans (List.length_eraseP_le ..) h.bound
  · exact h.recent.sublist (List.eraseP_sublist ..)

theorem Keeps.deletes_iff (h : Keeps s kept) (behind : AddressCache → Nat → UInt8)
    (c : HandleCall inet) (addr : List UInt8) :
    (s.cache.deleteCache behind addr).front =
        s.cache.front.filter (fun e => !decide (e.key = c.key ∧ e.acTaddr = addr)) ↔
      ∀ e, s.cache.front.find? (AddressCache.sameBytes behind addr) = some e →
        e.key = c.key ∧ e.acTaddr = addr := by
  rw [front_deleteCache, h.distinct.eraseP_eq_filter_iff (k := c.key)]
  · simp only [decide_eq_true_eq]
  · intro e hOwn
    exact (of_decide_eq_true hOwn).1
  · intro e hOwn
    rw [← (of_decide_eq_true hOwn).2]
    exact sameBytes_self behind e

/-! ### Insertions -/

/-- What an insertion leaves of the addresses that are kept. -/
def retained (kept : List (StoredAddr inet)) : List (StoredAddr inet) :=
  if kept.length < cacheSize then kept else kept.dropLast

theorem retained_sublist (kept : List (StoredAddr inet)) : (retained kept).Sublist kept := by
  unfold retained
  split
  · exact List.Sublist.refl kept
  · exact kept.dropLast_sublist

theorem length_retained_lt (h : kept.length ≤ cacheSize) : (retained kept).length < cacheSize := by
  unfold retained
  split
  · next hSpare => exact hSpare
  · rw [List.length_dropLast]
    unfold cacheSize at h ⊢
    omega

/-- A full cache has an oldest entry. -/
theorem retained_of_full (h : kept.length = cacheSize) :
    ∃ oldest, kept = retained kept ++ [oldest] := by
  have hNonempty : kept ≠ [] := by
    apply List.ne_nil_of_length_pos
    rw [h]
    decide
  refine ⟨kept.getLast hNonempty, ?_⟩
  rw [retained, if_neg (by omega), List.dropLast_append_getLast]

theorem Keeps.cachesize_eq_iff (h : Keeps s kept) :
    s.cache.cachesize = cacheSize ↔ kept.length = cacheSize := by
  rw [h.size]
  exact Int.ofNat_inj

/-- An entry is put before those that are left. -/
theorem Keeps.addCache (h : Keeps s kept) (st : StoredAddr inet) :
    ∃ cache, s.cache.addCache true st.host st.nconf.ncNetid st.tres.aiAddr st.entry.acUaddr =
        some cache ∧
      cache.front = (st :: retained kept).map StoredAddr.entry ∧
      cache.cachesize = (st :: retained kept).length := by
  unfold AddrCache.addCache
  rw [if_pos rfl, h.size]
  rcases Nat.lt_or_ge kept.length cacheSize with hSpare | hFull
  · have hRetained : retained kept = kept := if_pos hSpare
    rw [if_pos (Int.ofNat_lt.mpr hSpare), hRetained]
    refine ⟨_, rfl, ?_, ?_⟩
    · show st.entry :: s.cache.front = _
      rw [h.front, List.map_cons]
    · show (kept.length : Int) + 1 = ((st :: kept).length : Int)
      rw [List.length_cons, Nat.cast_succ]
  · have hLength := Nat.le_antisymm h.bound hFull
    have hRetained : retained kept = kept.dropLast := if_neg (Nat.not_lt.mpr hFull)
    have hSize : (st :: kept.dropLast).length = kept.length := by
      rw [List.length_cons, List.length_dropLast, hLength]
      rfl
    rw [if_neg (by omega), hRetained]
    cases hFront : s.cache.front with
    | nil =>
        rw [h.front, List.map_eq_nil_iff] at hFront
        rw [hFront] at hLength
        cases hLength
    | cons e rest =>
        refine ⟨_, rfl, ?_, ?_⟩
        · show st.entry :: (e :: rest).dropLast = _
          rw [← hFront, h.front, ← List.map_dropLast, List.map_cons]
        · show (kept.length : Int) = ((st :: kept.dropLast).length : Int)
          rw [hSize]

theorem create_of_stores_none (h : c.stores = none) (cache : AddrCache) :
    ∃ reply, cache.create c = some (reply, cache) := by
  unfold HandleCall.stores at h
  unfold AddrCache.create
  split
  · next hSockinfo hRes =>
      simp only [hSockinfo, hRes] at h
      split
      · exact ⟨_, rfl⟩
      · next tres hFound =>
          have hAllocated : c.allocated = false := by
            simpa [hFound] using h
          rw [hAllocated]
          exact ⟨_, rfl⟩
  · exact ⟨_, rfl⟩

theorem create_of_stores (h : c.stores = some st) (cache : AddrCache) :
    st.key = c.key ∧
      (cache.create c).map Prod.snd =
        cache.addCache true st.host st.nconf.ncNetid st.tres.aiAddr st.entry.acUaddr := by
  unfold HandleCall.stores at h
  unfold AddrCache.create
  split at h
  · next hSockinfo hRes =>
      split at h
      · cases h
      · next tres hFound =>
          split at h
          · next hAllocated =>
              obtain rfl := Option.some.inj h
              refine ⟨rfl, ?_⟩
              simp only [hSockinfo, hRes, hFound, hAllocated, StoredAddr.entry]
              cases cache.addCache true c.host c.nconf.ncNetid tres.aiAddr
                (if c.targaddr then tres.uaddr else none) <;> rfl
          · cases h
  · cases h

/-- What is found for an insertion is about to be lost exactly if nothing that is left has the
same host and netid. -/
theorem Keeps.insertable_iff (h : Keeps s kept) (hKey : st.key = c.key) :
    (∀ e, s.cache.checkCache c.host c.nconf.ncNetid = some e →
        s.cache.cachesize = cacheSize ∧ s.cache.front.getLast? = some e) ↔
      ∀ r ∈ retained kept, r.key ≠ st.key := by
  have hDistinct := h.recent.distinct
  rw [hKey, h.cachesize_eq_iff, h.front, h.checkCache]
  constructor
  · intro hLost r hMem hSame
    have hFound := hDistinct.lookup_eq_some.mpr ⟨(retained_sublist kept).subset hMem, hSame⟩
    obtain ⟨hFull, hLast⟩ := hLost r.entry (Option.map_eq_some_iff.mpr ⟨r, hFound, rfl⟩)
    obtain ⟨oldest, hKept⟩ := retained_of_full hFull
    rw [hKept, List.map_append, List.map_singleton, List.getLast?_concat] at hLast
    have hOldest : oldest.key = r.key := congrArg AddressCache.key (Option.some.inj hLast)
    rw [hKept, Keyed.Distinct, List.map_append, List.nodup_append] at hDistinct
    exact hDistinct.2.2 r.key (List.mem_map_of_mem hMem) oldest.key
      (List.mem_map_of_mem (List.mem_singleton_self oldest)) hOldest.symm
  · intro hApart e hHit
    obtain ⟨r, hFound, rfl⟩ := Option.map_eq_some_iff.mp hHit
    obtain ⟨hMem, hSame⟩ := Keyed.mem_of_lookup hFound
    have hFull : kept.length = cacheSize := by
      by_contra hOther
      have hRetained : retained kept = kept := if_pos (Nat.lt_of_le_of_ne h.bound hOther)
      apply hApart r _ hSame
      rw [hRetained]
      exact hMem
    refine ⟨hFull, ?_⟩
    obtain ⟨oldest, hKept⟩ := retained_of_full hFull
    rw [hKept] at hMem
    rcases List.mem_append.mp hMem with hLeft | hOldest
    · exact absurd hSame (hApart r hLeft)
    · rw [hKept, List.map_append, List.map_singleton, List.getLast?_concat,
        List.mem_singleton.mp hOldest]

/-- An insertion leaves a tidy cache exactly if it does not duplicate an entry. -/
theorem Keeps.insert {s' : CachedAddrs inet} (h : Keeps s kept)
    (hFront : s'.cache.front = (st :: retained kept).map StoredAddr.entry)
    (hSize : s'.cache.cachesize = (st :: retained kept).length)
    (hStored : s'.stored = st :: s.stored) (hNew : ∀ r ∈ retained kept, r.key ≠ st.key) :
    Keeps s' (st :: retained kept) := by
  refine ⟨hFront, hSize, length_retained_lt h.bound, ?_⟩
  rw [hStored]
  exact (h.recent.sublist (retained_sublist kept)).record hNew

theorem apart_of_tidy {s' : CachedAddrs inet} (h : Tidy s')
    (hFront : s'.cache.front = (st :: retained kept).map StoredAddr.entry) :
    ∀ r ∈ retained kept, r.key ≠ st.key := by
  intro r hMem hSame
  have hDistinct := h.distinct
  rw [hFront, List.map_cons, Keyed.Distinct, List.map_cons, List.nodup_cons] at hDistinct
  apply hDistinct.1
  rw [key_entry, ← hSame]
  have hEntry := List.mem_map_of_mem (f := StoredAddr.entry) hMem
  exact List.mem_map_of_mem (f := AddressCache.key) hEntry

/-- A full cache loses what was stored before all that is left. -/
theorem Keeps.evicts (h : Keeps s kept) (hFull : s.cache.cachesize = cacheSize) :
    ∃ oldest, s.cache.front = (retained kept).map StoredAddr.entry ++ [oldest] ∧
      ∀ e ∈ (retained kept).map StoredAddr.entry,
        Recent.age StoredAddr.key s.stored e.key <
          Recent.age StoredAddr.key s.stored oldest.key := by
  obtain ⟨oldest, hKept⟩ := retained_of_full (h.cachesize_eq_iff.mp hFull)
  refine ⟨oldest.entry, ?_, ?_⟩
  · rw [h.front]
    conv_lhs => rw [hKept]
    rw [List.map_append, List.map_singleton]
  · intro e hMem
    obtain ⟨r, hLeft, rfl⟩ := List.mem_map.mp hMem
    have hOrdered := h.recent.ordered
    rw [hKept, List.pairwise_append] at hOrdered
    exact hOrdered.2.2 r hLeft oldest (List.mem_singleton_self oldest)

/-! ### Events -/

/-- The event does what it should, and the cache has the last addresses behind it too. -/
def Goes (s : CachedAddrs inet) (e : CacheEvent inet) : Prop :=
  ∃ s' kept', s.next e = some s' ∧ Does s s' e ∧ Keeps s' kept'

theorem Keeps.consult (h : Keeps s kept) (caller : Nat) (c : HandleCall inet) :
    Meets s (.consult caller c) → Goes s (.consult caller c) := by
  intro hMeets
  obtain ⟨s', hNext, hCache, hStored⟩ := next_consult s caller c
  exact ⟨s', kept, hNext, (h.does_consult_iff s').mpr hMeets, h.congr hCache hStored⟩

theorem next_delete {addr : List UInt8} (h : s.phase caller = .stale c addr) :
    s.next (.delete caller) = some (s.deleted caller c addr) := by
  simp only [next, h]

theorem next_delete_elsewhere (h : ∀ c addr, s.phase caller ≠ .stale c addr) :
    s.next (.delete caller) = some s := by
  cases hPhase : s.phase caller with
  | stale c addr => exact absurd hPhase (h c addr)
  | idle => simp only [next, hPhase]
  | afresh => simp only [next, hPhase]

theorem Keeps.delete (h : Keeps s kept) (caller : Nat) :
    Meets s (.delete caller) → Goes s (.delete caller) := by
  intro hMeets
  by_cases hStale : ∃ c addr, s.phase caller = .stale c addr
  · obtain ⟨c, addr, hPhase⟩ := hStale
    obtain ⟨kept', hKept'⟩ := h.deleted caller c addr
    refine ⟨_, kept', next_delete hPhase, ?_, hKept'⟩
    intro c' addr' hPhase'
    obtain ⟨rfl, rfl⟩ := CallerPhase.stale.inj (hPhase.symm.trans hPhase')
    exact (h.deletes_iff c.behind c addr).mpr fun e hFound => hMeets c addr e hPhase hFound
  · refine ⟨s, kept, next_delete_elsewhere fun c addr hPhase => hStale ⟨c, addr, hPhase⟩, ?_, h⟩
    intro c addr hPhase
    exact absurd ⟨c, addr, hPhase⟩ hStale

theorem next_create {r : HandleReply × AddrCache} (h : s.phase caller = .afresh c)
    (hCreate : s.cache.create c = some r) :
    s.next (.create caller) = some (s.created caller c r.2) := by
  simp only [next, h, hCreate, Option.map_some]

theorem next_create_elsewhere (h : ∀ c, s.phase caller ≠ .afresh c) :
    s.next (.create caller) = some s := by
  cases hPhase : s.phase caller with
  | afresh c => exact absurd hPhase (h c)
  | idle => simp only [next, hPhase]
  | stale => simp only [next, hPhase]

/-- Where nothing is stored nothing changes. -/
theorem next_create_none (h : s.phase caller = .afresh c) (hNone : c.stores = none) :
    ∃ s', s.next (.create caller) = some s' ∧ s'.cache = s.cache ∧ s'.stored = s.stored := by
  obtain ⟨reply, hCreate⟩ := create_of_stores_none hNone s.cache
  refine ⟨s.created caller c s.cache, next_create h hCreate, rfl, ?_⟩
  rw [created, hNone]
  rfl

/-- What is stored is put before what is left. -/
theorem Keeps.next_create (h : Keeps s kept) (hPhase : s.phase caller = .afresh c)
    (hStores : c.stores = some st) :
    ∃ s', s.next (.create caller) = some s' ∧
      s'.cache.front = (st :: retained kept).map StoredAddr.entry ∧
      s'.cache.cachesize = (st :: retained kept).length ∧ s'.stored = st :: s.stored := by
  obtain ⟨cache, hAdd, hFront, hSize⟩ := h.addCache st
  have hCreate := (create_of_stores hStores s.cache).2
  rw [hAdd, Option.map_eq_some_iff] at hCreate
  obtain ⟨r, hCreate, rfl⟩ := hCreate
  refine ⟨_, CachedAddrs.next_create hPhase hCreate, hFront, hSize, ?_⟩
  rw [created, hStores]
  rfl

@[simp] theorem phase_moved (s : CachedAddrs inet) (caller : Nat) (phase : CallerPhase inet) :
    (s.moved caller phase).phase caller = phase :=
  Function.update_self ..

@[simp] theorem phase_deleted (s : CachedAddrs inet) (caller : Nat) (c : HandleCall inet)
    (addr : List UInt8) : (s.deleted caller c addr).phase caller = .afresh c :=
  Function.update_self ..

theorem next_create_cache (h : s.phase caller = .afresh c) :
    (s.next (.create caller)).map cache = (s.cache.create c).map Prod.snd := by
  simp only [next, h, Option.map_map]
  rfl

/-- A caller that nobody comes in between does what `getclnthandle` does. -/
theorem next_getclnthandle (h : s.phase caller = .idle) (c : HandleCall inet) :
    ((s.next (.consult caller c)).bind fun s =>
        (s.next (.delete caller)).bind fun s => s.next (.create caller)).map cache =
      (s.cache.getclnthandle c).map Prod.snd := by
  cases hLook : s.cache.consult c with
  | ready reply =>
      have hIdle : ∀ c', s.phase caller ≠ .afresh c' := fun c' hPhase => by
        cases h.symm.trans hPhase
      have hFresh : ∀ c' addr, s.phase caller ≠ .stale c' addr := fun c' addr hPhase => by
        cases h.symm.trans hPhase
      have hConsult : s.next (.consult caller c) = some s := by
        simp only [next, h, hLook]
      rw [hConsult, Option.bind_some, next_delete_elsewhere hFresh, Option.bind_some,
        next_create_elsewhere hIdle, AddrCache.getclnthandle, hLook]
      rfl
  | stale addr =>
      have hMoved : (s.moved caller (.stale c addr)).phase caller = .stale c addr :=
        phase_moved ..
      have hConsult : s.next (.consult caller c) = some (s.moved caller (.stale c addr)) := by
        simp only [next, h, hLook]
      rw [hConsult, Option.bind_some, next_delete hMoved, Option.bind_some,
        next_create_cache (phase_deleted ..), AddrCache.getclnthandle, hLook]
      rfl
  | afresh =>
      have hMoved : (s.moved caller (.afresh c)).phase caller = .afresh c := phase_moved ..
      have hFresh : ∀ c' addr, (s.moved caller (.afresh c)).phase caller ≠ .stale c' addr :=
        fun c' addr hPhase => by cases hMoved.symm.trans hPhase
      have hConsult : s.next (.consult caller c) = some (s.moved caller (.afresh c)) := by
        simp only [next, h, hLook]
      rw [hConsult, Option.bind_some, next_delete_elsewhere hFresh, Option.bind_some,
        next_create_cache hMoved, AddrCache.getclnthandle, hLook]
      rfl

theorem Keeps.create (h : Keeps s kept) (caller : Nat) :
    Meets s (.create caller) → Goes s (.create caller) := by
  intro hMeets
  by_cases hAfresh : ∃ c, s.phase caller = .afresh c
  · obtain ⟨c, hPhase⟩ := hAfresh
    cases hStores : c.stores with
    | none =>
        obtain ⟨s', hNext, hCache, hStored⟩ := next_create_none hPhase hStores
        refine ⟨s', kept, hNext, ?_, h.congr hCache hStored⟩
        intro c' st hPhase' hSome
        obtain rfl := CallerPhase.afresh.inj (hPhase.symm.trans hPhase')
        rw [hStores] at hSome
        cases hSome
    | some st =>
        obtain ⟨s', hNext, hFront, hSize, hStored⟩ := h.next_create hPhase hStores
        have hInsertable := h.insertable_iff (create_of_stores hStores s.cache).1
        have hNew := hInsertable.mp fun e => hMeets c e hPhase (by rw [hStores]; rfl)
        refine ⟨s', _, hNext, ?_, h.insert hFront hSize hStored hNew⟩
        intro c' st' hPhase' hStores' hFull
        obtain rfl := CallerPhase.afresh.inj (hPhase.symm.trans hPhase')
        obtain rfl := Option.some.inj (hStores.symm.trans hStores')
        obtain ⟨oldest, hOld, hOlder⟩ := h.evicts hFull
        exact ⟨_, oldest, hOld, by rw [hFront, List.map_cons], hOlder⟩
  · refine ⟨s, kept, next_create_elsewhere fun c hPhase => hAfresh ⟨c, hPhase⟩, ?_, h⟩
    intro c st hPhase
    exact absurd ⟨c, hPhase⟩ hAfresh

/-- An event that meets the condition goes well. -/
theorem Keeps.goes (h : Keeps s kept) (e : CacheEvent inet) (hMeets : Meets s e) : Goes s e := by
  cases e with
  | consult caller c => exact h.consult caller c hMeets
  | delete caller => exact h.delete caller hMeets
  | create caller => exact h.create caller hMeets

/-- An event that is consistent has met the condition. -/
theorem Keeps.meets (h : Keeps s kept) (e : CacheEvent inet) (hConsistent : Consistent s e) :
    Meets s e := by
  obtain ⟨s', hNext, hDoes, hTidy⟩ := hConsistent
  cases e with
  | consult caller c => exact (h.does_consult_iff s').mp hDoes
  | delete caller =>
      intro c addr e hPhase hFound
      obtain rfl := Option.some.inj ((next_delete hPhase).symm.trans hNext)
      exact (h.deletes_iff c.behind c addr).mp (hDoes c addr hPhase) e hFound
  | create caller =>
      intro c e hPhase hStores
      obtain ⟨st, hStores⟩ := Option.isSome_iff_exists.mp hStores
      obtain ⟨s'', hNext', hFront, _⟩ := h.next_create hPhase hStores
      obtain rfl := Option.some.inj (hNext'.symm.trans hNext)
      have hInsertable := h.insertable_iff (create_of_stores hStores s.cache).1
      exact hInsertable.mpr (apart_of_tidy hTidy hFront) e

theorem Keeps.consistent_iff (h : Keeps s kept) (e : CacheEvent inet) :
    Consistent s e ↔ Meets s e := by
  constructor
  · exact h.meets e
  · intro hMeets
    obtain ⟨s', kept', hNext, hDoes, hKept'⟩ := h.goes e hMeets
    exact ⟨s', hNext, hDoes, hKept'.tidy⟩

/-- A run of the callers is consistent throughout exactly if all of its events meet the
condition. -/
theorem consistent_throughout_iff (events : List (CacheEvent inet)) :
    Runs.Throughout next Consistent start events ↔ Runs.Throughout next Meets start events := by
  apply Runs.throughout_iff fun s => ∃ kept, Keeps s kept
  · rintro s e ⟨kept, hKeeps⟩
    exact hKeeps.consistent_iff e
  · rintro s e s' ⟨kept, hKeeps⟩ hMeets hNext
    obtain ⟨s'', kept', hNext', _, hKept'⟩ := hKeeps.goes e hMeets
    obtain rfl := Option.some.inj (hNext'.symm.trans hNext)
    exact ⟨kept', hKept'⟩
  · exact ⟨[], keeps_start⟩

/-- The rpcbind of the loopback host, at both of its transports. -/
def sunrpc : List UInt8 := Sockaddr.inet 111 [127, 0, 0, 1]

theorem udpConf_short : (CString.ascii "udp").length < 1000 ∧
    (CString.ascii "inet").length < 1000 ∧ (CString.ascii "udp").length < 1000 := by decide

/-- `udp` and `tcp`, as `/etc/netconfig` has them. -/
def udpConf : NetconfigEnt where
  ncNetid := CString.ascii "udp"
  ncProtofmly := CString.ascii "inet"
  ncProto := CString.ascii "udp"
  ncSemantics := 1
  short := udpConf_short

def tcpConf : NetconfigEnt where
  ncNetid := CString.ascii "tcp"
  ncProtofmly := CString.ascii "inet"
  ncProto := CString.ascii "tcp"
  ncSemantics := 3
  short := by decide

/-- A call that finds the rpcbind there. -/
def sunrpcCall (nconf : NetconfigEnt)
    (whole : (taddr2uaddr loopbackInet nconf (Netbuf.ofAddr sunrpc)).isSome) (targaddr : Bool)
    (atCached : Option Nat) : HandleCall loopbackInet where
  host := CString.ascii "localhost"
  nconf := nconf
  targaddr := targaddr
  atCached := atCached
  copied := true
  behind := fun _ _ => 0
  res := some [{ aiAddr := sunrpc, client := some 0, whole := whole }]
  allocated := true

def udpCall : Bool → Option Nat → HandleCall loopbackInet :=
  sunrpcCall udpConf (by decide)

def tcpCall : Bool → Option Nat → HandleCall loopbackInet :=
  sunrpcCall tcpConf (by decide)

/-- A call asks for the universal address of what has been stored for one that did not; and a
handle over `udp` that can no longer be created costs `tcp` its entry. -/
theorem not_consistent_throughout :
    ¬ Runs.Throughout next Consistent start
        [.consult 0 (udpCall false none), .create 0, .consult 0 (udpCall true (some 0))] ∧
      ¬ Runs.Throughout next Consistent start
        [.consult 0 (udpCall false none), .create 0, .consult 0 (tcpCall false none), .create 0,
          .consult 0 (udpCall false none), .delete 0] := by
  constructor
  · intro h
    have hStored := (h.2 _ rfl).2 _ rfl
    obtain ⟨_, _, hDoes, _⟩ := hStored.1
    have hUaddr := hDoes _ _ rfl rfl rfl rfl
    cases hUaddr
  · intro h
    have hStored := (((h.2 _ rfl).2 _ rfl).2 _ rfl).2 _ rfl
    have hStale := hStored.2 _ rfl
    obtain ⟨s, hNext, hDoes, _⟩ := hStale.1
    obtain rfl := Option.some.inj hNext
    have hFront := congrArg (List.map AddressCache.acNetid) (hDoes _ _ rfl)
    revert hFront
    decide

end CachedAddrs

end OncRpc
