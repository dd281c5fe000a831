import OncRpc.Base.Heap
import OncRpc.Xdr.Block
import OncRpc.Xdr.FilterCodec

/-! Filters that follow pointers. A stream is paired with a memory in which structs and areas of
bytes are allocated and freed, and a filter is given the place of its object. Something touched
that is not there, or not there any more, stops the filter and is remembered. -/
namespace OncRpc

open XdrOps Fallible

/-- A member of a struct. -/
inductive Slot where
  | word (w : BitVec 32)
  | ptr (p : Option Nat)
  deriving DecidableEq, Repr

/-- What `mem_alloc` was asked for: a struct or an area of bytes. -/
inductive Cell where
  | object (slots : List Slot)
  | area (bytes : List UInt8)
  deriving DecidableEq, Repr

/-- Where an object is: a variable of the caller, the variable `next_copy`, or a member of a
struct. -/
inductive Place where
  | caller
  | nextCopy
  | member (obj i : Nat)
  deriving DecidableEq, Repr

structure Memory where
  heap : Heap Cell
  caller : Option Nat
  nextCopy : Option Nat
  /-- The addresses that `mem_free` was given, in order. -/
  freed : List Nat
  /-- Something that is not there was touched. -/
  stray : Bool

namespace Memory

/-- Nothing is allocated, and the pointers are NULL. -/
def empty : Memory := ⟨Heap.empty, none, none, [], false⟩

def object (m : Memory) (obj : Nat) : Option (List Slot) :=
  match m.heap.read obj with
  | some (.object slots) => some slots
  | _ => none

def area (m : Memory) (p : Nat) : Option (List UInt8) :=
  match m.heap.read p with
  | some (.area bytes) => some bytes
  | _ => none

def load (m : Memory) : Place → Option Slot
  | .caller => some (.ptr m.caller)
  | .nextCopy => some (.ptr m.nextCopy)
  | .member obj i => do
      let slots ← m.object obj
      slots[i]?

def store (m : Memory) : Place → Slot → Option Memory
  | .caller, .ptr p => some { m with caller := p }
  | .nextCopy, .ptr p => some { m with nextCopy := p }
  | .member obj i, v => do
      let slots ← m.object obj
      let _ ← slots[i]?
      let heap ← m.heap.store obj (.object (slots.set i v))
      some { m with heap := heap }
  | _, .word _ => none

end Memory

section Steps

variable {σ α : Type}

/-- A step in memory. -/
def touch (f : Memory → Option (α × Memory)) : Fallible (σ × Memory) α := fun s =>
  match f s.2 with
  | some (a, m) => (some a, (s.1, m))
  | none => (none, (s.1, { s.2 with stray := true }))

def loadPtr (rp : Place) : Fallible (σ × Memory) (Option Nat) := touch fun m =>
  match m.load rp with
  | some (.ptr p) => some (p, m)
  | _ => none

def loadWord (ip : Place) : Fallible (σ × Memory) (BitVec 32) := touch fun m =>
  match m.load ip with
  | some (.word w) => some (w, m)
  | _ => none

def storeAt (rp : Place) (v : Slot) : Fallible (σ × Memory) Unit := touch fun m =>
  (m.store rp v).map fun m => ((), m)

/-- The object that a pointer points to. -/
def deref (p : Option Nat) : Fallible (σ × Memory) Nat := touch fun m => p.map fun p => (p, m)

/-- The bytes that `strlen` looks at, which have to end. -/
def loadString (sp : Nat) : Fallible (σ × Memory) (List UInt8) := touch fun m => do
  let bytes ← m.area sp
  if 0 ∈ bytes then some (bytes, m) else none

/-- An area with room for `n` bytes. -/
def loadRoom (n sp : Nat) : Fallible (σ × Memory) (List UInt8) := touch fun m => do
  let bytes ← m.area sp
  if n ≤ bytes.length then some (bytes, m) else none

def storeArea (sp : Nat) (bytes : List UInt8) : Fallible (σ × Memory) Unit := touch fun m => do
  let _ ← m.area sp
  let heap ← m.heap.store sp (.area bytes)
  some ((), { m with heap := heap })

/-- `mem_alloc`, and what is put there. -/
def newCell (c : Cell) : Fallible (σ × Memory) Nat := touch fun m =>
  some ((m.heap.malloc c).1, { m with heap := (m.heap.malloc c).2 })

def memFree (p : Nat) : Fallible (σ × Memory) Unit := touch fun m => do
  let heap ← m.heap.free p
  some ((), { m with heap := heap, freed := m.freed ++ [p] })

/-- What a filter returns, where its caller goes on after a FALSE. -/
def attempt (m : Fallible (σ × Memory) α) : Fallible (σ × Memory) (Option α) := fun s =>
  match m s with
  | (some a, s') => (some (some a), s')
  | (none, s') => if s'.2.stray then (none, s') else (some none, s')

end Steps

section Filters

variable {σ : Type} [XdrOps σ]

/-- `xdr_u_int32_t` and `xdr_u_long`. -/
def xdrUInt32TAt (op : XdrOp) (ip : Place) : Fallible (σ × Memory) Unit :=
  match op with
  | .encode => do
      let w ← loadWord ip
      putlong w
  | .decode => do
      let w ← getlong
      storeAt ip (.word w)
  | .free => pure ()

/-- The end of the string is set before its bytes are read. -/
def fillString (sp size : Nat) : Fallible (σ × Memory) Unit := do
  let bytes ← loadRoom (size + 1) sp
  let bytes ← xdrOpaque .decode (Buffer.writeAt bytes size [0]) size
  storeArea sp bytes

/-- `xdr_string`. -/
def xdrStringAt (maxsize : Nat) (op : XdrOp) (cpp : Place) : Fallible (σ × Memory) Unit := do
  let sp ← loadPtr cpp
  match op, sp with
  | .free, none => pure ()
  | .free, some sp => do
      let bytes ← loadString sp
      let size ← xdrUInt .free (BitVec.ofNat 32 (strlen bytes))
      require (¬ size.toNat > maxsize)
      memFree sp
      storeAt cpp (.ptr none)
  | .encode, sp => do
      let sp ← deref sp
      let bytes ← loadString sp
      let size ← xdrUInt .encode (BitVec.ofNat 32 (strlen bytes))
      require (¬ size.toNat > maxsize)
      let _ ← xdrOpaque .encode bytes size.toNat
      pure ()
  | .decode, sp => do
      let size ← xdrUInt .decode 0
      require (¬ size.toNat > maxsize)
      let nodesize := (size + 1).toNat
      if nodesize = 0 then pure ()
      else
        match sp with
        | some sp => fillString sp size.toNat
        | none => do
            let sp ← newCell (.area (memAlloc nodesize))
            storeAt cpp (.ptr (some sp))
            let ret ← attempt (fillString sp size.toNat)
            -- What was allocated here does not stay behind a failure.
            if ret.isNone then do
              memFree sp
              storeAt cpp (.ptr none)
            require ret.isSome

/-- `xdr_reference`, where `zero` is the object `memset` leaves. -/
def xdrReferenceAt (zero : List Slot) (proc : XdrOp → Nat → Fallible (σ × Memory) Unit)
    (op : XdrOp) (pp : Place) : Fallible (σ × Memory) Unit := do
  let loc ← loadPtr pp
  match op, loc with
  | .free, none => pure ()
  | .free, some loc => do
      let stat ← attempt (proc .free loc)
      memFree loc
      storeAt pp (.ptr none)
      require stat.isSome
  | .decode, none => do
      let loc ← newCell (.object zero)
      storeAt pp (.ptr (some loc))
      proc .decode loc
  | op, loc => do
      let loc ← deref loc
      proc op loc

/-- `xdr_pointer`. -/
def xdrPointerAt (zero : List Slot) (proc : XdrOp → Nat → Fallible (σ × Memory) Unit)
    (op : XdrOp) (objpp : Place) : Fallible (σ × Memory) Unit := do
  let obj ← loadPtr objpp
  let moreData ← xdrBool op (if obj.isSome then 1 else 0)
  if moreData = 0 then storeAt objpp (.ptr none)
  else xdrReferenceAt zero proc op objpp

end Filters

/-! ### What a computation does to the memory, and what to the stream -/

section Rules

variable {σ β α γ : Type} {b b₁ b₂ : β} {m : Fallible (σ × β) α} {a : α}

/-- The computation yields `a` and leaves the stream alone. -/
def Runs (b b' : β) (m : Fallible (σ × β) α) (a : α) : Prop :=
  ∀ s, m.run (s, b) = (some a, (s, b'))

/-- The computation does to the stream what `p` does, and leaves alone what goes with it. -/
def Mirrors (b : β) (m : Fallible (σ × β) α) (p : Fallible σ α) : Prop :=
  ∀ s, m.run (s, b) = (onStream p).run (s, b)

/-- The computation takes the bytes `bs` off every lawful stream and yields `a`. -/
def Decodes (R : σ → List UInt8 → Prop) (b b' : β) (bs : List UInt8) (m : Fallible (σ × β) α)
    (a : α) : Prop :=
  ∀ s t, R s (bs ++ t) → ∃ s', m.run (s, b) = (some a, (s', b')) ∧ R s' t

theorem Runs.pure (b : β) (a : α) : Runs b b (Pure.pure a : Fallible (σ × β) α) a := fun _ => rfl

theorem Runs.bind {f : α → Fallible (σ × β) γ} {c : γ} (hm : Runs b b₁ m a)
    (hf : Runs b₁ b₂ (f a) c) : Runs b b₂ (m >>= f) c := by
  intro s
  rw [run_bind_some (hm s), hf s]

theorem Runs.require {c : Prop} [Decidable c] (hc : c) :
    Runs b b (Fallible.require c : Fallible (σ × β) Unit) () := by
  intro s
  rw [run_require, if_pos hc]

theorem Mirrors.pure (b : β) (a : α) :
    Mirrors b (Pure.pure a : Fallible (σ × β) α) (Pure.pure a) := fun _ => rfl

theorem Mirrors.require (b : β) (c : Prop) [Decidable c] :
    Mirrors b (Fallible.require c : Fallible (σ × β) Unit) (Fallible.require c) := fun _ => rfl

theorem Mirrors.bind {p : Fallible σ α} {f : α → Fallible (σ × β) γ} {g : α → Fallible σ γ}
    (hm : Mirrors b m p) (hf : ∀ a, Mirrors b (f a) (g a)) : Mirrors b (m >>= f) (p >>= g) := by
  intro s
  have hFirst := hm s
  rw [run_onStream] at hFirst ⊢
  rw [run_bind p g s]
  rcases hRun : p.run s with ⟨_ | a, s'⟩
  · rw [hRun] at hFirst
    exact run_bind_none hFirst
  · rw [hRun] at hFirst
    rw [run_bind_some hFirst, hf a s', run_onStream]

/-- Steps in the memory that leave it as it is do not matter. -/
theorem Runs.mirrors {f : α → Fallible (σ × β) γ} {p : Fallible σ γ} (hm : Runs b b m a)
    (hf : Mirrors b (f a) p) : Mirrors b (m >>= f) p := by
  intro s
  rw [run_bind_some (hm s), hf s]

variable {R : σ → List UInt8 → Prop} {bs cs : List UInt8}

theorem Runs.decodes (hm : Runs b b₁ m a) : Decodes R b b₁ [] m a :=
  fun s _ hR => ⟨s, hm s, hR⟩

theorem Decodes.bind {f : α → Fallible (σ × β) γ} {c : γ} (hm : Decodes R b b₁ bs m a)
    (hf : Decodes R b₁ b₂ cs (f a) c) : Decodes R b b₂ (bs ++ cs) (m >>= f) c := by
  intro s t hR
  rw [List.append_assoc] at hR
  obtain ⟨s₁, hRun, hR₁⟩ := hm s (cs ++ t) hR
  obtain ⟨s₂, hRun₂, hR₂⟩ := hf s₁ t hR₁
  exact ⟨s₂, by rw [run_bind_some hRun, hRun₂], hR₂⟩

/-- A step in the memory first. -/
theorem Runs.bind_decodes {f : α → Fallible (σ × β) γ} {c : γ} (hm : Runs b b₁ m a)
    (hf : Decodes R b₁ b₂ bs (f a) c) : Decodes R b b₂ bs (m >>= f) c :=
  hm.decodes.bind hf

/-- A step in the memory last. -/
theorem Decodes.bind_runs {f : α → Fallible (σ × β) γ} {c : γ} (hm : Decodes R b b₁ bs m a)
    (hf : Runs b₁ b₂ (f a) c) : Decodes R b b₂ bs (m >>= f) c := by
  simpa using hm.bind hf.decodes

variable [XdrOps σ]

/-- A lawful stream stays lawful with something beside it. -/
theorem LawfulReader.beside (hLaw : LawfulReader R) (b : β) :
    LawfulReader fun (s : σ × β) t => R s.1 t ∧ s.2 = b where
  getlong := by
    rintro ⟨s, _⟩ t ⟨hR, rfl⟩
    obtain ⟨hAns, hKeep⟩ := hLaw.getlong s t hR
    exact ⟨hAns, fun hSome => ⟨hKeep hSome, rfl⟩⟩
  getbytes := by
    rintro n ⟨s, _⟩ t ⟨hR, rfl⟩
    obtain ⟨hAns, hKeep⟩ := hLaw.getbytes n s t hR
    exact ⟨hAns, fun hSome => ⟨hKeep hSome, rfl⟩⟩
  inline := by
    rintro n ⟨s, c⟩ t ⟨hR, rfl⟩
    rcases hLaw.inline n s t hR with ⟨s', hRun, hR'⟩ | ⟨p, s', hRun, hLen, hR', hLoads⟩
    · refine Or.inl ⟨(s', c), ?_, hR', rfl⟩
      show (onStream (XdrOps.inline .decode n)).run (s, c) = _
      rw [run_onStream, hRun]
    · refine Or.inr ⟨p, (s', c), ?_, hLen, ⟨hR', rfl⟩, hLoads⟩
      show (onStream (XdrOps.inline .decode n)).run (s, c) = _
      rw [run_onStream, hRun]

omit [XdrOps σ] in
theorem Decodes.of_takes {p : Fallible ByteStream α}
    (h : Refines (fun (s : σ × β) t => R s.1 t ∧ s.2 = b) (fun s t => R s.1 t ∧ s.2 = b) m p)
    (hp : ByteStream.Takes p a bs) : Decodes R b b bs m a := by
  intro s t hR
  obtain ⟨⟨s', _⟩, hRun, hR', rfl⟩ := h.run_some (s := (s, b)) ⟨hR, rfl⟩ (hp t)
  exact ⟨s', hRun, hR'⟩

theorem Decodes.xdrInteger (hLaw : LawfulReader R) {w : Nat} (toLong : BitVec w → BitVec 32)
    (ofLong : BitVec 32 → BitVec w) (v : BitVec w) (l : BitVec 32) :
    Decodes R b b (Word.toBytes l) (OncRpc.xdrInteger toLong ofLong .decode v) (ofLong l) :=
  Decodes.of_takes (decodes_xdrInteger (hLaw.beside b) toLong ofLong v)
    (takes_xdrInteger toLong ofLong v l)

theorem Mirrors.putlong (b : β) (w : BitVec 32) :
    Mirrors b (XdrOps.putlong w : Fallible (σ × β) Unit) (XdrOps.putlong w) := fun _ => rfl

theorem Mirrors.xdrInteger (b : β) {w : Nat} (toLong : BitVec w → BitVec 32)
    (ofLong : BitVec 32 → BitVec w) (v : BitVec w) :
    Mirrors b (OncRpc.xdrInteger toLong ofLong .encode v : Fallible (σ × β) _)
      (OncRpc.xdrInteger toLong ofLong .encode v) :=
  (Mirrors.putlong b _).bind fun _ => Mirrors.pure b v

theorem Mirrors.xdrOpaque (b : β) (cp : List UInt8) (cnt : Nat) :
    Mirrors b (OncRpc.xdrOpaque .encode cp cnt : Fallible (σ × β) _)
      (OncRpc.xdrOpaque .encode cp cnt) := by
  have hPut (bytes : List UInt8) : Mirrors b (XdrOps.putbytes bytes : Fallible (σ × β) Unit)
      (XdrOps.putbytes bytes) := fun _ => rfl
  unfold OncRpc.xdrOpaque
  split
  · exact Mirrors.pure b cp
  · refine (hPut _).bind fun _ => ?_
    split
    · exact Mirrors.pure b cp
    · exact (hPut _).bind fun _ => Mirrors.pure b cp

theorem Decodes.xdrOpaque (hLaw : LawfulReader R) (cp bytes : List UInt8) :
    Decodes R b b (padded bytes) (OncRpc.xdrOpaque .decode cp bytes.length)
      (Buffer.writeAt cp 0 bytes) :=
  Decodes.of_takes (refines_xdrOpaque (hLaw.beside b) cp bytes.length)
    (takes_xdrOpaque cp bytes)

end Rules

/-! ### Steps in memory -/

namespace Memory

variable {σ α γ : Type} {m m' : Memory} {obj p i : Nat} {slots : List Slot} {c : Cell}

/-- The variables are what they were, and nothing was touched that is not there. -/
structure SameVars (m m' : Memory) : Prop where
  caller : m'.caller = m.caller
  nextCopy : m'.nextCopy = m.nextCopy
  stray : m'.stray = m.stray

theorem SameVars.refl (m : Memory) : SameVars m m := ⟨rfl, rfl, rfl⟩

theorem SameVars.trans {m₁ : Memory} (h : SameVars m m₁) (h' : SameVars m₁ m') :
    SameVars m m' :=
  ⟨h'.caller.trans h.caller, h'.nextCopy.trans h.nextCopy, h'.stray.trans h.stray⟩

/-- One cell was replaced. -/
structure Wrote (m m' : Memory) (p : Nat) (c : Cell) : Prop where
  heap : Heap.Updated m.heap m'.heap p (some c)
  vars : SameVars m m'
  freed : m'.freed = m.freed

theorem load_member (hObj : m.heap.read obj = some (.object slots)) (i : Nat) :
    m.load (.member obj i) = slots[i]? := by
  simp only [load, object, hObj]
  rfl

theorem load_member_middle {pre post : List Slot} {v : Slot}
    (hObj : m.heap.read obj = some (.object (pre ++ v :: post))) :
    m.load (.member obj pre.length) = some v := by
  rw [load_member hObj]
  simp

theorem store_member {pre post : List Slot} {v : Slot}
    (hObj : m.heap.read obj = some (.object (pre ++ v :: post))) (v' : Slot) :
    ∃ m', m.store (.member obj pre.length) v' = some m' ∧
      Wrote m m' obj (.object (pre ++ v' :: post)) := by
  obtain ⟨h', hStore, hUpdated⟩ := Heap.store_of_read hObj (.object (pre ++ v' :: post))
  refine ⟨{ m with heap := h' }, ?_, hUpdated, ⟨rfl, rfl, rfl⟩, rfl⟩
  simp [store, object, hObj, hStore]

/-- A pointer that gets what it is changes nothing. -/
theorem store_self {rp : Place} {q : Option Nat} (hLoad : m.load rp = some (.ptr q)) :
    m.store rp (.ptr q) = some m := by
  cases rp with
  | caller =>
      cases hLoad
      rfl
  | nextCopy =>
      cases hLoad
      rfl
  | member obj i =>
      rcases hObj : m.heap.read obj with _ | ⟨slots⟩ | ⟨bytes⟩
      · simp [load, object, hObj] at hLoad
      · rw [load_member hObj] at hLoad
        have hSame : slots.set i (.ptr q) = slots := by
          obtain ⟨hLt, hSlot⟩ := List.getElem?_eq_some_iff.mp hLoad
          rw [← hSlot, List.set_getElem_self]
        have hStore : m.heap.store obj (.object slots) = some m.heap := Heap.store_self hObj
        simp [store, object, hObj, hLoad, hSame, hStore]
      · simp [load, object, hObj] at hLoad

theorem store_ptr {rp : Place} {q : Option Nat} (hLoad : m.load rp = some (.ptr q))
    (q' : Option Nat) : ∃ m', m.store rp (.ptr q') = some m' ∧ m'.heap.brk = m.heap.brk ∧
      m'.load rp = some (.ptr q') := by
  cases rp with
  | caller => exact ⟨_, rfl, rfl, rfl⟩
  | nextCopy => exact ⟨_, rfl, rfl, rfl⟩
  | member obj i =>
      rcases hObj : m.heap.read obj with _ | ⟨slots⟩ | ⟨bytes⟩
      · simp [load, object, hObj] at hLoad
      · rw [load_member hObj] at hLoad
        obtain ⟨hLt, -⟩ := List.getElem?_eq_some_iff.mp hLoad
        obtain ⟨h', hStore, hUpdated⟩ := Heap.store_of_read hObj (.object (slots.set i (.ptr q')))
        have hRead : ({ m with heap := h' } : Memory).heap.read obj =
            some (.object (slots.set i (.ptr q'))) := by
          rw [hUpdated.read, if_pos rfl]
        refine ⟨{ m with heap := h' }, ?_, hUpdated.brk, ?_⟩
        · simp [store, object, hObj, hLoad, hStore]
        · rw [load_member hRead]
          simp [hLt]
      · simp [load, object, hObj] at hLoad

theorem runs_touch {f : Memory → Option (α × Memory)} {a : α} (h : f m = some (a, m')) :
    Runs m m' (touch f : Fallible (σ × Memory) α) a := by
  intro s
  show touch f (s, m) = _
  simp only [touch, h]

/-- The computation touches something that is not there. -/
def Strays (m : Memory) (f : Fallible (σ × Memory) α) : Prop :=
  ∀ s, ∃ m', f.run (s, m) = (none, (s, m')) ∧ m'.stray = true

theorem strays_touch {f : Memory → Option (α × Memory)} (h : f m = none) :
    Strays m (touch f : Fallible (σ × Memory) α) := by
  intro s
  refine ⟨{ m with stray := true }, ?_, rfl⟩
  show touch f (s, m) = _
  simp only [touch, h]

theorem Strays.bind {f : Fallible (σ × Memory) α} {g : α → Fallible (σ × Memory) γ}
    (h : Strays m f) : Strays m (f >>= g) := by
  intro s
  obtain ⟨m', hRun, hStray⟩ := h s
  exact ⟨m', run_bind_none hRun, hStray⟩

theorem Runs.strays {f : Fallible (σ × Memory) α} {g : α → Fallible (σ × Memory) γ} {a : α}
    (hf : Runs m m' f a) (hg : Strays m' (g a)) : Strays m (f >>= g) := by
  intro s
  rw [run_bind_some (hf s)]
  exact hg s

theorem runs_loadPtr {rp : Place} {q : Option Nat} (h : m.load rp = some (.ptr q)) :
    Runs m m (loadPtr rp : Fallible (σ × Memory) _) q :=
  runs_touch (by simp only [h])

theorem runs_loadWord {ip : Place} {w : BitVec 32} (h : m.load ip = some (.word w)) :
    Runs m m (loadWord ip : Fallible (σ × Memory) _) w :=
  runs_touch (by simp only [h])

theorem runs_storeAt {rp : Place} {v : Slot} (h : m.store rp v = some m') :
    Runs m m' (storeAt rp v : Fallible (σ × Memory) _) () :=
  runs_touch (by rw [h]; rfl)

theorem runs_deref (m : Memory) (p : Nat) :
    Runs m m (deref (some p) : Fallible (σ × Memory) _) p := runs_touch rfl

theorem runs_loadString {bytes : List UInt8} (hArea : m.heap.read p = some (.area bytes))
    (hNul : 0 ∈ bytes) : Runs m m (loadString p : Fallible (σ × Memory) _) bytes :=
  runs_touch (by simp [area, hArea, hNul])

theorem runs_loadRoom {bytes : List UInt8} {n : Nat}
    (hArea : m.heap.read p = some (.area bytes)) (hRoom : n ≤ bytes.length) :
    Runs m m (loadRoom n p : Fallible (σ × Memory) _) bytes :=
  runs_touch (by simp [area, hArea, hRoom])

theorem runs_storeArea {bytes : List UInt8} (hArea : m.heap.read p = some (.area bytes))
    (bytes' : List UInt8) :
    ∃ m', Runs m m' (storeArea p bytes' : Fallible (σ × Memory) _) () ∧
      Wrote m m' p (.area bytes') := by
  obtain ⟨h', hStore, hUpdated⟩ := Heap.store_of_read hArea (.area bytes')
  refine ⟨{ m with heap := h' }, runs_touch ?_, hUpdated, ⟨rfl, rfl, rfl⟩, rfl⟩
  simp [area, hArea, hStore]

/-- A cell was freed. -/
structure Dropped (m m' : Memory) (p : Nat) : Prop where
  heap : Heap.Updated m.heap m'.heap p none
  vars : SameVars m m'
  freed : m'.freed = m.freed ++ [p]

theorem runs_memFree (hRead : m.heap.read p = some c) :
    ∃ m', Runs m m' (memFree p : Fallible (σ × Memory) _) () ∧ Dropped m m' p := by
  obtain ⟨h', hFree, hUpdated⟩ := Heap.free_of_read hRead
  refine ⟨{ m with heap := h', freed := m.freed ++ [p] }, runs_touch ?_, hUpdated,
    ⟨rfl, rfl, rfl⟩, rfl⟩
  simp [hFree]

/-- The memory with one more cell. -/
def grown (m : Memory) (c : Cell) : Memory := { m with heap := (m.heap.malloc c).2 }

theorem runs_newCell (m : Memory) (c : Cell) :
    Runs m (m.grown c) (newCell c : Fallible (σ × Memory) _) m.heap.brk := runs_touch rfl

theorem Runs.attempt {f : Fallible (σ × Memory) α} {a : α} (h : Runs m m' f a) :
    Runs m m' (attempt f) (some a) := by
  intro s
  have hRun := h s
  show OncRpc.attempt f (s, m) = _
  rw [run] at hRun
  simp only [OncRpc.attempt, hRun]

theorem Decodes.attempt {R : σ → List UInt8 → Prop} {bs : List UInt8}
    {f : Fallible (σ × Memory) α} {a : α} (h : Decodes R m m' bs f a) :
    Decodes R m m' bs (attempt f) (some a) := by
  intro s t hR
  obtain ⟨s', hRun, hR'⟩ := h s t hR
  refine ⟨s', ?_, hR'⟩
  show OncRpc.attempt f (s, m) = _
  rw [run] at hRun
  simp only [OncRpc.attempt, hRun]

/-- The cells `ps` were freed in this order. Of the other cells only those in `own` changed. -/
structure Released (own ps : List Nat) (m m' : Memory) : Prop where
  read : ∀ q, q ∉ own → m'.heap.read q = if q ∈ ps then none else m.heap.read q
  vars : SameVars m m'
  freed : m'.freed = m.freed ++ ps

theorem Released.refl (own : List Nat) (m : Memory) : Released own [] m m where
  read _ _ := rfl
  vars := SameVars.refl m
  freed := (List.append_nil _).symm

theorem Released.trans {own ps qs : List Nat} {m₁ : Memory} (h : Released own ps m m₁)
    (h' : Released own qs m₁ m') : Released own (ps ++ qs) m m' where
  read q hq := by
    rw [h'.read q hq, h.read q hq]
    by_cases hFirst : q ∈ ps <;> simp [hFirst]
  vars := h.vars.trans h'.vars
  freed := by rw [h'.freed, h.freed, List.append_assoc]

theorem Dropped.released (h : Dropped m m' p) (own : List Nat) : Released own [p] m m' where
  read q _ := by
    rw [h.heap.read]
    simp
  vars := h.vars
  freed := h.freed

theorem Wrote.released (h : Wrote m m' p c) : Released [p] [] m m' where
  read q hq := by
    rw [h.heap.read, if_neg (by simpa using hq)]
    rfl
  vars := h.vars
  freed := by rw [h.freed, List.append_nil]

/-- The object is freed after what it points to. -/
theorem Released.dropped {ps : List Nat} {m₁ : Memory} (h : Released [p] ps m m₁)
    (h' : Dropped m₁ m' p) : Released [] (ps ++ [p]) m m' where
  read q _ := by
    rw [h'.heap.read]
    by_cases hq : q = p
    · simp [hq]
    · rw [if_neg hq, h.read q (by simpa using hq)]
      simp [hq]
  vars := h.vars.trans h'.vars
  freed := by rw [h'.freed, h.freed, List.append_assoc]

/-- Cells were added. Of those that were there only those in `own` changed. -/
structure Grown (own : List Nat) (m m' : Memory) : Prop where
  read : ∀ q, q < m.heap.brk → q ∉ own → m'.heap.read q = m.heap.read q
  brk : m.heap.brk ≤ m'.heap.brk
  vars : SameVars m m'
  freed : m'.freed = m.freed

theorem Grown.refl (own : List Nat) (m : Memory) : Grown own m m where
  read _ _ _ := rfl
  brk := Nat.le_refl _
  vars := SameVars.refl m
  freed := rfl

theorem Grown.trans {own : List Nat} {m₁ : Memory} (h : Grown own m m₁)
    (h' : Grown own m₁ m') : Grown own m m' where
  read q hLt hq := (h'.read q (Nat.lt_of_lt_of_le hLt h.brk) hq).trans (h.read q hLt hq)
  brk := h.brk.trans h'.brk
  vars := h.vars.trans h'.vars
  freed := h'.freed.trans h.freed

theorem grown_grown (own : List Nat) (m : Memory) (c : Cell) : Grown own m (m.grown c) where
  read q hLt _ := by
    show (m.heap.malloc c).2.read q = m.heap.read q
    rw [Heap.read_malloc, if_neg (Nat.ne_of_lt hLt)]
  brk := by
    show m.heap.brk ≤ (m.heap.malloc c).2.brk
    rw [Heap.brk_malloc]
    exact Nat.le_succ _
  vars := ⟨rfl, rfl, rfl⟩
  freed := rfl

theorem store_grown {rp : Place} {v : Slot} (hStore : m.store rp v = some m') (c : Cell) :
    (m.grown c).store rp v = some (m'.grown c) := by
  cases rp with
  | caller =>
      cases v with
      | word w => cases hStore
      | ptr q =>
          cases hStore
          rfl
  | nextCopy =>
      cases v with
      | word w => cases hStore
      | ptr q =>
          cases hStore
          rfl
  | member obj i =>
      rcases hObj : m.heap.read obj with _ | ⟨slots⟩ | ⟨bytes⟩
      · simp [store, object, hObj] at hStore
      · have hKept : (m.heap.malloc c).2.read obj = some (.object slots) :=
          Heap.read_malloc_of_read hObj
        cases hSlot : slots[i]? with
        | none => simp [store, object, hObj, hSlot] at hStore
        | some old =>
            obtain ⟨h', hHeap, -⟩ := Heap.store_of_read hObj (.object (slots.set i v))
            have hLater : (m.heap.malloc c).2.store obj (.object (slots.set i v)) =
                some (h'.malloc c).2 := Heap.store_malloc hHeap c
            have hEq : ({ m with heap := h' } : Memory) = m' := by
              simpa [store, object, hObj, hSlot, hHeap] using hStore
            subst hEq
            simp [store, object, hKept, hSlot, hLater, grown]
      · simp [store, object, hObj] at hStore

/-- A place outside the own cells holds what it did. -/
theorem Grown.load {own : List Nat} (h : Grown own m m') {rp : Place} {v : Slot}
    (hLoad : m.load rp = some v) (hOutside : ∀ obj ∈ own, ∀ i, rp ≠ .member obj i) :
    m'.load rp = some v := by
  cases rp with
  | caller =>
      rw [← hLoad]
      exact congrArg (fun q => some (Slot.ptr q)) h.vars.caller
  | nextCopy =>
      rw [← hLoad]
      exact congrArg (fun q => some (Slot.ptr q)) h.vars.nextCopy
  | member obj i =>
      have hNot : obj ∉ own := fun hOwn => hOutside obj hOwn i rfl
      rcases hObj : m.heap.read obj with _ | ⟨slots⟩ | ⟨bytes⟩
      · simp [Memory.load, object, hObj] at hLoad
      · have hSame := h.read obj (Heap.lt_brk_of_read hObj) hNot
        rw [hObj] at hSame
        rw [load_member hSame, ← load_member hObj, hLoad]
      · simp [Memory.load, object, hObj] at hLoad

/-- An own cell that is new does not show. -/
theorem Grown.of_new {own : List Nat} (h : Grown own m m') (hNew : ∀ q ∈ own, m.heap.brk ≤ q) :
    Grown [] m m' where
  read q hLt _ := h.read q hLt fun hOwn => Nat.not_lt.mpr (hNew q hOwn) hLt
  brk := h.brk
  vars := h.vars
  freed := h.freed

theorem Grown.mono {own own' : List Nat} (h : Grown own m m') (hSub : own ⊆ own') :
    Grown own' m m' where
  read q hLt hq := h.read q hLt fun hOwn => hq (hSub hOwn)
  brk := h.brk
  vars := h.vars
  freed := h.freed

/-- What is written to an own cell, or to a new one, does not show. -/
theorem Grown.wrote {own : List Nat} {m₁ : Memory} (h : Grown own m m₁) (h' : Wrote m₁ m' p c)
    (hNew : p ∈ own ∨ m.heap.brk ≤ p) : Grown own m m' where
  read q hLt hq := by
    rw [h'.heap.read, if_neg, h.read q hLt hq]
    rintro rfl
    rcases hNew with hOwn | hLe
    · exact hq hOwn
    · exact Nat.not_lt.mpr hLe hLt
  brk := by
    rw [h'.heap.brk]
    exact h.brk
  vars := h.vars.trans h'.vars
  freed := h'.freed.trans h.freed

end Memory

/-! ### Strings -/

section Strings

open Memory

variable {σ : Type} [XdrOps σ] {m : Memory} {obj p maxsize : Nat} {pre post : List Slot}
  {bytes s : List UInt8}

theorem toNat_strlen_le (bytes : List UInt8) :
    (BitVec.ofNat 32 (strlen bytes)).toNat ≤ strlen bytes := by
  rw [BitVec.toNat_ofNat]
  exact Nat.mod_le _ _

theorem mirrors_xdrStringAt (maxsize : Nat)
    (hObj : m.heap.read obj = some (.object (pre ++ .ptr (some p) :: post)))
    (hArea : m.heap.read p = some (.area bytes)) (hNul : 0 ∈ bytes) :
    Mirrors m (xdrStringAt maxsize .encode (.member obj pre.length) : Fallible (σ × Memory) _)
      (xdrString maxsize .encode (some bytes) >>= fun _ => pure ()) := by
  refine (runs_loadPtr (load_member_middle hObj)).mirrors ?_
  refine (runs_deref m p).mirrors ((runs_loadString hArea hNul).mirrors ?_)
  simp only [xdrString, Option.getD_some, bind_assoc, pure_bind]
  refine (Mirrors.xdrInteger m id id _).bind fun size => (Mirrors.require m _).bind fun _ => ?_
  exact (Mirrors.xdrOpaque m _ _).bind fun _ => Mirrors.pure m ()

theorem runs_xdrStringAt_free (maxsize : Nat)
    (hObj : m.heap.read obj = some (.object (pre ++ .ptr (some p) :: post)))
    (hArea : m.heap.read p = some (.area bytes)) (hNul : 0 ∈ bytes)
    (hMax : strlen bytes ≤ maxsize) :
    ∃ m', Runs m m' (xdrStringAt maxsize .free (.member obj pre.length) :
        Fallible (σ × Memory) _) () ∧
      m'.heap.read obj = some (.object (pre ++ .ptr none :: post)) ∧ Released [obj] [p] m m' := by
  have hNe : obj ≠ p := by
    rintro rfl
    rw [hObj] at hArea
    cases hArea
  obtain ⟨m₁, hFree, hDropped⟩ := runs_memFree (σ := σ) hArea
  have hLeft : m₁.heap.read obj = some (.object (pre ++ .ptr (some p) :: post)) := by
    rw [hDropped.heap.read, if_neg hNe, hObj]
  obtain ⟨m₂, hStore, hWrote⟩ := store_member hLeft (.ptr none)
  refine ⟨m₂, ?_, ?_, ?_⟩
  · have hSize : (BitVec.ofNat 32 (strlen bytes)).toNat ≤ maxsize :=
      (toNat_strlen_le bytes).trans hMax
    refine (runs_loadPtr (load_member_middle hObj)).bind ((runs_loadString hArea hNul).bind ?_)
    refine (Runs.pure m _).bind ((Runs.require (Nat.not_lt.mpr hSize)).bind ?_)
    exact hFree.bind (runs_storeAt hStore)
  · rw [hWrote.heap.read, if_pos rfl]
  · exact (hDropped.released [obj]).trans hWrote.released

variable {R : σ → List UInt8 → Prop}

theorem decodes_fillString (hLaw : LawfulReader R)
    (hArea : m.heap.read p = some (.area (memAlloc (s.length + 1)))) :
    ∃ m', Decodes R m m' (padded s) (fillString p s.length) () ∧
      Wrote m m' p (.area (s ++ [0])) := by
  have hEnd : Buffer.writeAt (Buffer.writeAt (memAlloc (s.length + 1)) s.length [0]) 0 s =
      s ++ [0] := by
    simp [Buffer.writeAt, memAlloc]
  obtain ⟨m', hStore, hWrote⟩ := runs_storeArea (σ := σ) hArea (s ++ [0])
  refine ⟨m', ?_, hWrote⟩
  refine (runs_loadRoom hArea (by simp [memAlloc])).bind_decodes ?_
  refine (Decodes.xdrOpaque hLaw _ s).bind_runs ?_
  rw [hEnd]
  exact hStore

/-- The string is a new cell. -/
theorem decodes_xdrStringAt (hLaw : LawfulReader R)
    (hObj : m.heap.read obj = some (.object (pre ++ .ptr none :: post)))
    (hMax : s.length ≤ maxsize) (hBound : maxsize < uintMax) :
    ∃ m', Decodes R m m' (Word.toBytes (BitVec.ofNat 32 s.length) ++ padded s)
        (xdrStringAt maxsize .decode (.member obj pre.length)) () ∧
      m'.heap.read obj = some (.object (pre ++ .ptr (some m.heap.brk) :: post)) ∧
      m'.heap.read m.heap.brk = some (.area (s ++ [0])) ∧ m'.heap.brk = m.heap.brk + 1 ∧
      Grown [obj] m m' := by
  have hToNat : (BitVec.ofNat 32 s.length).toNat = s.length := by
    rw [BitVec.toNat_ofNat]
    exact Nat.mod_eq_of_lt (by unfold uintMax at hBound; omega)
  have hNode : (BitVec.ofNat 32 s.length + 1).toNat = s.length + 1 := by
    have hOne : (1 : BitVec 32).toNat = 1 := rfl
    rw [BitVec.toNat_add, hToNat, hOne]
    exact Nat.mod_eq_of_lt (by unfold uintMax at hBound; omega)
  have hNe : obj ≠ m.heap.brk := Nat.ne_of_lt (Heap.lt_brk_of_read hObj)
  have hNew : (m.grown (.area (memAlloc (s.length + 1)))).heap.read m.heap.brk =
      some (.area (memAlloc (s.length + 1))) := by
    show (m.heap.malloc _).2.read m.heap.brk = _
    rw [Heap.read_malloc, if_pos rfl]
  have hKept : (m.grown (.area (memAlloc (s.length + 1)))).heap.read obj =
      some (.object (pre ++ .ptr none :: post)) := Heap.read_malloc_of_read hObj
  obtain ⟨m₁, hStore, hWrote⟩ := store_member hKept (.ptr (some m.heap.brk))
  have hArea : m₁.heap.read m.heap.brk = some (.area (memAlloc (s.length + 1))) := by
    rw [hWrote.heap.read, if_neg hNe.symm, hNew]
  obtain ⟨m₂, hFill, hFilled⟩ := decodes_fillString hLaw hArea
  refine ⟨m₂, ?_, ?_, ?_, ?_, ?_⟩
  · refine (runs_loadPtr (load_member_middle hObj)).bind_decodes ?_
    refine (Decodes.xdrInteger hLaw id id 0 _).bind ?_
    rw [id, hToNat]
    refine (Runs.require (Nat.not_lt.mpr hMax)).bind_decodes ?_
    simp only [hNode, Nat.add_one_ne_zero, if_false]
    refine (runs_newCell m _).bind_decodes ((runs_storeAt hStore).bind_decodes ?_)
    exact (Decodes.attempt hFill).bind_runs (Runs.require rfl)
  · rw [hFilled.heap.read, if_neg hNe, hWrote.heap.read, if_pos rfl]
  · rw [hFilled.heap.read, if_pos rfl]
  · rw [hFilled.heap.brk, hWrote.heap.brk]
    exact Heap.brk_malloc _ _
  · refine ((grown_grown [obj] m _).wrote hWrote (Or.inl List.mem_cons_self)).wrote hFilled ?_
    exact Or.inr (Nat.le_refl _)

end Strings
end OncRpc
