import Mathlib.Logic.Function.Basic
import OncRpc.Base.Runs

/-! `tls.c` of libsthread: the keys of thread-specific data, the indexes of the system that they
stand for, and what is done with the data of a thread that ends. -/
namespace OncRpc.Sthread

def pthreadMaxKeys : Nat := 64

def pthreadDestructorIterations : Nat := 32

/-- `struct tlsatom`. -/
structure TlsAtom where
  active : Bool
  destructor : Option Nat
  key : Nat
  deriving DecidableEq, Repr

/-- What a thread has at an index: something of the program, or a value that thread `thread` was
the `serial`-th to store, when the index was handed out to keys for the `key`-th time. -/
inductive TlsValue where
  | other (data : Nat)
  | stored (data thread key serial : Nat)
  deriving DecidableEq, Repr

inductive TlsError where
  | again
  | noMemory
  deriving DecidableEq, Repr

/-- Where a `pthread_key_create` is. -/
inductive KeyCreatePc where
  | idle
  /-- The slot is active, and `TlsAlloc` is next. -/
  | claimed (slot : Nat)
  /-- The index is there, and is to be set to `NULL`. -/
  | indexed (slot index : Nat)
  /-- The index is to be stored in the slot. -/
  | keying (slot index : Nat)
  /-- The slot is to be given back. -/
  | failing (slot : Nat)
  | created (slot index : Nat)
  | failed (error : TlsError)
  /-- There was a key, and `pthread_key_delete` has found it. -/
  | deleted
  deriving DecidableEq, Repr

structure KeyCreate where
  thread : Nat
  destructor : Option Nat
  pc : KeyCreatePc
  deriving DecidableEq, Repr

/-- Where a `pthread_key_delete` is. -/
inductive KeyDeletePc where
  | idle
  /-- `TlsFree` is next. -/
  | freeing (index : Nat)
  | done (found : Bool)
  deriving DecidableEq, Repr

/-- Where the `_pthread_tls_cleanup` of a thread is. -/
inductive CleanupPc where
  | idle
  /-- The data of a slot is to be read, in round `it`, of which `count` destructors were called. -/
  | scanning (it idx count : Nat)
  /-- There was data, which the destructor is to get. -/
  | found (it idx count destructor : Nat) (value : TlsValue)
  | ended (rounds : Nat)
  deriving DecidableEq, Repr

/-- The end of a thread, with how many times an index was handed out when the snapshot was taken,
and how many steps were taken since. -/
structure Cleanup where
  pc : CleanupPc
  snapshot : List TlsAtom
  since : Nat
  taken : Nat
  deriving DecidableEq, Repr

structure DestructorCall where
  thread : Nat
  destructor : Nat
  value : TlsValue
  deriving DecidableEq, Repr

/-- The table, the calls that are under way, and the indexes and the data of all threads. An index
that keys were given is told by how often that was done before, and `given` has the destructors. -/
structure Tls where
  tlskeys : List TlsAtom
  creates : Nat → KeyCreate
  deletes : Nat → KeyDeletePc
  exits : Nat → Cleanup
  foreign : Nat → Bool
  owner : Nat → Option Nat
  given : List (Option Nat)
  values : Nat → Nat → Option TlsValue
  serial : Nat
  calls : List DestructorCall

inductive TlsEvent where
  /-- `pthread_key_create` takes a slot, under the lock. -/
  | create (i thread : Nat) (destructor : Option Nat)
  /-- `TlsAlloc` returns an index, or none. -/
  | tlsAlloc (i : Nat) (index : Option Nat)
  /-- `TlsSetValue` is tried for the new index. -/
  | tlsZero (i : Nat) (ok : Bool)
  /-- The slot gets its key, or is given back. -/
  | createEnd (i : Nat)
  /-- `pthread_key_delete` looks for the key, under the lock. -/
  | delete (i key : Nat)
  | tlsFree (i : Nat)
  | setspecific (thread key data : Nat) (ok : Bool)
  /-- A thread that ends takes a snapshot, under the lock. -/
  | exit (thread : Nat)
  | cleanup (thread : Nat)
  deriving DecidableEq, Repr

namespace KeyCreatePc

/-- The slot that is held. -/
def slot? : KeyCreatePc → Option Nat
  | .claimed slot => some slot
  | .indexed slot _ => some slot
  | .keying slot _ => some slot
  | .failing slot => some slot
  | .created slot _ => some slot
  | _ => none

/-- The index that is held. -/
def index? : KeyCreatePc → Option Nat
  | .indexed _ index => some index
  | .keying _ index => some index
  | .created _ index => some index
  | _ => none

/-- The key of a slot that is created. -/
def key? : KeyCreatePc → Option Nat
  | .created _ index => some index
  | _ => none

end KeyCreatePc

/-- The slot behind one that was done with. The last one ends the round, and where no destructor was
called in it, or it was the last round, the cleanup. -/
def CleanupPc.advance (it idx count : Nat) : CleanupPc :=
  if idx + 1 < pthreadMaxKeys then .scanning it (idx + 1) count
  else if count = 0 then .ended (it + 1)
  else if it + 1 < pthreadDestructorIterations then .scanning (it + 1) 0 0
  else .ended (it + 1)

/-- The destructor of a slot, if it is active. -/
def TlsAtom.destructor? (a : TlsAtom) : Option Nat := if a.active then a.destructor else none

/-- What the thread has at the index of a slot, with the destructor that is to get it. -/
def Cleanup.dataAt (c : Cleanup) (idx : Nat) (values : Nat → Option TlsValue) :
    Option (Nat × TlsValue) := do
  let a ← c.snapshot[idx]?
  let destructor ← a.destructor?
  let value ← values a.key
  pure (destructor, value)

namespace Tls

/-- The keys, before any was created, of a program that has `foreign` indexes with `data`. -/
def init (foreign : Nat → Bool) (data : Nat → Nat → Option Nat) : Tls where
  tlskeys := List.replicate pthreadMaxKeys ⟨false, none, 0⟩
  creates := fun _ => ⟨0, none, .idle⟩
  deletes := fun _ => .idle
  exits := fun _ => ⟨.idle, [], 0, 0⟩
  foreign
  owner := fun _ => none
  given := []
  values := fun t k => (data t k).map .other
  serial := 0
  calls := []

/-- The first slot that is not active. -/
def findFree (tlskeys : List TlsAtom) : Option Nat := tlskeys.findIdx? fun a => !a.active

/-- The first active slot with the key. -/
def findKey (tlskeys : List TlsAtom) (key : Nat) : Option Nat :=
  tlskeys.findIdx? fun a => a.active && a.key == key

/-- The `i`-th `pthread_key_create` comes to `pc`. -/
def setCreate (s : Tls) (i : Nat) (pc : KeyCreatePc) : Nat → KeyCreate :=
  Function.update s.creates i { s.creates i with pc := pc }

/-- The data of all threads, with none at an index. -/
def wipe (values : Nat → Nat → Option TlsValue) (index : Nat) : Nat → Nat → Option TlsValue :=
  fun t k => if k = index then none else values t k

/-- What `thread` has at an index is replaced. -/
def place (values : Nat → Nat → Option TlsValue) (thread index : Nat) (v : Option TlsValue) :
    Nat → Nat → Option TlsValue :=
  fun t k => if t = thread ∧ k = index then v else values t k

def create (s : Tls) (i thread : Nat) (destructor : Option Nat) : Tls :=
  match (s.creates i).pc with
  | .idle =>
      match findFree s.tlskeys with
      | some idx =>
          { s with
            tlskeys := s.tlskeys.modify idx fun a =>
              { a with destructor := destructor, active := true }
            creates := Function.update s.creates i ⟨thread, destructor, .claimed idx⟩ }
      | none =>
          { s with
            creates := Function.update s.creates i ⟨thread, destructor, .failed .noMemory⟩ }
  | _ => s

/-- `TlsAlloc`. An index that is in use is none that it returns, and a new one has no data. -/
def tlsAlloc (s : Tls) (i : Nat) (index : Option Nat) : Tls :=
  match (s.creates i).pc, index with
  | .claimed idx, none => { s with creates := s.setCreate i (.failing idx) }
  | .claimed idx, some k =>
      if s.foreign k = false ∧ s.owner k = none then
        { s with
          creates := s.setCreate i (.indexed idx k)
          owner := Function.update s.owner k (some s.given.length)
          given := s.given ++ [(s.creates i).destructor]
          values := wipe s.values k }
      else s
  | _, _ => s

/-- `TlsSetValue` for the new index. -/
def tlsZero (s : Tls) (i : Nat) (ok : Bool) : Tls :=
  match (s.creates i).pc with
  | .indexed idx k =>
      if ok then
        { s with
          creates := s.setCreate i (.keying idx k)
          values := place s.values (s.creates i).thread k none }
      else { s with creates := s.setCreate i (.failing idx) }
  | _ => s

def createEnd (s : Tls) (i : Nat) : Tls :=
  match (s.creates i).pc with
  | .failing idx =>
      { s with
        tlskeys := s.tlskeys.modify idx fun a => { a with active := false }
        creates := s.setCreate i (.failed .again) }
  | .keying idx k =>
      { s with
        tlskeys := s.tlskeys.modify idx fun a => { a with key := k }
        creates := s.setCreate i (.created idx k) }
  | _ => s

/-- `pthread_key_delete`, until it has looked. The keys of that number are deleted if it has found
one. -/
def delete (s : Tls) (i key : Nat) : Tls :=
  match s.deletes i with
  | .idle =>
      match findKey s.tlskeys key with
      | some idx =>
          { s with
            tlskeys := s.tlskeys.set idx ⟨false, none, 0⟩
            creates := fun j =>
              if (s.creates j).pc.key? = some key then { s.creates j with pc := .deleted }
              else s.creates j
            deletes := Function.update s.deletes i (.freeing key) }
      | none => { s with deletes := Function.update s.deletes i (.done false) }
  | _ => s

/-- `TlsFree`, which leaves no data. -/
def tlsFree (s : Tls) (i : Nat) : Tls :=
  match s.deletes i with
  | .freeing k =>
      { s with
        deletes := Function.update s.deletes i (.done true)
        owner := Function.update s.owner k none
        values := wipe s.values k }
  | _ => s

/-- `pthread_setspecific`. A null pointer is no data. -/
def setspecific (s : Tls) (thread key data : Nat) (ok : Bool) : Tls :=
  if ok then
    if data = 0 then { s with values := place s.values thread key none }
    else
      match s.owner key with
      | some g =>
          { s with
            values := place s.values thread key (some (.stored data thread g s.serial))
            serial := s.serial + 1 }
      | none => { s with values := place s.values thread key (some (.other data)) }
  else s

def exit (s : Tls) (thread : Nat) : Tls :=
  match (s.exits thread).pc with
  | .idle =>
      { s with
        exits := Function.update s.exits thread
          ⟨.scanning 0 0 0, s.tlskeys, s.given.length, 1⟩ }
  | _ => s

/-- `_pthread_tls_cleanup` behind the snapshot: the data of a slot is read, or set to `NULL` and
passed to the destructor. -/
def cleanup (s : Tls) (thread : Nat) : Tls :=
  let c := s.exits thread
  match c.pc with
  | .scanning it idx count =>
      let pc :=
        match c.dataAt idx (s.values thread) with
        | some (destructor, value) => .found it idx count destructor value
        | none => .advance it idx count
      { s with exits := Function.update s.exits thread { c with pc := pc, taken := c.taken + 1 } }
  | .found it idx count destructor value =>
      { s with
        exits := Function.update s.exits thread
          { c with pc := .advance it idx (count + 1), taken := c.taken + 1 }
        values := place s.values thread ((c.snapshot[idx]?.map TlsAtom.key).getD 0) none
        calls := s.calls ++ [⟨thread, destructor, value⟩] }
  | _ => s

def step (s : Tls) : TlsEvent → Tls
  | .create i thread destructor => s.create i thread destructor
  | .tlsAlloc i index => s.tlsAlloc i index
  | .tlsZero i ok => s.tlsZero i ok
  | .createEnd i => s.createEnd i
  | .delete i key => s.delete i key
  | .tlsFree i => s.tlsFree i
  | .setspecific thread key data ok => s.setspecific thread key data ok
  | .exit thread => s.exit thread
  | .cleanup thread => s.cleanup thread

end Tls

end OncRpc.Sthread
