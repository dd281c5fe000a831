import OncRpc.Xdr.Stream

/-! The filters of `xdr.c`, `xdr_array.c` and `xdr_reference.c`. A filter takes
the object its pointer argument points to and returns what it leaves there. The
object a failing filter leaves behind is not followed. Allocation succeeds and,
as `mem_alloc` is `calloc`, hands out zeroed memory. -/
namespace OncRpc

open XdrOps

/-- An `xdrproc_t` for objects of type `α`. -/
abbrev XdrProc (σ α : Type) := XdrOp → α → Fallible σ α

section Filters

variable {σ α β : Type} [XdrOps σ]

/-- `mem_alloc`. -/
def memAlloc (n : Nat) : List UInt8 := List.replicate n 0

/-- The body that the integer filters share: the object is widened to a `long`
on the way out and cut back to its own type on the way in. -/
def xdrInteger {w : Nat} (toLong : BitVec w → BitVec 32) (ofLong : BitVec 32 → BitVec w) :
    XdrProc σ (BitVec w) := fun op ip =>
  match op with
  | .encode => do
      putlong (toLong ip)
      pure ip
  | .decode => do
      let l ← getlong
      pure (ofLong l)
  | .free => pure ip

def xdrInt : XdrProc σ (BitVec 32) := xdrInteger id id

def xdrUInt : XdrProc σ (BitVec 32) := xdrInteger id id

def xdrLong : XdrProc σ (BitVec 32) := xdrInteger id id

def xdrULong : XdrProc σ (BitVec 32) := xdrInteger id id

def xdrUInt32T : XdrProc σ (BitVec 32) := xdrInteger id id

def xdrEnum : XdrProc σ (BitVec 32) := xdrInteger id id

def xdrShort : XdrProc σ (BitVec 16) :=
  xdrInteger (BitVec.signExtend 32) (BitVec.setWidth 16)

def xdrUShort : XdrProc σ (BitVec 16) :=
  xdrInteger (BitVec.setWidth 32) (BitVec.setWidth 16)

/-- A `bool_t` is an `int` of which only zero is false. -/
def xdrBool : XdrProc σ (BitVec 32) :=
  xdrInteger (fun bp => if bp = 0 then 0 else 1) (fun lb => if lb = 0 then 0 else 1)

/-- A `char` is signed here and travels as an `int`. -/
def xdrChar : XdrProc σ (BitVec 8) := fun op cp => do
  let i ← xdrInt op (cp.signExtend 32)
  pure (i.setWidth 8)

/-- The body of `xdr_int64_t` and `xdr_u_int64_t`: two longs, the high one first. -/
def xdrInteger64 : XdrProc σ (BitVec 64) := fun op llp =>
  match op with
  | .encode => do
      putlong ((llp >>> 32).setWidth 32)
      putlong (llp.setWidth 32)
      pure llp
  | .decode => do
      let hi ← getlong
      let lo ← getlong
      pure (((hi.setWidth 64) <<< 32) ||| lo.setWidth 64)
  | .free => pure llp

def xdrInt64T : XdrProc σ (BitVec 64) := xdrInteger64

def xdrUInt64T : XdrProc σ (BitVec 64) := xdrInteger64

/-- The filters whose objects are words as they stand read one word. -/
theorem xdrInteger_id_decode (a : BitVec 32) :
    (xdrInteger id id .decode a : Fallible σ (BitVec 32)) = getlong :=
  bind_pure _

theorem xdrUInt_decode (a : BitVec 32) :
    (xdrUInt .decode a : Fallible σ (BitVec 32)) = getlong :=
  xdrInteger_id_decode a

theorem xdrUInt32T_decode (a : BitVec 32) :
    (xdrUInt32T .decode a : Fallible σ (BitVec 32)) = getlong :=
  xdrInteger_id_decode a

theorem xdrEnum_decode (a : BitVec 32) :
    (xdrEnum .decode a : Fallible σ (BitVec 32)) = getlong :=
  xdrInteger_id_decode a

/-- The bytes that bring a count up to a full XDR unit. -/
def padding (cnt : Nat) : Nat :=
  if cnt % bytesPerXdrUnit > 0 then bytesPerXdrUnit - cnt % bytesPerXdrUnit else 0

/-- The padding is read into a static buffer that nothing looks at. -/
def xdrOpaque (op : XdrOp) (cp : List UInt8) (cnt : Nat) : Fallible σ (List UInt8) :=
  if cnt = 0 then pure cp
  else
    match op with
    | .decode => do
        let bs ← getbytes cnt
        if padding cnt = 0 then pure (Buffer.writeAt cp 0 bs)
        else do
          let _crud ← getbytes (padding cnt)
          pure (Buffer.writeAt cp 0 bs)
    | .encode => do
        putbytes (cp.take cnt)
        if padding cnt = 0 then pure cp
        else do
          putbytes (List.replicate (padding cnt) 0)
          pure cp
    | .free => pure cp

theorem padding_eq (cnt : Nat) : padding cnt = (4 - cnt % 4) % 4 := by
  unfold padding bytesPerXdrUnit
  split <;> omega

@[simp] theorem padding_zero : padding 0 = 0 := rfl

theorem rndup_eq (cnt : Nat) : rndup cnt = cnt + padding cnt := by
  rw [padding_eq, rndup, bytesPerXdrUnit]
  omega

/-- Whatever the padding holds, it is read and dropped. -/
theorem run_xdrOpaque_byteStream (cp : List UInt8) {t : List UInt8} {cnt : Nat} (hZero : cnt ≠ 0)
    (hLen : rndup cnt ≤ t.length) :
    (xdrOpaque .decode cp cnt : Fallible ByteStream (List UInt8)).run t =
      (some (Buffer.writeAt cp 0 (t.take cnt)), t.drop (rndup cnt)) := by
  rw [rndup_eq] at hLen ⊢
  have hBody : (getbytes cnt : Fallible ByteStream (List UInt8)).run t =
      (some (t.take cnt), t.drop cnt) := by
    simp only [Fallible.run, getbytes, ByteStream.getbytes, if_pos (show cnt ≤ t.length by omega)]
  unfold xdrOpaque
  rw [if_neg hZero]
  by_cases hPad : padding cnt = 0
  · simp only [if_pos hPad]
    rw [Fallible.run_bind_some hBody, hPad]
    rfl
  · have hCrud : (getbytes (padding cnt) : Fallible ByteStream (List UInt8)).run (t.drop cnt) =
        (some ((t.drop cnt).take (padding cnt)), t.drop (cnt + padding cnt)) := by
      have hRoom : padding cnt ≤ (t.drop cnt).length := by
        rw [List.length_drop]
        omega
      simp only [Fallible.run, getbytes, ByteStream.getbytes, if_pos hRoom, List.drop_drop]
    simp only [if_neg hPad]
    rw [Fallible.run_bind_some hBody, Fallible.run_bind_some hCrud]
    rfl

/-- The object is the pointer `*cpp` and the count `*sizep`. -/
def xdrBytes (maxsize : Nat) :
    XdrProc σ (Option (List UInt8) × BitVec 32) := fun op obj => do
  let sp := obj.1
  let size ← xdrUInt op obj.2
  let nodesize := size.toNat
  Fallible.require (¬ (nodesize > maxsize ∧ op ≠ .free))
  match op with
  | .decode =>
      if nodesize = 0 then pure (sp, size)
      else do
        let bs ← xdrOpaque .decode (sp.getD (memAlloc nodesize)) nodesize
        pure (some bs, size)
  | .encode => do
      let _ ← xdrOpaque .encode (sp.getD []) nodesize
      pure (sp, size)
  | .free => pure (none, size)

/-- The bytes before the first NUL. -/
def cString (sp : List UInt8) : List UInt8 := sp.takeWhile (· ≠ 0)

def strlen (sp : List UInt8) : Nat := (cString sp).length

theorem cString_append_nul {bs : List UInt8} (h : 0 ∉ bs) : cString (bs ++ [0]) = bs := by
  have hKeep : ∀ b ∈ bs, decide (b ≠ 0) = true := by
    intro b hb
    rw [decide_eq_true_eq]
    rintro rfl
    exact h hb
  rw [cString, List.takeWhile_append_of_pos hKeep]
  simp

def xdrString (maxsize : Nat) : XdrProc σ (Option (List UInt8)) := fun op cpp =>
  match op, cpp with
  | .free, none => pure none
  | .free, some sp => do
      let size ← xdrUInt .free (BitVec.ofNat 32 (strlen sp))
      Fallible.require (¬ size.toNat > maxsize)
      pure none
  | .encode, cpp => do
      let size ← xdrUInt .encode (BitVec.ofNat 32 (strlen (cpp.getD [])))
      Fallible.require (¬ size.toNat > maxsize)
      let _ ← xdrOpaque .encode (cpp.getD []) size.toNat
      pure cpp
  | .decode, cpp => do
      let size ← xdrUInt .decode 0
      Fallible.require (¬ size.toNat > maxsize)
      let nodesize := (size + 1).toNat
      if nodesize = 0 then pure cpp
      else do
        let sp := Buffer.writeAt (cpp.getD (memAlloc nodesize)) size.toNat [0]
        let sp ← xdrOpaque .decode sp size.toNat
        pure (some sp)

/-- The loop of `xdr_array` and `xdr_vector` over the first `n` elements. -/
def xdrElements (op : XdrOp) (elproc : XdrProc σ α) : Nat → List α → Fallible σ (List α)
  | 0, target => pure target
  | _ + 1, [] => Fallible.fail
  | n + 1, a :: target => do
      let a ← elproc op a
      let target ← xdrElements op elproc n target
      pure (a :: target)

/-- `UINT_MAX`. -/
def uintMax : Nat := 2 ^ 32 - 1

/-- The object is the pointer `*addrp` and the count `*sizep`; `zero` is an
element whose memory is zeroed. -/
def xdrArray (maxsize elsize : Nat) (zero : α) (elproc : XdrProc σ α) :
    XdrProc σ (Option (List α) × BitVec 32) := fun op obj => do
  let size ← xdrUInt op obj.2
  let c := size.toNat
  Fallible.require (¬ ((c > maxsize ∨ uintMax / elsize < c) ∧ op ≠ .free))
  match op, obj.1 with
  | .decode, none =>
      if c = 0 then pure (none, size)
      else do
        let target ← xdrElements .decode elproc c (List.replicate c zero)
        pure (some target, size)
  | .decode, some target => do
      let target ← xdrElements .decode elproc c target
      pure (some target, size)
  | .encode, addr => do
      let _ ← xdrElements .encode elproc c (addr.getD [])
      pure (addr, size)
  | .free, none => pure (none, size)
  | .free, some target => do
      let _ ← xdrElements .free elproc c target
      pure (none, size)

def xdrVector (nelem : Nat) (elproc : XdrProc σ α) : XdrProc σ (List α) := fun op base =>
  xdrElements op elproc nelem base

/-- The search of `xdr_union`: the first choice with the value, or the default
routine, which may be NULL. -/
def unionArm (choices : List (BitVec 32 × XdrProc σ β)) (dfault : Option (XdrProc σ β))
    (dscm : BitVec 32) : Option (XdrProc σ β) :=
  match choices.find? (fun choice => choice.1 = dscm) with
  | some choice => some choice.2
  | none => dfault

omit [XdrOps σ] in
theorem unionArm_cons (value : BitVec 32) (proc : XdrProc σ β)
    (choices : List (BitVec 32 × XdrProc σ β)) (dfault : Option (XdrProc σ β))
    (dscm : BitVec 32) :
    unionArm ((value, proc) :: choices) dfault dscm =
      if value = dscm then some proc else unionArm choices dfault dscm := by
  by_cases h : value = dscm <;> simp [unionArm, h]

/-- The object is the discriminant `*dscmp` and the union's storage `unp`. -/
def xdrUnion (choices : List (BitVec 32 × XdrProc σ β)) (dfault : Option (XdrProc σ β)) :
    XdrProc σ (BitVec 32 × β) := fun op obj => do
  let dscm ← xdrEnum op obj.1
  match unionArm choices dfault dscm with
  | some proc => do
      let unp ← proc op obj.2
      pure (dscm, unp)
  | none => Fallible.fail

/-- `zero` is an object whose memory is zeroed. -/
def xdrReference (zero : α) (proc : XdrProc σ α) : XdrProc σ (Option α) := fun op pp =>
  match op, pp with
  | .free, none => pure none
  | .decode, none => do
      let loc ← proc .decode zero
      pure (some loc)
  | .encode, none => Fallible.fail
  | .free, some loc => do
      let _ ← proc .free loc
      pure none
  | op, some loc => do
      let loc ← proc op loc
      pure (some loc)

def xdrPointer (zero : α) (proc : XdrProc σ α) : XdrProc σ (Option α) := fun op objpp => do
  let moreData ← xdrBool op (if objpp.isSome then 1 else 0)
  if moreData = 0 then pure none else xdrReference zero proc op objpp

end Filters

/-! Decoding does not depend on the stream: each filter over a lawful reader
answers as it does over the bytes themselves. -/
section Decoding

open Fallible

variable {σ α β : Type} [XdrOps σ] {R : σ → List UInt8 → Prop}

/-- Two filters decode alike from related streams. -/
def DecodesAs (R : σ → List UInt8 → Prop) (p : XdrProc σ α) (q : XdrProc ByteStream α) : Prop :=
  ∀ a, Refines R R (p .decode a) (q .decode a)

variable (h : LawfulReader R)

include h in
theorem decodes_xdrInteger {w : Nat} (toLong : BitVec w → BitVec 32)
    (ofLong : BitVec 32 → BitVec w) :
    DecodesAs R (xdrInteger toLong ofLong) (xdrInteger toLong ofLong) := by
  intro a
  exact h.getlong.bind fun l => Refines.pure (ofLong l)

include h in
theorem decodes_xdrChar : DecodesAs R xdrChar xdrChar := by
  intro a
  exact (decodes_xdrInteger h id id _).bind fun i => Refines.pure _

include h in
theorem decodes_xdrInteger64 : DecodesAs R xdrInteger64 xdrInteger64 := by
  intro a
  exact h.getlong.bind fun hi => h.getlong.bind fun lo => Refines.pure _

include h in
theorem refines_xdrOpaque (cp : List UInt8) (cnt : Nat) :
    Refines R R (xdrOpaque .decode cp cnt) (xdrOpaque .decode cp cnt) := by
  unfold xdrOpaque
  refine Refines.ite (Refines.pure _) ?_
  refine (h.getbytes cnt).bind fun bs => ?_
  refine Refines.ite (Refines.pure _) ?_
  exact (h.getbytes _).bind fun _ => Refines.pure _

include h in
theorem decodes_xdrBytes (maxsize : Nat) : DecodesAs R (xdrBytes maxsize) (xdrBytes maxsize) := by
  intro a
  unfold xdrBytes
  refine (decodes_xdrInteger h id id _).bind fun size => ?_
  refine (Refines.require _).bind fun _ => ?_
  refine Refines.ite (Refines.pure _) ?_
  exact (refines_xdrOpaque h _ _).bind fun bs => Refines.pure _

include h in
theorem decodes_xdrString (maxsize : Nat) :
    DecodesAs R (xdrString maxsize) (xdrString maxsize) := by
  intro a
  unfold xdrString
  refine (decodes_xdrInteger h id id _).bind fun size => ?_
  refine (Refines.require _).bind fun _ => ?_
  refine Refines.ite (Refines.pure _) ?_
  exact (refines_xdrOpaque h _ _).bind fun bs => Refines.pure _

omit [XdrOps σ] in
/-- The induction is on the number of elements still to read. -/
theorem refines_xdrElements {p : XdrProc σ α} {q : XdrProc ByteStream α}
    (hp : DecodesAs R p q) (n : Nat) (target : List α) :
    Refines R R (xdrElements .decode p n target) (xdrElements .decode q n target) := by
  induction n generalizing target with
  | zero => exact Refines.pure _
  | succ n ih =>
      cases target with
      | nil => exact Refines.fail
      | cons a target => exact (hp a).bind fun b => (ih target).bind fun bs => Refines.pure _

include h in
theorem decodes_xdrArray (maxsize elsize : Nat) (zero : α) {p : XdrProc σ α}
    {q : XdrProc ByteStream α} (hp : DecodesAs R p q) :
    DecodesAs R (xdrArray maxsize elsize zero p) (xdrArray maxsize elsize zero q) := by
  rintro ⟨addr, size⟩
  unfold xdrArray
  refine (decodes_xdrInteger h id id _).bind fun c => ?_
  refine (Refines.require _).bind fun _ => ?_
  cases addr with
  | none =>
      refine Refines.ite (Refines.pure _) ?_
      exact (refines_xdrElements hp _ _).bind fun target => Refines.pure _
  | some target => exact (refines_xdrElements hp _ _).bind fun target => Refines.pure _

omit [XdrOps σ] in
theorem decodes_xdrVector (nelem : Nat) {p : XdrProc σ α} {q : XdrProc ByteStream α}
    (hp : DecodesAs R p q) : DecodesAs R (xdrVector nelem p) (xdrVector nelem q) :=
  fun base => refines_xdrElements hp nelem base

include h in
/-- Unions decode alike when the same discriminants have arms that decode alike. -/
theorem decodes_xdrUnion {choices : List (BitVec 32 × XdrProc σ β)}
    {choices' : List (BitVec 32 × XdrProc ByteStream β)} {dfault : Option (XdrProc σ β)}
    {dfault' : Option (XdrProc ByteStream β)}
    (hArm : ∀ dscm, Option.Rel (DecodesAs R) (unionArm choices dfault dscm)
      (unionArm choices' dfault' dscm)) :
    DecodesAs R (xdrUnion choices dfault) (xdrUnion choices' dfault') := by
  intro obj
  unfold xdrUnion
  refine (decodes_xdrInteger h id id _).bind fun dscm => ?_
  have hProc := hArm dscm
  generalize unionArm choices dfault dscm = arm at hProc ⊢
  generalize unionArm choices' dfault' dscm = arm' at hProc ⊢
  cases hProc with
  | some hProc => exact (hProc _).bind fun unp => Refines.pure _
  | none => exact Refines.fail

omit [XdrOps σ] in
theorem decodes_xdrReference (zero : α) {p : XdrProc σ α} {q : XdrProc ByteStream α}
    (hp : DecodesAs R p q) : DecodesAs R (xdrReference zero p) (xdrReference zero q) := by
  intro pp
  cases pp with
  | none => exact (hp zero).bind fun loc => Refines.pure _
  | some loc => exact (hp loc).bind fun loc => Refines.pure _

include h in
theorem decodes_xdrPointer (zero : α) {p : XdrProc σ α} {q : XdrProc ByteStream α}
    (hp : DecodesAs R p q) : DecodesAs R (xdrPointer zero p) (xdrPointer zero q) := by
  intro objpp
  refine (decodes_xdrInteger h _ _ _).bind fun moreData => ?_
  exact Refines.ite (Refines.pure _) (decodes_xdrReference zero hp objpp)

end Decoding
end OncRpc
