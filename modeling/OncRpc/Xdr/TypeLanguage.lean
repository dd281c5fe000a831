import OncRpc.Xdr.FilterCodec

/-! Type expressions built from the filters, the C objects they work on, and
the values these objects hold. `rfc4506` is the standard's encoding of a value;
it is written down from the standard's rules and not from the filters. -/
namespace OncRpc

/-- A C object behind the pointer argument of a filter. -/
inductive Obj where
  /-- Memory of any type that is all zero. -/
  | zeroed
  | word (v : BitVec 32)
  | half (v : BitVec 16)
  | byte (v : BitVec 8)
  | dword (v : BitVec 64)
  | chars (bs : List UInt8)
  | elems (os : List Obj)
  | null
  | ptr (target : Obj)
  /-- A pointer and the count that goes with it. -/
  | counted (addr : Obj) (size : BitVec 32)
  /-- A discriminant and the storage of its union. -/
  | tagged (dscm : BitVec 32) (arm : Obj)

namespace Obj

/-! Reading memory as an object of a type. Zeroed memory reads as zero or NULL. -/

def asWord : Obj → Option (BitVec 32)
  | .zeroed => some 0
  | .word v => some v
  | _ => none

def asHalf : Obj → Option (BitVec 16)
  | .zeroed => some 0
  | .half v => some v
  | _ => none

def asByte : Obj → Option (BitVec 8)
  | .zeroed => some 0
  | .byte v => some v
  | _ => none

def asDword : Obj → Option (BitVec 64)
  | .zeroed => some 0
  | .dword v => some v
  | _ => none

def asChars (n : Nat) : Obj → Option (List UInt8)
  | .zeroed => some (List.replicate n 0)
  | .chars bs => some bs
  | _ => none

def asElems (n : Nat) : Obj → Option (List Obj)
  | .zeroed => some (List.replicate n .zeroed)
  | .elems os => some os
  | _ => none

def asPtr : Obj → Option (Option Obj)
  | .zeroed => some none
  | .null => some none
  | .ptr target => some (some target)
  | _ => none

def asCharPtr (o : Obj) : Option (Option (List UInt8)) :=
  match asPtr o with
  | some none => some none
  | some (some (.chars bs)) => some (some bs)
  | _ => none

def asCounted : Obj → Option (Obj × BitVec 32)
  | .zeroed => some (.null, 0)
  | .counted addr size => some (addr, size)
  | _ => none

def asBytes (o : Obj) : Option (Option (List UInt8) × BitVec 32) := do
  let (addr, size) ← asCounted o
  let p ← asCharPtr addr
  pure (p, size)

def asArray (o : Obj) : Option (Option (List Obj) × BitVec 32) := do
  let (addr, size) ← asCounted o
  match asPtr addr with
  | some none => pure (none, size)
  | some (some (.elems os)) => pure (some os, size)
  | _ => none

def asTagged : Obj → Option (BitVec 32 × Obj)
  | .zeroed => some (0, .zeroed)
  | .tagged dscm arm => some (dscm, arm)
  | _ => none

def ofPtr : Option Obj → Obj
  | none => .null
  | some target => .ptr target

def ofCharPtr (p : Option (List UInt8)) : Obj := ofPtr (p.map .chars)

def ofBytes (p : Option (List UInt8) × BitVec 32) : Obj := .counted (ofCharPtr p.1) p.2

def ofArray (p : Option (List Obj) × BitVec 32) : Obj := .counted (ofPtr (p.1.map .elems)) p.2

def ofTagged (p : BitVec 32 × Obj) : Obj := .tagged p.1 p.2

@[simp] theorem asCharPtr_ofCharPtr (p : Option (List UInt8)) :
    (ofCharPtr p).asCharPtr = some p := by
  cases p <;> rfl

@[simp] theorem asBytes_ofBytes (p : Option (List UInt8) × BitVec 32) :
    (ofBytes p).asBytes = some p := by
  simp [asBytes, ofBytes, asCounted]

@[simp] theorem asArray_ofArray (p : Option (List Obj) × BitVec 32) :
    (ofArray p).asArray = some p := by
  rcases p with ⟨_ | os, size⟩ <;> rfl

end Obj

mutual
/-- A type expression. Counts, bounds and element sizes are `u_int`s. -/
inductive XdrType where
  | int
  | uInt
  | short
  | uShort
  | char
  | bool
  | enum
  | int64
  | uInt64
  | opaqueData (cnt : BitVec 32)
  | bytes (maxsize : BitVec 32)
  | string (maxsize : BitVec 32)
  | array (maxsize elsize : BitVec 32) (elem : XdrType)
  | vector (nelem : BitVec 32) (elem : XdrType)
  | union (choices : XdrDiscrim)
  | reference (target : XdrType)
  | pointer (target : XdrType)
/-- An array of `struct xdr_discrim` with the default routine at its end. -/
inductive XdrDiscrim where
  | null
  | dfault (arm : XdrType)
  | cons (value : BitVec 32) (arm : XdrType) (choices : XdrDiscrim)
end

/-- What an object means, apart from where it lies in memory. -/
inductive Value where
  | word (v : BitVec 32)
  | half (v : BitVec 16)
  | byte (v : BitVec 8)
  | dword (v : BitVec 64)
  | bytes (bs : List UInt8)
  | list (vs : List Value)
  | union (dscm : BitVec 32) (arm : Value)
  | absent
  | present (target : Value)

section Routine

variable {σ : Type} [XdrOps σ]

/-- Run a filter on memory read as its own object type. -/
def viewed {α : Type} (view : Obj → Option α) (make : α → Obj) (proc : XdrProc σ α) :
    XdrProc σ Obj := fun op o =>
  match view o with
  | none => Fallible.fail
  | some a => do
      let a ← proc op a
      pure (make a)

mutual
/-- The routine for a type expression. -/
def XdrType.xdrproc : XdrType → XdrProc σ Obj
  | .int => viewed Obj.asWord .word xdrInt
  | .uInt => viewed Obj.asWord .word xdrUInt
  | .short => viewed Obj.asHalf .half xdrShort
  | .uShort => viewed Obj.asHalf .half xdrUShort
  | .char => viewed Obj.asByte .byte xdrChar
  | .bool => viewed Obj.asWord .word xdrBool
  | .enum => viewed Obj.asWord .word xdrEnum
  | .int64 => viewed Obj.asDword .dword xdrInt64T
  | .uInt64 => viewed Obj.asDword .dword xdrUInt64T
  | .opaqueData cnt => viewed (Obj.asChars cnt.toNat) .chars fun op cp => xdrOpaque op cp cnt.toNat
  | .bytes maxsize => viewed Obj.asBytes Obj.ofBytes (xdrBytes maxsize.toNat)
  | .string maxsize => viewed Obj.asCharPtr Obj.ofCharPtr (xdrString maxsize.toNat)
  | .array maxsize elsize elem =>
      viewed Obj.asArray Obj.ofArray
        (xdrArray maxsize.toNat elsize.toNat Obj.zeroed elem.xdrproc)
  | .vector nelem elem =>
      viewed (Obj.asElems nelem.toNat) .elems (xdrVector nelem.toNat elem.xdrproc)
  | .union choices =>
      viewed Obj.asTagged Obj.ofTagged (xdrUnion choices.choices choices.dfaultProc)
  | .reference target => viewed Obj.asPtr Obj.ofPtr (xdrReference Obj.zeroed target.xdrproc)
  | .pointer target => viewed Obj.asPtr Obj.ofPtr (xdrPointer Obj.zeroed target.xdrproc)

def XdrDiscrim.choices : XdrDiscrim → List (BitVec 32 × XdrProc σ Obj)
  | .null => []
  | .dfault _ => []
  | .cons value arm rest => (value, arm.xdrproc) :: rest.choices

def XdrDiscrim.dfaultProc : XdrDiscrim → Option (XdrProc σ Obj)
  | .null => none
  | .dfault arm => some arm.xdrproc
  | .cons _ _ rest => rest.dfaultProc
end

end Routine

mutual
/-- The values of a type, within the bounds that are passed to the filters. -/
def XdrType.Fits : XdrType → Value → Prop
  | .int, .word _ => True
  | .uInt, .word _ => True
  | .enum, .word _ => True
  | .bool, .word v => v = 0 ∨ v = 1
  | .short, .half _ => True
  | .uShort, .half _ => True
  | .char, .byte _ => True
  | .int64, .dword _ => True
  | .uInt64, .dword _ => True
  | .opaqueData cnt, .bytes bs => bs.length = cnt.toNat
  | .bytes maxsize, .bytes bs => bs.length ≤ maxsize.toNat
  | .string maxsize, .bytes bs =>
      bs.length ≤ maxsize.toNat ∧ maxsize.toNat < uintMax ∧ 0 ∉ bs
  | .array maxsize elsize elem, .list vs =>
      vs.length ≤ maxsize.toNat ∧ 0 < elsize.toNat ∧ vs.length * elsize.toNat ≤ uintMax ∧
        ∀ v ∈ vs, elem.Fits v
  | .vector nelem elem, .list vs => vs.length = nelem.toNat ∧ ∀ v ∈ vs, elem.Fits v
  | .union choices, .union dscm v => choices.Fits dscm v
  | .reference target, v => target.Fits v
  | .pointer _, .absent => True
  | .pointer target, .present v => target.Fits v
  | _, _ => False

def XdrDiscrim.Fits : XdrDiscrim → BitVec 32 → Value → Prop
  | .null, _, _ => False
  | .dfault arm, _, v => arm.Fits v
  | .cons value arm rest, dscm, v => if value = dscm then arm.Fits v else rest.Fits dscm v
end

mutual
/-- The object holds the value. A count of zero goes with any pointer. -/
def XdrType.Holds : XdrType → Value → Obj → Prop
  | .int, .word v, o => o.asWord = some v
  | .uInt, .word v, o => o.asWord = some v
  | .enum, .word v, o => o.asWord = some v
  | .bool, .word v, o => o.asWord = some v
  | .short, .half v, o => o.asHalf = some v
  | .uShort, .half v, o => o.asHalf = some v
  | .char, .byte v, o => o.asByte = some v
  | .int64, .dword v, o => o.asDword = some v
  | .uInt64, .dword v, o => o.asDword = some v
  | .opaqueData cnt, .bytes bs, o => o.asChars cnt.toNat = some bs
  | .bytes _, .bytes bs, o =>
      ∃ p, o.asBytes = some (p, BitVec.ofNat 32 bs.length) ∧ (p.getD []).take bs.length = bs
  | .string _, .bytes bs, o => ∃ sp, o.asCharPtr = some (some sp) ∧ cString sp = bs ∧ 0 ∈ sp
  | .array _ _ elem, .list vs, o =>
      ∃ p, o.asArray = some (p, BitVec.ofNat 32 vs.length) ∧
        List.Forall₂ elem.Holds vs (p.getD [])
  | .vector nelem elem, .list vs, o =>
      ∃ os, o.asElems nelem.toNat = some os ∧ List.Forall₂ elem.Holds vs os
  | .union choices, .union dscm v, o =>
      ∃ arm, o.asTagged = some (dscm, arm) ∧ choices.Holds dscm v arm
  | .reference target, v, o => ∃ loc, o.asPtr = some (some loc) ∧ target.Holds v loc
  | .pointer _, .absent, o => o.asPtr = some none
  | .pointer target, .present v, o => ∃ loc, o.asPtr = some (some loc) ∧ target.Holds v loc
  | _, _, _ => False

def XdrDiscrim.Holds : XdrDiscrim → BitVec 32 → Value → Obj → Prop
  | .null, _, _, _ => False
  | .dfault arm, _, v, o => arm.Holds v o
  | .cons value arm rest, dscm, v, o =>
      if value = dscm then arm.Holds v o else rest.Holds dscm v o
end

mutual
/-- The encoding that RFC 4506 gives to a value of a type. -/
def XdrType.rfc4506 : XdrType → Value → List UInt8
  | .short, .half v => Word.toBytes (v.signExtend 32)
  | .uShort, .half v => Word.toBytes (v.setWidth 32)
  | .char, .byte v => Word.toBytes (v.signExtend 32)
  | .int64, .dword v => Word.toBytes (v.extractLsb' 32 32) ++ Word.toBytes (v.extractLsb' 0 32)
  | .uInt64, .dword v => Word.toBytes (v.extractLsb' 32 32) ++ Word.toBytes (v.extractLsb' 0 32)
  | .opaqueData _, .bytes bs => padded bs
  | .bytes _, .bytes bs => Word.toBytes (BitVec.ofNat 32 bs.length) ++ padded bs
  | .string _, .bytes bs => Word.toBytes (BitVec.ofNat 32 bs.length) ++ padded bs
  | .array _ _ elem, .list vs =>
      Word.toBytes (BitVec.ofNat 32 vs.length) ++ vs.flatMap elem.rfc4506
  | .vector _ elem, .list vs => vs.flatMap elem.rfc4506
  | .union choices, .union dscm v => Word.toBytes dscm ++ choices.rfc4506 dscm v
  | .reference target, v => target.rfc4506 v
  | .pointer _, .absent => Word.toBytes 0
  | .pointer target, .present v => Word.toBytes 1 ++ target.rfc4506 v
  | .int, .word v => Word.toBytes v
  | .uInt, .word v => Word.toBytes v
  | .enum, .word v => Word.toBytes v
  | .bool, .word v => Word.toBytes v
  | _, _ => []

def XdrDiscrim.rfc4506 : XdrDiscrim → BitVec 32 → Value → List UInt8
  | .null, _, _ => []
  | .dfault arm, _, v => arm.rfc4506 v
  | .cons value arm rest, dscm, v =>
      if value = dscm then arm.rfc4506 v else rest.rfc4506 dscm v
end

end OncRpc
