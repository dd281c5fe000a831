import Mathlib.Data.List.Basic
import Mathlib.Tactic.Ring

/-! Thirty-two bit words and their four bytes in network order, the most
significant byte first. -/
namespace Word

/-- The bytes of a word in network order. -/
def toBytes (w : BitVec 32) : List UInt8 :=
  [UInt8.ofNat (w.toNat / 2 ^ 24), UInt8.ofNat (w.toNat / 2 ^ 16),
    UInt8.ofNat (w.toNat / 2 ^ 8), UInt8.ofNat w.toNat]

/-- The word that some bytes in network order stand for. -/
def ofBytes (bs : List UInt8) : BitVec 32 :=
  BitVec.ofNat 32 (bs.foldl (fun acc b => acc * 2 ^ 8 + b.toNat) 0)

@[simp] theorem length_toBytes (w : BitVec 32) : (toBytes w).length = 4 := rfl

@[simp] theorem ofBytes_toBytes (w : BitVec 32) : ofBytes (toBytes w) = w := by
  have hw : w.toNat < 2 ^ 32 := w.isLt
  apply BitVec.eq_of_toNat_eq
  simp only [ofBytes, toBytes, List.foldl_cons, List.foldl_nil, BitVec.toNat_ofNat,
    UInt8.toNat_ofNat']
  omega

/-- Every four bytes are the bytes of a word. -/
theorem toBytes_ofBytes {bs : List UInt8} (h : bs.length = 4) : toBytes (ofBytes bs) = bs := by
  obtain ⟨a, b, c, d, rfl⟩ := List.length_eq_four.mp h
  have ha := a.toNat_lt
  have hb := b.toNat_lt
  have hc := c.toNat_lt
  have hd := d.toNat_lt
  simp only [toBytes, ofBytes, List.foldl_cons, List.foldl_nil, BitVec.toNat_ofNat,
    List.cons.injEq, and_true, ← UInt8.toNat_inj, UInt8.toNat_ofNat']
  omega

theorem toBytes_injective {v w : BitVec 32} (h : toBytes v = toBytes w) : v = w := by
  simpa using congrArg ofBytes h

/-- Widening with the sign and cutting back. -/
theorem setWidth_signExtend {w n : Nat} (h : w ≤ n) (v : BitVec w) :
    (v.signExtend n).setWidth w = v := by
  ext i hi
  have hn : i < n := by omega
  simp [BitVec.getElem_signExtend, BitVec.getLsbD_eq_getElem, hn, hi]

/-- The two halves of a double word. -/
theorem shiftLeft_or_halves (v : BitVec 64) :
    ((v.extractLsb' 32 32).setWidth 64 <<< 32) ||| (v.extractLsb' 0 32).setWidth 64 = v := by
  ext i hi
  by_cases h : i < 32
  · simp [h, hi, BitVec.getLsbD_eq_getElem]
  · have hBack : 32 + (i - 32) = i := by omega
    have hHigh : i - 32 < 32 := by omega
    simp [h, hBack, hHigh, hi, BitVec.getLsbD_eq_getElem]

theorem setWidth_ushiftRight (v : BitVec 64) :
    (v >>> 32).setWidth 32 = v.extractLsb' 32 32 := by
  ext i hi
  simp

theorem setWidth_low (v : BitVec 64) : v.setWidth 32 = v.extractLsb' 0 32 := by
  ext i hi
  simp

/-! ### Words in memory -/

/-- Which byte of a word comes first in memory: the most or the least significant. -/
inductive ByteOrder where
  | big
  | little
  deriving DecidableEq, Repr

/-- The word that is in memory as `bs`. -/
def load (order : ByteOrder) (bs : List UInt8) : BitVec 32 :=
  match order with
  | .big => ofBytes bs
  | .little => ofBytes bs.reverse

/-- How a word is put in memory. -/
def store (order : ByteOrder) (w : BitVec 32) : List UInt8 :=
  match order with
  | .big => toBytes w
  | .little => (toBytes w).reverse

/-- The word that is in memory as the bytes of `w` in network order. -/
def htonl (order : ByteOrder) (w : BitVec 32) : BitVec 32 := load order (toBytes w)

/-- The word whose bytes in network order are those of `w` in memory. -/
def ntohl (order : ByteOrder) (w : BitVec 32) : BitVec 32 := ofBytes (store order w)

@[simp] theorem length_store (order : ByteOrder) (w : BitVec 32) :
    (store order w).length = 4 := by
  cases order <;> rfl

@[simp] theorem load_store (order : ByteOrder) (w : BitVec 32) : load order (store order w) = w := by
  cases order <;> simp [load, store]

theorem store_load (order : ByteOrder) {bs : List UInt8} (h : bs.length = 4) :
    store order (load order bs) = bs := by
  cases order with
  | big => exact toBytes_ofBytes h
  | little =>
      show (toBytes (ofBytes bs.reverse)).reverse = bs
      rw [toBytes_ofBytes (by simpa using h), List.reverse_reverse]

@[simp] theorem ntohl_htonl (order : ByteOrder) (w : BitVec 32) :
    ntohl order (htonl order w) = w := by
  unfold ntohl htonl
  rw [store_load order (length_toBytes w), ofBytes_toBytes]

/-- The two conversions are one. -/
theorem ntohl_eq_htonl (order : ByteOrder) (w : BitVec 32) : ntohl order w = htonl order w := by
  cases order <;> rfl

@[simp] theorem htonl_ntohl (order : ByteOrder) (w : BitVec 32) :
    htonl order (ntohl order w) = w := by
  rw [ntohl_eq_htonl, ← ntohl_eq_htonl, ntohl_htonl]

theorem ntohl_injective {order : ByteOrder} {v w : BitVec 32}
    (h : ntohl order v = ntohl order w) : v = w := by
  simpa using congrArg (htonl order) h

@[simp] theorem htonl_big (w : BitVec 32) : htonl .big w = w := ofBytes_toBytes w

end Word
