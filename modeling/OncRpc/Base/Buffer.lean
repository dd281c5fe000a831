import Mathlib.Data.List.Basic

/-! Flat buffers addressed by an offset. A store overwrites a window of the
buffer in place and never changes its length; a load reads a window back. The
element type is arbitrary. -/
namespace Buffer

variable {α : Type*}

/-- The `n` cells from offset `off` on. -/
def readAt (m : List α) (off n : Nat) : List α := (m.drop off).take n

/-- Overwrite the cells from offset `off` on with `bs`. -/
def writeAt (m : List α) (off : Nat) (bs : List α) : List α :=
  m.take off ++ bs ++ m.drop (off + bs.length)

@[simp] theorem readAt_zero (m : List α) (off : Nat) : readAt m off 0 = [] := by
  simp [readAt]

theorem length_readAt (m : List α) (off n : Nat) :
    (readAt m off n).length = min n (m.length - off) := by
  simp [readAt]

theorem length_readAt_of_le {m : List α} {off n : Nat} (h : off + n ≤ m.length) :
    (readAt m off n).length = n := by
  rw [length_readAt]
  omega

@[simp] theorem length_writeAt {m : List α} {off : Nat} {bs : List α}
    (h : off + bs.length ≤ m.length) : (writeAt m off bs).length = m.length := by
  simp only [writeAt, List.length_append, List.length_take, List.length_drop]
  omega

@[simp] theorem writeAt_nil (m : List α) (off : Nat) : writeAt m off [] = m := by
  simp [writeAt]

/-- A window splits at any cell. -/
theorem readAt_add (m : List α) (off a b : Nat) :
    readAt m off (a + b) = readAt m off a ++ readAt m (off + a) b := by
  simp only [readAt, List.take_add, List.drop_drop]

theorem readAt_take (m : List α) (off k n : Nat) (h : k ≤ n) :
    (readAt m off n).take k = readAt m off k := by
  simp [readAt, List.take_take, Nat.min_eq_left h]

theorem readAt_drop (m : List α) (off k n : Nat) :
    (readAt m off n).drop k = readAt m (off + k) (n - k) := by
  simp [readAt, List.drop_take, List.drop_drop]

/-- A window of a window. -/
theorem readAt_readAt (m : List α) (off n a k : Nat) (h : a + k ≤ n) :
    readAt (readAt m off n) a k = readAt m (off + a) k := by
  rw [readAt, readAt_drop, readAt_take _ _ _ _ (by omega)]

/-- What was stored is what is loaded. -/
theorem readAt_writeAt {m : List α} {off : Nat} {bs : List α}
    (h : off ≤ m.length) : readAt (writeAt m off bs) off bs.length = bs := by
  have hLen : (m.take off).length = off := by simp [h]
  rw [readAt, writeAt, List.append_assoc, List.drop_append_of_le_length (by omega),
    List.drop_of_length_le (by omega)]
  simp

/-- A store leaves every cell before it alone. -/
theorem readAt_writeAt_before {m : List α} {off a n : Nat} {bs : List α}
    (h : off ≤ m.length) (hn : a + n ≤ off) : readAt (writeAt m off bs) a n = readAt m a n := by
  have hLen : (m.take off).length = off := by simp [h]
  rw [readAt, writeAt, List.append_assoc, List.drop_append_of_le_length (by omega),
    List.take_append_of_le_length (by rw [List.length_drop]; omega), List.drop_take,
    List.take_take, Nat.min_eq_left (by omega), readAt]

/-- A store leaves every cell after it alone. -/
theorem readAt_writeAt_after {m : List α} {off a n : Nat} {bs : List α}
    (h : off + bs.length ≤ m.length) (ha : off + bs.length ≤ a) :
    readAt (writeAt m off bs) a n = readAt m a n := by
  have hLen : (m.take off ++ bs).length = off + bs.length := by
    simp only [List.length_append, List.length_take]
    omega
  rw [readAt, writeAt, List.drop_append, List.drop_of_length_le (by omega), hLen,
    List.drop_drop, List.nil_append, readAt]
  congr 2
  omega

/-- Two stores side by side are one store. -/
theorem writeAt_writeAt {m : List α} {off : Nat} {a b : List α}
    (h : off + a.length ≤ m.length) :
    writeAt (writeAt m off a) (off + a.length) b = writeAt m off (a ++ b) := by
  have hLen : (m.take off ++ a).length = off + a.length := by
    simp only [List.length_append, List.length_take]
    omega
  have hTake : (m.take off ++ a ++ m.drop (off + a.length)).take (off + a.length) =
      m.take off ++ a := by
    rw [List.take_append_of_le_length (by omega), List.take_of_length_le (by omega)]
  have hDrop : (m.take off ++ a ++ m.drop (off + a.length)).drop (off + a.length + b.length) =
      m.drop (off + (a ++ b).length) := by
    rw [List.drop_append, List.drop_of_length_le (by omega), hLen, List.drop_drop,
      List.nil_append]
    congr 1
    simp only [List.length_append]
    omega
  unfold writeAt
  rw [hTake, hDrop]
  simp only [List.append_assoc]

/-- A store leaves the front of the buffer alone. -/
theorem take_writeAt_before {m : List α} {off n : Nat} {bs : List α} (h : off ≤ m.length)
    (hn : n ≤ off) : (writeAt m off bs).take n = m.take n := by
  have hLen : (m.take off).length = off := by simp [h]
  rw [writeAt, List.append_assoc, List.take_append_of_le_length (by omega), List.take_take,
    Nat.min_eq_left hn]

/-- The front of the buffer up to some cells behind a store. -/
theorem take_writeAt {m : List α} {off : Nat} {bs : List α} (h : off ≤ m.length) (n : Nat) :
    (writeAt m off bs).take (off + bs.length + n) =
      m.take off ++ (bs ++ readAt m (off + bs.length) n) := by
  have hLen : (m.take off ++ bs).length = off + bs.length := by simp [h]
  rw [writeAt, ← hLen, List.take_length_add_append, hLen, readAt, List.append_assoc]

/-- Storing what is already there changes nothing. -/
theorem writeAt_append_readAt {m : List α} {off n : Nat} {bs : List α}
    (h : off + bs.length + n ≤ m.length) :
    writeAt m off (bs ++ readAt m (off + bs.length) n) = writeAt m off bs := by
  have hLen : (readAt m (off + bs.length) n).length = n := length_readAt_of_le h
  have hJoin : readAt m (off + bs.length) n ++ m.drop (off + bs.length + n) =
      m.drop (off + bs.length) := by
    have hSplit := List.take_append_drop n (m.drop (off + bs.length))
    rwa [List.drop_drop] at hSplit
  unfold writeAt
  rw [List.length_append, hLen, ← Nat.add_assoc]
  simp only [List.append_assoc, hJoin]

end Buffer
