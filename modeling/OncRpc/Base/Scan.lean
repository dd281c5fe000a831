import Mathlib.Algebra.Ring.Int.Defs
import Mathlib.Algebra.Ring.Nat
import Mathlib.Data.List.Induction
import Mathlib.Data.List.TakeWhile
import OncRpc.Base.CString

/-! Numbers in the texts of C, as `strtoul` and `scanf` read them. -/
namespace OncRpc.CString

/-- `toupper` of the C locale. -/
def toupper (c : UInt8) : UInt8 := if 97 ≤ c ∧ c ≤ 122 then c - 32 else c

/-- Of an `unsigned long` of 32 bits. -/
def ULONG_MAX : Nat := 2 ^ 32 - 1

/-- `strtoul` in base ten: the number, which saturates, and where it ends. A text without a number
is left as it is. -/
def strtoul (s : CString) : Nat × CString :=
  let (sgn, body) := sign (s.dropWhile isspace)
  let digits := body.takeWhile isdigit
  let number := digitsValue 0 digits
  if digits = [] then (0, s)
  else
    (if 2 ^ 32 ≤ number then ULONG_MAX else (sgn * (number : Int) % 2 ^ 32).toNat,
      body.dropWhile isdigit)

/-- `%4u` and so on, before the number is cut to an `unsigned`. A sign counts for the width. -/
def scanUnsigned (width : Nat) (s : CString) : Option (Int × CString) :=
  let s := s.dropWhile isspace
  let (sgn, body) := sign s
  let digits := (body.take (width - (s.length - body.length))).takeWhile isdigit
  if digits = [] then none
  else some (sgn * (digitsValue 0 digits : Int), body.drop digits.length)

/-- `%04u` and so on, of a number that is no wider. -/
def padded : Nat → Nat → CString
  | 0, _ => []
  | w + 1, n => padded w (n / 10) ++ [UInt8.ofNat (48 + n % 10)]

section Digits

variable {c : UInt8} {digits rest : CString}

theorem isspace_of_isdigit (h : isdigit c = true) : isspace c = false := by
  rw [isdigit, decide_eq_true_eq] at h
  rw [isspace, decide_eq_false_iff_not]
  rintro (rfl | hSpace)
  · exact absurd h.1 (by decide)
  · have hFar : (48 : UInt8) ≤ 13 := UInt8.le_trans h.1 hSpace.2
    exact absurd hFar (by decide)

theorem ne_sign_of_isdigit (h : isdigit c = true) : c ≠ 45 ∧ c ≠ 43 := by
  rw [isdigit, decide_eq_true_eq] at h
  refine ⟨?_, ?_⟩
  · rintro rfl
    exact absurd h.1 (by decide)
  · rintro rfl
    exact absurd h.1 (by decide)

/-- Nothing is skipped before a number that starts with a digit. -/
theorem dropWhile_isspace_digits (hNonempty : digits ≠ []) (h : ∀ c ∈ digits, isdigit c = true)
    (rest : CString) : (digits ++ rest).dropWhile isspace = digits ++ rest := by
  obtain ⟨d, ds, rfl⟩ := List.exists_cons_of_ne_nil hNonempty
  rw [List.cons_append, List.dropWhile_cons_of_neg]
  rw [isspace_of_isdigit (h d List.mem_cons_self)]
  exact Bool.false_ne_true

theorem sign_digits (hNonempty : digits ≠ []) (h : ∀ c ∈ digits, isdigit c = true)
    (rest : CString) : sign (digits ++ rest) = (1, digits ++ rest) := by
  obtain ⟨d, ds, rfl⟩ := List.exists_cons_of_ne_nil hNonempty
  have hSign := ne_sign_of_isdigit (h d List.mem_cons_self)
  rw [List.cons_append, sign, if_neg hSign.1, if_neg hSign.2]

/-- The digits end where something else follows. -/
theorem takeWhile_isdigit_digits (h : ∀ c ∈ digits, isdigit c = true)
    (hRest : ∀ c ∈ rest.head?, isdigit c = false) :
    (digits ++ rest).takeWhile isdigit = digits ∧ (digits ++ rest).dropWhile isdigit = rest := by
  rw [List.takeWhile_append_of_pos h, List.dropWhile_append_of_pos h]
  cases rest with
  | nil => exact ⟨List.append_nil digits, rfl⟩
  | cons c rest =>
      have hNot : ¬isdigit c = true := by
        rw [hRest c rfl]
        exact Bool.false_ne_true
      rw [List.takeWhile_cons_of_neg hNot, List.dropWhile_cons_of_neg hNot]
      exact ⟨List.append_nil digits, rfl⟩

/-- Of digits `strtoul` makes their number, up to the largest there is. -/
theorem strtoul_digits (hNonempty : digits ≠ []) (h : ∀ c ∈ digits, isdigit c = true)
    (hRest : ∀ c ∈ rest.head?, isdigit c = false) :
    strtoul (digits ++ rest) = (min (digitsValue 0 digits) ULONG_MAX, rest) := by
  obtain ⟨hDigits, hBehind⟩ := takeWhile_isdigit_digits h hRest
  rw [strtoul, dropWhile_isspace_digits hNonempty h, sign_digits hNonempty h]
  simp only [hDigits, hBehind, if_neg hNonempty, Int.one_mul]
  congr 1
  unfold ULONG_MAX
  split <;> omega

/-- A width of digits is read whatever follows. -/
theorem scanUnsigned_digits {w : Nat} (hLength : digits.length = w) (hw : w ≠ 0)
    (h : ∀ c ∈ digits, isdigit c = true) :
    scanUnsigned w (digits ++ rest) = some ((digitsValue 0 digits : Int), rest) := by
  have hNonempty : digits ≠ [] := by
    rintro rfl
    exact hw hLength.symm
  rw [scanUnsigned, dropWhile_isspace_digits hNonempty h, sign_digits hNonempty h]
  simp only [Nat.sub_self, Nat.sub_zero, Int.one_mul]
  rw [List.take_left' hLength, List.takeWhile_eq_self_iff.mpr h, if_neg hNonempty,
    List.drop_left' rfl]

theorem digitsValue_concat (n : Nat) (digits : CString) (c : UInt8) :
    digitsValue n (digits ++ [c]) = 10 * digitsValue n digits + (c.toNat - 48) := by
  induction digits generalizing n with
  | nil => rfl
  | cons d ds ih => exact ih _

theorem length_padded (w n : Nat) : (padded w n).length = w := by
  induction w generalizing n with
  | zero => rfl
  | succ w ih => rw [padded, List.length_append, ih, List.length_singleton]

theorem toNat_digit (n : Nat) : (UInt8.ofNat (48 + n % 10)).toNat = 48 + n % 10 := by
  rw [UInt8.toNat_ofNat']
  omega

theorem isdigit_padded (w n : Nat) : ∀ c ∈ padded w n, isdigit c = true := by
  induction w generalizing n with
  | zero => exact fun c hc => nomatch hc
  | succ w ih =>
      intro c hc
      rcases List.mem_append.mp hc with hFront | hLast
      · exact ih _ c hFront
      · have hDigit := toNat_digit n
        rw [List.mem_singleton.mp hLast, isdigit, decide_eq_true_eq, UInt8.le_iff_toNat_le,
          UInt8.le_iff_toNat_le, hDigit]
        have hHigh : 48 + n % 10 ≤ 57 := by omega
        exact ⟨Nat.le_add_right 48 _, hHigh⟩

theorem digitsValue_padded {w n : Nat} (h : n < 10 ^ w) : digitsValue 0 (padded w n) = n := by
  induction w generalizing n with
  | zero =>
      rw [Nat.pow_zero] at h
      exact (Nat.lt_one_iff.mp h).symm
  | succ w ih =>
      rw [Nat.pow_succ] at h
      rw [padded, digitsValue_concat, ih (by omega), toNat_digit]
      omega

/-- Digits are what is printed of their number in their width. -/
theorem padded_digitsValue (h : ∀ c ∈ digits, isdigit c = true) :
    padded digits.length (digitsValue 0 digits) = digits := by
  induction digits using List.reverseRecOn with
  | nil => rfl
  | append_singleton ds c ih =>
      have hc := h c (List.mem_append_right _ List.mem_cons_self)
      rw [isdigit, decide_eq_true_eq, UInt8.le_iff_toNat_le, UInt8.le_iff_toNat_le] at hc
      have hLow : 48 ≤ c.toNat := hc.1
      have hHigh : c.toNat ≤ 57 := hc.2
      have hRest := ih fun c hc => h c (List.mem_append_left _ hc)
      rw [List.length_append, List.length_singleton, padded, digitsValue_concat,
        show (10 * digitsValue 0 ds + (c.toNat - 48)) / 10 = digitsValue 0 ds by omega, hRest,
        show 48 + (10 * digitsValue 0 ds + (c.toNat - 48)) % 10 = c.toNat by omega,
        UInt8.ofNat_toNat]

end Digits

end OncRpc.CString
