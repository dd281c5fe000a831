import Mathlib.Data.List.Basic

/-! Strings of C: their bytes without the null, and what the library makes of them. -/
namespace OncRpc

/-- The bytes before the null. -/
abbrev CString := List UInt8

namespace CString

/-- A string literal. -/
def ascii (s : String) : CString := s.toList.map fun c => UInt8.ofNat c.toNat

/-- `tolower` of the C locale. -/
def tolower (c : UInt8) : UInt8 := if 65 ≤ c ∧ c ≤ 90 then c + 32 else c

/-- A string with all its letters small. -/
def fold (s : CString) : CString := s.map tolower

/-- `strcasecmp` finds no difference. -/
def SameCase (a b : CString) : Prop := fold a = fold b

instance (a b : CString) : Decidable (SameCase a b) := inferInstanceAs (Decidable (_ = _))

theorem SameCase.refl (a : CString) : SameCase a a := rfl

theorem SameCase.symm {a b : CString} (h : SameCase a b) : SameCase b a := Eq.symm h

theorem SameCase.trans {a b c : CString} (h : SameCase a b) (h' : SameCase b c) : SameCase a c :=
  Eq.trans h h'

def isspace (c : UInt8) : Bool := decide (c = 32 ∨ 9 ≤ c ∧ c ≤ 13)

def isdigit (c : UInt8) : Bool := decide (48 ≤ c ∧ c ≤ 57)

/-- The digits as a number, behind `n`. -/
def digitsValue (n : Nat) : CString → Nat
  | [] => n
  | c :: cs => digitsValue (10 * n + (c.toNat - 48)) cs

/-- An optional sign. -/
def sign : CString → Int × CString
  | [] => (1, [])
  | c :: cs => if c = 45 then (-1, cs) else if c = 43 then (1, cs) else (1, c :: cs)

/-- `%d`. What does not fit an `int` is not cut off here. -/
def scanInt (s : CString) : Option (Int × CString) :=
  let (sgn, s) := sign (s.dropWhile isspace)
  let digits := s.takeWhile isdigit
  if digits = [] then none
  else some (sgn * (digitsValue 0 digits : Int), s.dropWhile isdigit)

/-- A character of the format. -/
def scanChar (c : UInt8) : CString → Option CString
  | [] => none
  | c' :: s => if c' = c then some s else none

/-- `%d.%d`, and so on: the numbers, when all `n + 1` of them are found. -/
def scanDotted : Nat → CString → Option (List Int)
  | 0, s => (scanInt s).map fun r => [r.1]
  | n + 1, s => do
      let (h, s) ← scanInt s
      let s ← scanChar 46 s
      let hs ← scanDotted n s
      return h :: hs

/-- `%d` of a number. -/
def decimal (n : Int) : CString := ascii (toString n)

end CString
end OncRpc
