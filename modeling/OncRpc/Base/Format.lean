import Mathlib.Data.List.Basic
import OncRpc.Base.CString

/-! Formats of `printf`: what a format is read as, piece by piece, and what the pieces print. The
characters of a format may carry more than their bytes. -/
namespace OncRpc.Format

def percent : UInt8 := 37

/-- Flags, widths, precisions and sizes. -/
def isModifier (c : UInt8) : Bool := (CString.ascii "-+ #0123456789.*hlLIjztw").elem c

variable {α : Type} (byte : α → UInt8)

/-- A character that stands for itself, or a directive up to its conversion. -/
inductive IsPiece : List α → Prop
  | char {c : α} (hChar : byte c ≠ percent) : IsPiece [c]
  | directive {c d : α} {modifiers : List α} (hPercent : byte c = percent)
      (hModifiers : ∀ m ∈ modifiers, isModifier (byte m) = true)
      (hConversion : isModifier (byte d) = false) : IsPiece (c :: (modifiers ++ [d]))

/-- The pieces of a format, of which the first has begun. -/
def scan : List α → List α → Option (List (List α))
  | pending, [] => if pending = [] then some [] else none
  | pending, c :: cs =>
      if pending = [] then
        if byte c = percent then scan [c] cs else (scan [] cs).map ([c] :: ·)
      else if isModifier (byte c) then scan (pending ++ [c]) cs
      else (scan [] cs).map ((pending ++ [c]) :: ·)

/-- The pieces of a format. A directive without its conversion is none. -/
def pieces (cs : List α) : Option (List (List α)) := scan byte [] cs

section Pieces

variable {byte} {cs : List α} {ps : List (List α)}

theorem scan_directive {pending : List α} (hPending : pending ≠ []) {modifiers : List α}
    (hModifiers : ∀ m ∈ modifiers, isModifier (byte m) = true) {d : α}
    (hConversion : isModifier (byte d) = false) :
    scan byte pending (modifiers ++ d :: cs) =
      (scan byte [] cs).map ((pending ++ modifiers ++ [d]) :: ·) := by
  induction modifiers generalizing pending with
  | nil =>
      rw [List.nil_append, scan, if_neg hPending, hConversion, List.append_nil]
      rfl
  | cons m modifiers ih =>
      have hNext : pending ++ [m] ≠ [] :=
        List.append_ne_nil_of_right_ne_nil _ (List.cons_ne_nil _ _)
      rw [List.cons_append, scan, if_neg hPending, if_pos (hModifiers m List.mem_cons_self),
        ih hNext fun m' hm' => hModifiers m' (List.mem_cons_of_mem _ hm')]
      simp only [List.append_assoc, List.singleton_append]

theorem IsPiece.ne_nil {p : List α} (h : IsPiece byte p) : p ≠ [] := by
  cases h <;> exact List.cons_ne_nil _ _

/-- A piece of two characters is a directive. -/
theorem IsPiece.percent_of_two {c d : α} (h : IsPiece byte [c, d]) : byte c = percent := by
  generalize hp : [c, d] = p at h
  cases h with
  | char _ => cases hp
  | directive hPercent _ _ => exact (List.cons.inj hp).1 ▸ hPercent

theorem IsPiece.scan {p : List α} (h : IsPiece byte p) :
    scan byte [] (p ++ cs) = (scan byte [] cs).map (p :: ·) := by
  cases h with
  | char hChar => rw [List.singleton_append, Format.scan, if_pos rfl, if_neg hChar]
  | @directive c d modifiers hPercent hModifiers hConversion =>
      rw [List.cons_append, List.append_assoc, List.singleton_append, Format.scan, if_pos rfl,
        if_pos hPercent, scan_directive (List.cons_ne_nil _ _) hModifiers hConversion]
      rfl

/-- What has begun is a directive without its conversion. -/
def Begun (byte : α → UInt8) (pending : List α) : Prop :=
  ∀ c cs, pending = c :: cs → byte c = percent ∧ ∀ m ∈ cs, isModifier (byte m) = true

theorem scan_sound {pending : List α} (h : scan byte pending cs = some ps)
    (hBegun : Begun byte pending) : ps.flatten = pending ++ cs ∧ ∀ p ∈ ps, IsPiece byte p := by
  induction cs generalizing pending ps with
  | nil =>
      rw [scan] at h
      split at h
      · next hNone =>
          rw [← Option.some.inj h, hNone]
          exact ⟨rfl, fun _ hp => nomatch hp⟩
      · cases h
  | cons c cs ih =>
      -- a piece is over, and there are those behind it
      have hOver : ∀ p, IsPiece byte p → (scan byte [] cs).map (p :: ·) = some ps →
          ps.flatten = p ++ cs ∧ ∀ q ∈ ps, IsPiece byte q := by
        intro p hp hMap
        obtain ⟨ps', hRest, rfl⟩ := Option.map_eq_some_iff.mp hMap
        obtain ⟨hFlat, hPieces⟩ := ih hRest fun _ _ hIs => nomatch hIs
        exact ⟨congrArg (p ++ ·) hFlat, List.forall_mem_cons.mpr ⟨hp, hPieces⟩⟩
      rw [scan] at h
      split at h
      · next hNone =>
          subst hNone
          split at h
          · next hPercent =>
              refine ih h fun c' cs' hIs => ?_
              obtain ⟨rfl, rfl⟩ := List.cons.inj hIs
              exact ⟨hPercent, fun _ hm => nomatch hm⟩
          · next hChar => exact hOver [c] (.char hChar) h
      · next hSome =>
          obtain ⟨b, modifiers, rfl⟩ := List.exists_cons_of_ne_nil hSome
          obtain ⟨hPercent, hModifiers⟩ := hBegun b modifiers rfl
          have hWhole : b :: modifiers ++ c :: cs = b :: modifiers ++ [c] ++ cs := by simp
          rw [hWhole]
          split at h
          · next hModifier =>
              refine ih h fun c' cs' hIs => ?_
              obtain ⟨rfl, rfl⟩ := List.cons.inj hIs
              refine ⟨hPercent, fun m hm => ?_⟩
              rcases List.mem_append.mp hm with hOld | hNew
              · exact hModifiers m hOld
              · rw [List.mem_singleton.mp hNew]
                exact hModifier
          · next hConversion =>
              exact hOver _ (.directive hPercent hModifiers (Bool.not_eq_true _ ▸ hConversion)) h

/-- A format has these pieces if they are pieces and make it up. -/
theorem pieces_eq_some_iff :
    pieces byte cs = some ps ↔ ps.flatten = cs ∧ ∀ p ∈ ps, IsPiece byte p := by
  constructor
  · intro h
    exact scan_sound h fun _ _ hIs => nomatch hIs
  · rintro ⟨rfl, hPieces⟩
    induction ps with
    | nil => rfl
    | cons p ps ih =>
        obtain ⟨hp, hRest⟩ := List.forall_mem_cons.mp hPieces
        have hTail := ih hRest
        rw [pieces] at hTail
        rw [pieces, List.flatten_cons, hp.scan, hTail]
        rfl

end Pieces

/-! ### What is printed -/

variable {Arg : Type} (convert : CString → List Arg → Option (CString × List Arg))

/-- What a piece prints, and the arguments that it leaves. `convert` is for what stands behind the
`%` of a directive. -/
def printPiece (args : List Arg) : List α → Option (CString × List Arg)
  | [] => none
  | [c] => some ([byte c], args)
  | _ :: spec =>
      if spec.map byte = [percent] then some ([percent], args) else convert (spec.map byte) args

def print : List (List α) → List Arg → Option CString
  | [], _ => some []
  | p :: ps, args => do
      let (text, args) ← printPiece byte convert args p
      let rest ← print ps args
      some (text ++ rest)

/-- Characters stand for themselves. -/
theorem print_chars (cs : List α) (ps : List (List α)) (args : List Arg) :
    print byte convert (cs.map (fun c => [c]) ++ ps) args =
      (print byte convert ps args).map (cs.map byte ++ ·) := by
  induction cs with
  | nil => exact Option.map_id'.symm
  | cons c cs ih =>
      rw [List.map_cons, List.cons_append, print, printPiece]
      simp only [Option.bind_eq_bind, Option.bind_some, ih]
      cases print byte convert ps args <;> rfl

/-- `sprintf`. -/
def sprintf (fmt : List α) (args : List Arg) : Option CString := do
  let ps ← pieces byte fmt
  print byte convert ps args

end OncRpc.Format
