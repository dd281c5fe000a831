import Mathlib.Algebra.Ring.Int.Defs
import Mathlib.Algebra.Ring.Nat
import OncRpc.Base.Buffer
import OncRpc.Base.CString

/-! The argument list of a service: a command line is split in place, and what it is split into is
presented the way `main` expects it. -/
namespace OncRpc.Service

/-- An element of `argv_`: the text of a string of the vector, or a part of `cloned_`. -/
inductive Pointer
  | string (i : Nat)
  | clone (offset : Nat)

/-- `Arguments`. A cell of `argv_` is NULL until it is set. -/
structure Arguments where
  argc : Int
  argv : List (Option Pointer)
  cloned : List UInt8

namespace Arguments

/-! ### The splitter -/

def isBlank (c : UInt8) : Bool := c == ' '.toUInt8 || c == '\t'.toUInt8 || c == '\n'.toUInt8

def isQuote (c : UInt8) : Bool := c == '\"'.toUInt8 || c == '\''.toUInt8

def backslash : UInt8 := '\\'.toUInt8

/-- What a backslash escapes. -/
def isEscaped (c : UInt8) : Bool := isQuote c || c == backslash

/-- The cells of the command, where it is read and written, and every write so far, with where the
command was read then. -/
structure Cursor where
  mem : List UInt8
  cmd : Nat
  stop : Nat
  writes : List (Nat × Nat)

/-- The loop over blanks. No loop of the splitter goes round more often than there are cells, and
none reads where there is no cell. -/
def skipBlanks (mem : List UInt8) : Nat → Nat → Option Nat
  | 0, _ => none
  | rounds + 1, cmd => do
      let c ← (mem)[cmd]?
      if isBlank c then skipBlanks mem rounds (cmd + 1) else some cmd

/-- Where the character is that is taken, if `ch` is there. -/
def skipEscape (escapes : Bool) (mem : List UInt8) (ch : UInt8) (cmd : Nat) : Option Nat :=
  if escapes ∧ ch = backslash then
    (mem)[cmd + 1]?.map fun c => if isEscaped c then cmd + 1 else cmd
  else some cmd

/-- `*end++ = *cmd++`. -/
def Cursor.copy (s : Cursor) (cmd : Nat) (c : UInt8) : Cursor where
  mem := s.mem.set s.stop c
  cmd := cmd + 1
  stop := s.stop + 1
  writes := s.writes ++ [(s.stop, cmd)]

/-- The loops over an argument, which differ in what they stop at. -/
def copyArgument (escapes : Bool) (stops : UInt8 → Bool) : Nat → Cursor → Option Cursor
  | 0, _ => none
  | rounds + 1, s => do
      let ch ← (s.mem)[s.cmd]?
      if ch = 0 ∨ stops ch = true then some s
      else
        let cmd ← skipEscape escapes s.mem ch s.cmd
        let c ← (s.mem)[cmd]?
        copyArgument escapes stops rounds (s.copy cmd c)

/-- What a quoted argument stops at. -/
def stopsQuoted (quote c : UInt8) : Bool := c == '\n'.toUInt8 || c == quote

/-- The next argument is copied, of which `c` is the first character or the quote. -/
def nextArgument (escapes : Bool) (mem : List UInt8) (writes : List (Nat × Nat)) (cmd : Nat)
    (c : UInt8) : Option (Nat × Cursor) :=
  if isQuote c then
    (copyArgument escapes (stopsQuoted c) mem.length ⟨mem, cmd + 1, cmd + 1, writes⟩).map fun s =>
      (cmd + 1, s)
  else (copyArgument escapes isBlank mem.length ⟨mem, cmd, cmd, writes⟩).map fun s => (cmd, s)

/-- The loop over the arguments. The arguments are returned with the writes there were. -/
def splitLoop (escapes : Bool) : Nat → List CString → List UInt8 → List (Nat × Nat) → Nat →
    Option (List CString × List (Nat × Nat))
  | 0, _, _, _, _ => none
  | rounds + 1, argv, mem, writes, cmd => do
      let cmd ← skipBlanks mem mem.length cmd
      let c ← (mem)[cmd]?
      if c = 0 then some (argv, writes)
      else
        let (start, s) ← nextArgument escapes mem writes cmd c
        let argv := argv ++ [Buffer.readAt s.mem start (s.stop - start)]
        let c ← (s.mem)[s.cmd]?
        if c = 0 then some (argv, s.writes)
        else
          splitLoop escapes rounds argv (s.mem.set s.stop 0) (s.writes ++ [(s.stop, s.cmd)])
            (s.cmd + 1)

/-- `emplace_split`. -/
def emplaceSplit (argv : List CString) (mem : List UInt8) (escapes : Bool) :
    Option (List CString × List (Nat × Nat)) :=
  splitLoop escapes mem.length argv mem [] 0

/-- `split`, of a copy of the command. -/
def split (argv : List CString) (cmd : CString) (escapes : Bool) :
    Option (List CString × List (Nat × Nat)) :=
  emplaceSplit argv (cmd ++ [0]) escapes

/-! ### The list -/

/-- The loop over the strings. -/
def pointStrings : List CString → Nat → List (Option Pointer) → List (Option Pointer) × Nat
  | [], v, argv => (argv, v)
  | _ :: args, v, argv => pointStrings args (v + 1) (argv.set v (some (.string v)))

/-- The loop over the strings that are cloned. -/
def pointClones : List CString → Nat → Nat → List (Option Pointer) → List UInt8 →
    List (Option Pointer) × Nat × List UInt8
  | [], v, _, argv, cloned => (argv, v, cloned)
  | val :: args, v, cursor, argv, cloned =>
      pointClones args (v + 1) (cursor + (val.length + 1)) (argv.set v (some (.clone cursor)))
        (Buffer.writeAt cloned cursor (val ++ [0]))

def cloneLength (args : List CString) : Nat :=
  args.foldl (fun length val => length + (val.length + 1)) 0

/-- `Arguments::Arguments`, where there is memory. `argc_` is an `int`. -/
def ofVector (args : List CString) (clone : Bool) : Arguments :=
  let argv := List.replicate (args.length + 1) none
  let (argv, v, cloned) :=
    if clone then
      let length := cloneLength args
      if length ≠ 0 then pointClones args 0 0 argv (List.replicate length 0) else (argv, 0, [])
    else
      let (argv, v) := pointStrings args 0 argv
      (argv, v, [])
  { argc := Int.bmod v (2 ^ 32), argv := argv.set v none, cloned := cloned }

end Arguments
end OncRpc.Service
