import OncRpc.Rpcgen.Hout
import OncRpc.Rpcgen.InlineRun
import OncRpc.Xdr.Filters

/-! The values that the inline code moves, and those that the filters move: the macros of `xdr.h`
against the filters of `xdr.c`. -/
namespace OncRpc.Rpcgen

/-- An integer type of C. -/
structure CInt where
  bits : Nat
  signed : Bool
  deriving DecidableEq, Repr

namespace CInt

abbrev int : CInt := ⟨32, true⟩
abbrev uInt : CInt := ⟨32, false⟩
/-- A `long` is as wide as an `int` on this port. -/
abbrev long : CInt := ⟨32, true⟩
abbrev uLong : CInt := ⟨32, false⟩
abbrev short : CInt := ⟨16, true⟩
abbrev uShort : CInt := ⟨16, false⟩
/-- `int32_t`. -/
abbrev boolT : CInt := ⟨32, true⟩

/-- A conversion, by a cast or in an assignment. -/
def convert (c c' : CInt) (v : BitVec c.bits) : BitVec c'.bits :=
  if c.signed then v.signExtend c'.bits else v.setWidth c'.bits

end CInt

/-- The integer type of a name in the printed code. What `bool` is depends on what else the code
is compiled with. -/
def cInt (bool : Option CInt) (name : String) : Option CInt :=
  if name = "int" then some .int
  else if name = "u_int" then some .uInt
  else if name = "long" then some .long
  else if name = "u_long" then some .uLong
  else if name = "short" then some .short
  else if name = "u_short" then some .uShort
  else if name = "bool_t" then some .boolT
  else if name = "bool" then bool
  else none

/-! ### The macros -/

namespace Ixdr

/-- `IXDR_GET_INT32`. -/
def getInt32 (buf : BitVec 32) : BitVec CInt.int.bits := buf

/-- `IXDR_GET_U_INT32`. -/
def getUInt32 (buf : BitVec 32) : BitVec CInt.uInt.bits := CInt.convert .int .uInt (getInt32 buf)

/-- `IXDR_GET_LONG`. -/
def getLong (buf : BitVec 32) : BitVec CInt.long.bits := buf

/-- `IXDR_GET_BOOL`. -/
def getBool (buf : BitVec 32) : BitVec CInt.boolT.bits := CInt.convert .long .boolT (getLong buf)

/-- `IXDR_GET_U_LONG`. -/
def getULong (buf : BitVec 32) : BitVec CInt.uLong.bits := CInt.convert .long .uLong (getLong buf)

/-- `IXDR_GET_SHORT`. -/
def getShort (buf : BitVec 32) : BitVec CInt.short.bits := CInt.convert .long .short (getLong buf)

/-- `IXDR_GET_U_SHORT`. -/
def getUShort (buf : BitVec 32) : BitVec CInt.uShort.bits :=
  CInt.convert .long .uShort (getLong buf)

variable (c : CInt) (v : BitVec c.bits)

/-- `IXDR_PUT_INT32`. -/
def putInt32 : BitVec 32 := c.convert .uInt v

/-- `IXDR_PUT_U_INT32`. -/
def putUInt32 : BitVec 32 := putInt32 .int (c.convert .int v)

/-- `IXDR_PUT_LONG`. -/
def putLong : BitVec 32 := c.convert .uInt v

/-- `IXDR_PUT_BOOL`. -/
def putBool : BitVec 32 := putLong c v

/-- `IXDR_PUT_U_LONG`. -/
def putULong : BitVec 32 := putLong c v

/-- `IXDR_PUT_SHORT`. -/
def putShort : BitVec 32 := putLong c v

/-- `IXDR_PUT_U_SHORT`. -/
def putUShort : BitVec 32 := putLong c v

end Ixdr

/-- The macros that put a word, by their names. -/
def ixdrPut (macroName : String) : Option ((c : CInt) → BitVec c.bits → BitVec 32) :=
  if macroName = "IXDR_PUT_INT32" then some Ixdr.putInt32
  else if macroName = "IXDR_PUT_U_INT32" then some Ixdr.putUInt32
  else if macroName = "IXDR_PUT_LONG" then some Ixdr.putLong
  else if macroName = "IXDR_PUT_BOOL" then some Ixdr.putBool
  else if macroName = "IXDR_PUT_U_LONG" then some Ixdr.putULong
  else if macroName = "IXDR_PUT_SHORT" then some Ixdr.putShort
  else if macroName = "IXDR_PUT_U_SHORT" then some Ixdr.putUShort
  else none

/-- A macro that gets a word, with the type of its value. -/
structure IxdrGet where
  type : CInt
  get : BitVec 32 → BitVec type.bits

/-- The macros that get a word, by their names. -/
def ixdrGet (macroName : String) : Option IxdrGet :=
  if macroName = "IXDR_GET_INT32" then some ⟨.int, Ixdr.getInt32⟩
  else if macroName = "IXDR_GET_U_INT32" then some ⟨.uInt, Ixdr.getUInt32⟩
  else if macroName = "IXDR_GET_LONG" then some ⟨.long, Ixdr.getLong⟩
  else if macroName = "IXDR_GET_BOOL" then some ⟨.boolT, Ixdr.getBool⟩
  else if macroName = "IXDR_GET_U_LONG" then some ⟨.uLong, Ixdr.getULong⟩
  else if macroName = "IXDR_GET_SHORT" then some ⟨.short, Ixdr.getShort⟩
  else if macroName = "IXDR_GET_U_SHORT" then some ⟨.uShort, Ixdr.getUShort⟩
  else none

/-! ### The lines that are printed for a member -/

section Loop

variable {α β : Type}

/-- `for (i = 0; i < n; i++) { PUT(buf, *genp++); }`. -/
def putLoop (put : α → β) : Nat → List α → Option (List β)
  | 0, _ => some []
  | _ + 1, [] => none
  | n + 1, v :: genp => (putLoop put n genp).map (put v :: ·)

/-- `for (i = 0; i < n; i++) { *genp++ = GET(buf); }`. -/
def getLoop (get : β → α) : Nat → List α → List β → Option (List α)
  | 0, genp, _ => some genp
  | n + 1, _ :: genp, w :: buf => (getLoop get n genp buf).map (get w :: ·)
  | _ + 1, _, _ => none

end Loop

section Lines

variable (bool : Option CInt) (bounds : String → Nat) (c : CInt)

/-- The words that a line puts for a member with elements of a type. There is no telling what
happens where `genp` points to elements that are not as wide. -/
def CoutLine.puts (member : List (BitVec c.bits)) : CoutLine → Option (List (BitVec 32))
  | .single .put macroName _ => do
      let put ← ixdrPut macroName
      putLoop (put c) 1 member
  | .loop .put macroName type _ bound => do
      let put ← ixdrPut macroName
      let g ← cInt bool type
      if g.bits = c.bits then
        putLoop (fun v : BitVec c.bits => put g (v.setWidth g.bits)) (bounds bound) member
      else none
  | _ => none

/-- The elements of a member after a line has got words for it. -/
def CoutLine.gets (member : List (BitVec c.bits)) (buf : List (BitVec 32)) :
    CoutLine → Option (List (BitVec c.bits))
  | .single .get macroName _ => do
      let m ← ixdrGet macroName
      getLoop (fun w => m.type.convert c (m.get w)) 1 member buf
  | .loop .get macroName type _ bound => do
      let m ← ixdrGet macroName
      let g ← cInt bool type
      if g.bits = c.bits then
        getLoop (fun w => (m.type.convert g (m.get w)).setWidth c.bits) (bounds bound) member buf
      else none
  | _ => none

/-- A filter with the type of its object. -/
structure IntFilter where
  type : CInt
  proc : XdrProc ByteStream (BitVec type.bits)

/-- The filters for the types, by their names behind `xdr_`. -/
def intFilter (name : String) : Option IntFilter :=
  if name = "int" then some ⟨.int, xdrInt⟩
  else if name = "u_int" then some ⟨.uInt, xdrUInt⟩
  else if name = "long" then some ⟨.long, xdrLong⟩
  else if name = "u_long" then some ⟨.uLong, xdrULong⟩
  else if name = "short" then some ⟨.short, xdrShort⟩
  else if name = "u_short" then some ⟨.uShort, xdrUShort⟩
  else if name = "bool" then some ⟨.boolT, xdrBool⟩
  else none

/-- The filter for elements of a type. -/
def elemFilter (name : String) : Option (XdrProc ByteStream (BitVec c.bits)) :=
  match intFilter name with
  | none => none
  | some f => if h : f.type = c then some (h ▸ f.proc) else none

/-- What a printed statement does with a member. -/
def IfStat.filter (s : IfStat) : Option (XdrProc ByteStream (List (BitVec c.bits))) :=
  match s.args with
  | [.obj _ _] => (elemFilter c s.proc).map (xdrVector 1)
  | [.obj _ _, .num amax, .sizeof _ type proc] =>
      if s.proc = "vector" ∧ (cInt bool type).map CInt.bits = some c.bits then
        (elemFilter c proc).map (xdrVector (bounds amax))
      else none
  | _ => none

end Lines

/-- The name of the type of the elements of a member in the header. -/
def elemName (name : String) (dec : Declaration) : Option String :=
  match declType name dec with
  | .name s => some s
  | .array (.name s) _ => some s
  | _ => none

/-- How many elements a member has. -/
def elemCount (bounds : String → Nat) (dec : Declaration) : Nat :=
  if dec.rel = .vector then bounds dec.arrayMax else 1

/-- The inline code for a member puts the words that its filter puts, and gets what its filter
gets from the same words. -/
structure InlineEqual (bool : Option CInt) (bounds : String → Nat) (s : IfStat) (dec : Declaration)
    (c : CInt) (member : List (BitVec c.bits)) (words : List (BitVec 32)) : Prop where
  put : ∃ proc buf, s.filter bool bounds c = some proc ∧
    (emitInline .put dec).puts bool bounds c member = some buf ∧
    (proc .encode member).run [] = (some member, buf.flatMap Word.toBytes)
  get : ∃ proc member', s.filter bool bounds c = some proc ∧
    (emitInline .get dec).gets bool bounds c member words = some member' ∧
    (proc .decode member).run (words.flatMap Word.toBytes) = (some member', [])

/-! ### Loops over the elements -/

section Elements

variable {α β : Type}

theorem putLoop_eq (put : α → β) (genp : List α) :
    putLoop put genp.length genp = some (genp.map put) := by
  induction genp with
  | nil => rfl
  | cons v genp ih => rw [List.length_cons, putLoop, ih, Option.map_some, List.map_cons]

theorem getLoop_eq (get : β → α) {genp : List α} {buf : List β} (hLen : genp.length = buf.length) :
    getLoop get buf.length genp buf = some (buf.map get) := by
  induction buf generalizing genp with
  | nil =>
      obtain rfl := List.length_eq_zero_iff.mp hLen
      rfl
  | cons w buf ih =>
      cases genp with
      | nil => cases hLen
      | cons v genp =>
          rw [List.length_cons, getLoop, ih (Nat.succ.inj hLen), Option.map_some, List.map_cons]

variable {w : Nat} (toLong : BitVec w → BitVec 32) (ofLong : BitVec 32 → BitVec w)

/-- The filter of a vector puts one word after another. -/
theorem run_xdrVector_encode (base : List (BitVec w)) (t : List UInt8) :
    (xdrVector base.length (xdrInteger toLong ofLong) .encode base : Fallible ByteStream _).run t =
      (some base, t ++ (base.map toLong).flatMap Word.toBytes) := by
  rw [xdrVector]
  induction base generalizing t with
  | nil => simp [xdrElements]
  | cons v base ih =>
      have hHead : (xdrInteger toLong ofLong .encode v : Fallible ByteStream _).run t =
          (some v, t ++ Word.toBytes (toLong v)) := rfl
      rw [List.length_cons, xdrElements, Fallible.run_bind_some hHead,
        Fallible.run_bind_some (ih _), Fallible.run_pure, List.map_cons, List.flatMap_cons,
        List.append_assoc]

/-- The filter of a vector gets one word after another. -/
theorem takes_xdrVector_decode {base : List (BitVec w)} {words : List (BitVec 32)}
    (hLen : base.length = words.length) :
    ByteStream.Takes (xdrVector words.length (xdrInteger toLong ofLong) .decode base)
      (words.map ofLong) (words.flatMap Word.toBytes) := by
  rw [xdrVector]
  induction words generalizing base with
  | nil =>
      obtain rfl := List.length_eq_zero_iff.mp hLen
      exact ByteStream.Takes.pure []
  | cons l words ih =>
      cases base with
      | nil => cases hLen
      | cons v base =>
          have hHead : ByteStream.Takes (xdrInteger toLong ofLong .decode v) (ofLong l)
              (Word.toBytes l) := (ByteStream.Takes.getlong l).bind_pure rfl
          rw [List.length_cons, xdrElements, List.map_cons, List.flatMap_cons]
          exact hHead.bind ((ih (Nat.succ.inj hLen)).bind_pure rfl)

theorem flatMap_toBytes_injective : Function.Injective fun ws : List (BitVec 32) =>
    ws.flatMap Word.toBytes := by
  intro ws
  induction ws with
  | nil =>
      intro ws' h
      cases ws' with
      | nil => rfl
      | cons w' ws' =>
          have hLen := congrArg List.length h
          simp at hLen
          omega
  | cons w ws ih =>
      intro ws' h
      cases ws' with
      | nil =>
          have hLen := congrArg List.length h
          simp at hLen
      | cons w' ws' =>
          obtain ⟨hHead, hTail⟩ := List.append_inj h (by simp)
          rw [Word.toBytes_injective hHead, ih hTail]

end Elements

section Member

variable {bool : Option CInt} {bounds : String → Nat} {s : IfStat} {dec : Declaration} {c : CInt}
  {member : List (BitVec c.bits)} {words : List (BitVec 32)}

/-- The words are the same when every single one is, and so are the values. -/
theorem inlineEqual_iff_of_loops {toLong put : BitVec c.bits → BitVec 32}
    {ofLong get : BitVec 32 → BitVec c.bits} {n : Nat}
    (hFilter : s.filter bool bounds c = some (xdrVector n (xdrInteger toLong ofLong)))
    (hPut : (emitInline .put dec).puts bool bounds c member = putLoop put n member)
    (hGet : (emitInline .get dec).gets bool bounds c member words = getLoop get n member words)
    (hMember : member.length = n) (hWords : words.length = n) :
    InlineEqual bool bounds s dec c member words ↔
      (∀ v ∈ member, put v = toLong v) ∧ ∀ w ∈ words, get w = ofLong w := by
  have hEncode := run_xdrVector_encode toLong ofLong member []
  have hDecode := takes_xdrVector_decode toLong ofLong (hMember.trans hWords.symm) []
  have hPuts : putLoop put n member = some (member.map put) := hMember ▸ putLoop_eq put member
  have hGets : getLoop get n member words = some (words.map get) :=
    hWords ▸ getLoop_eq get (hMember.trans hWords.symm)
  rw [hMember, List.nil_append] at hEncode
  rw [hWords, List.append_nil] at hDecode
  constructor
  · rintro ⟨⟨proc, buf, hProc, hBuf, hRun⟩, ⟨proc', member', hProc', hMember', hRun'⟩⟩
    obtain rfl := Option.some.inj (hFilter.symm.trans hProc)
    obtain rfl := Option.some.inj (hFilter.symm.trans hProc')
    obtain rfl := Option.some.inj (hPuts.symm.trans (hPut.symm.trans hBuf))
    obtain rfl := Option.some.inj (hGets.symm.trans (hGet.symm.trans hMember'))
    have hBytes := (Prod.mk.inj (hEncode.symm.trans hRun)).2
    have hValues := Option.some.inj (Prod.mk.inj (hDecode.symm.trans hRun')).1
    exact ⟨fun v hv => (List.map_inj_left.mp (flatMap_toBytes_injective hBytes) v hv).symm,
      fun w hw => (List.map_inj_left.mp hValues w hw).symm⟩
  · rintro ⟨hSamePut, hSameGet⟩
    refine ⟨⟨_, _, hFilter, hPut.trans hPuts, ?_⟩, ⟨_, _, hFilter, hGet.trans hGets, ?_⟩⟩
    · rw [hEncode, List.map_congr_left hSamePut]
    · rw [hDecode, List.map_congr_left hSameGet]

end Member

/-! ### The types that are inlined -/

section Types

variable {bool : Option CInt} {bounds : String → Nat} {defined : List Definition} {stale : String}
  {s : IfStat} {dec : Declaration} {name : String}

/-- The elements are of the type that is named, but for `bool`. -/
theorem elemName_eq {n : String} (hRel : dec.rel = .alias ∨ dec.rel = .vector)
    (hType : dec.type ≠ "string") (h : elemName name dec = some n) : n = oldWord dec.type := by
  have hElem : elemName name dec =
      match worded (declWord name dec) (oldWord dec.type) with
      | .name s => some s
      | _ => none := by
    rw [elemName, declType, if_neg hType]
    rcases hRel with hAlias | hVector
    · rw [hAlias, if_neg (by simp), related]
      cases declWord name dec <;> rfl
    · rw [hVector, if_neg (by simp), related]
      cases declWord name dec <;> rfl
  rw [hElem] at h
  cases hWord : declWord name dec with
  | none =>
      rw [hWord, worded] at h
      exact (Option.some.inj h).symm
  | some k =>
      rw [hWord, worded] at h
      cases h

variable (bounds) in
/-- What is printed for a member goes through the filter for its type, once for each element. -/
theorem filter_printStat (hRel : dec.rel = .alias ∨ dec.rel = .vector) {c : CInt}
    (hMem : ∃ ptr ∈ cInitialize, ptr.name = dec.type) (hPrefix : dec.prefixWord = none)
    (hStat : printStat defined stale dec = some s)
    (hSize : cInt bool (oldWord dec.type) = some c) :
    s.filter bool bounds c =
      (elemFilter c dec.type).map (xdrVector (elemCount bounds dec)) := by
  obtain ⟨ptr, hPtr, hName⟩ := hMem
  have hPlain : printIfopen stale dec.type = dec.type ∧ dec.type ≠ "string" ∧
      dec.type ≠ "opaque" := by
    rw [← hName]
    simp only [cInitialize, List.mem_cons, List.not_mem_nil, or_false] at hPtr
    rcases hPtr with rfl | rfl | rfl | rfl | rfl | rfl | rfl <;>
      exact ⟨if_neg (by decide), by decide, by decide⟩
  obtain ⟨obj, -, rfl⟩ := Option.map_eq_some_iff.mp hStat
  rcases hRel with hAlias | hVector
  · rw [hAlias, printIfstat, hPlain.1, elemCount, if_neg (by rw [hAlias]; decide)]
    rfl
  · have hVectorOpen : printIfopen stale "vector" = "vector" := if_neg (by decide)
    have hBits : ∀ type, cInt bool type = some c →
        ("vector" = "vector" ∧ (cInt bool type).map CInt.bits = some c.bits) := by
      intro type h
      exact ⟨rfl, by rw [h]; rfl⟩
    rw [hVector, printIfstat, if_neg hPlain.2.1, if_neg hPlain.2.2, hVectorOpen, hPrefix,
      elemCount, if_pos hVector, printIfsizeof]
    by_cases hBool : dec.type = "bool"
    · rw [oldWord, if_neg (by simp [hBool]), if_pos hBool] at hSize
      rw [if_pos hBool, hBool]
      exact if_pos (hBits _ hSize)
    · rw [oldWord, if_neg (by simp [hPlain.2]), if_neg hBool] at hSize
      rw [if_neg hBool, ite_self]
      exact if_pos (hBits _ hSize)

/-- The macros that are printed for a type, and its filter. -/
structure Primitive (type : String) (c : CInt) (put : (c : CInt) → BitVec c.bits → BitVec 32)
    (m : IxdrGet) (toLong : BitVec c.bits → BitVec 32) (ofLong : BitVec 32 → BitVec c.bits) :
    Prop where
  put : ixdrPut (emitSingleInLine ⟨none, type, "", .alias, ""⟩ .put) = some put
  get : ixdrGet (emitSingleInLine ⟨none, type, "", .alias, ""⟩ .get) = some m
  filter : elemFilter c type = some (xdrInteger toLong ofLong)

theorem primitive_int : Primitive "int" .int Ixdr.putInt32 ⟨.int, Ixdr.getInt32⟩ id id :=
  ⟨rfl, rfl, rfl⟩

theorem primitive_uInt : Primitive "u_int" .uInt Ixdr.putUInt32 ⟨.uInt, Ixdr.getUInt32⟩ id id :=
  ⟨rfl, rfl, rfl⟩

theorem primitive_long : Primitive "long" .long Ixdr.putLong ⟨.long, Ixdr.getLong⟩ id id :=
  ⟨rfl, rfl, rfl⟩

theorem primitive_uLong : Primitive "u_long" .uLong Ixdr.putULong ⟨.uLong, Ixdr.getULong⟩ id id :=
  ⟨rfl, rfl, rfl⟩

theorem primitive_short : Primitive "short" .short Ixdr.putShort ⟨.short, Ixdr.getShort⟩
    (BitVec.signExtend 32) (BitVec.setWidth 16) :=
  ⟨rfl, rfl, rfl⟩

theorem primitive_uShort : Primitive "u_short" .uShort Ixdr.putUShort ⟨.uShort, Ixdr.getUShort⟩
    (BitVec.setWidth 32) (BitVec.setWidth 16) :=
  ⟨rfl, rfl, rfl⟩

theorem primitive_bool : Primitive "bool" .boolT Ixdr.putBool ⟨.boolT, Ixdr.getBool⟩
    (fun bp => if bp = 0 then 0 else 1) (fun lb => if lb = 0 then 0 else 1) :=
  ⟨rfl, rfl, rfl⟩

variable {c : CInt} {member : List (BitVec c.bits)} {words : List (BitVec 32)} {type : String}
  {put : (c : CInt) → BitVec c.bits → BitVec 32} {m : IxdrGet}
  {toLong : BitVec c.bits → BitVec 32} {ofLong : BitVec 32 → BitVec c.bits}

/-- The macro does not depend on anything but the type. -/
theorem emitSingleInLine_of_type (hType : dec.type = type) (flag : InlineFlag) :
    emitSingleInLine dec flag = emitSingleInLine ⟨none, type, "", .alias, ""⟩ flag := by
  unfold emitSingleInLine
  rw [hType]

/-- A scalar is moved by one macro. -/
theorem loops_alias (h : Primitive type c put m toLong ofLong) (hType : dec.type = type)
    (hRel : dec.rel = .alias) :
    (emitInline .put dec).puts bool bounds c member = putLoop (put c) 1 member ∧
    (emitInline .get dec).gets bool bounds c member words =
      getLoop (fun w => m.type.convert c (m.get w)) 1 member words := by
  constructor
  · rw [emitInline, hRel, CoutLine.puts, emitSingleInLine_of_type hType, h.put]
    rfl
  · rw [emitInline, hRel, CoutLine.gets, emitSingleInLine_of_type hType, h.get]
    rfl

/-- The elements of a vector are moved one by one, where `genp` points to elements of a type that
is as wide. -/
theorem loops_vector (h : Primitive type c put m toLong ofLong) (hType : dec.type = type)
    (hRel : dec.rel = .vector) {g : CInt} (hElem : cInt bool dec.type = some g)
    (hBits : g.bits = c.bits) :
    (emitInline .put dec).puts bool bounds c member =
      putLoop (fun v : BitVec c.bits => put g (v.setWidth g.bits)) (bounds dec.arrayMax) member ∧
    (emitInline .get dec).gets bool bounds c member words =
      getLoop (fun w => (m.type.convert g (m.get w)).setWidth c.bits) (bounds dec.arrayMax) member
        words := by
  constructor
  · rw [emitInline, hRel, CoutLine.puts, emitSingleInLine_of_type hType, h.put, hElem]
    exact if_pos hBits
  · rw [emitInline, hRel, CoutLine.gets, emitSingleInLine_of_type hType, h.get, hElem]
    exact if_pos hBits

/-- Where `genp` does not point to elements that are as wide, there is nothing to tell. -/
theorem puts_eq_none (hRel : dec.rel = .vector)
    (hElem : ∀ g, cInt bool dec.type = some g → g.bits ≠ c.bits) :
    (emitInline .put dec).puts bool bounds c member = none := by
  rw [emitInline, hRel, CoutLine.puts]
  cases ixdrPut (emitSingleInLine dec .put) with
  | none => rfl
  | some put =>
      cases hG : cInt bool dec.type with
      | none => rfl
      | some g => exact if_neg (hElem g hG)

/-- A type whose macros agree with its filter, and that is named alike in the header and in the
loop. -/
theorem inlineEqual_of_agree (h : Primitive type c put m toLong ofLong) (hType : dec.type = type)
    (hRel : dec.rel = .alias ∨ dec.rel = .vector) (hElem : cInt bool dec.type = some c)
    (hFilter : s.filter bool bounds c =
      (elemFilter c dec.type).map (xdrVector (elemCount bounds dec)))
    (hMember : member.length = elemCount bounds dec)
    (hWords : words.length = elemCount bounds dec) (hPut : ∀ v, put c v = toLong v)
    (hGet : ∀ w, m.type.convert c (m.get w) = ofLong w) :
    InlineEqual bool bounds s dec c member words := by
  rw [hType, h.filter, Option.map_some] at hFilter
  rcases hRel with hAlias | hVector
  · have hCount : elemCount bounds dec = 1 := if_neg (by rw [hAlias]; decide)
    rw [hCount] at hFilter hMember hWords
    obtain ⟨hPuts, hGets⟩ := loops_alias h hType hAlias
    exact (inlineEqual_iff_of_loops hFilter hPuts hGets hMember hWords).mpr
      ⟨fun v _ => hPut v, fun w _ => hGet w⟩
  · have hCount : elemCount bounds dec = bounds dec.arrayMax := if_pos hVector
    rw [hCount] at hFilter hMember hWords
    obtain ⟨hPuts, hGets⟩ := loops_vector h hType hVector hElem rfl
    refine (inlineEqual_iff_of_loops hFilter hPuts hGets hMember hWords).mpr
      ⟨fun v _ => ?_, fun w _ => ?_⟩
    · rw [BitVec.setWidth_eq, hPut]
    · rw [BitVec.setWidth_eq, hGet]

/-- A conversion between types of one width changes nothing. -/
theorem convert_eq (signed : Bool) (v : BitVec 32) :
    (if signed then v.signExtend 32 else v.setWidth 32) = v := by
  cases signed
  · exact BitVec.setWidth_eq v
  · exact BitVec.signExtend_eq v

/-- `IXDR_PUT_BOOL` and `IXDR_GET_BOOL` move a word as it stands. -/
theorem bool_moved {g : CInt} (hBits : g.bits = 32) (v : BitVec 32) :
    Ixdr.putBool g (v.setWidth g.bits) = v ∧
      (CInt.convert .boolT g (Ixdr.getBool v)).setWidth 32 = v := by
  obtain ⟨bits, signed⟩ := g
  obtain rfl : bits = 32 := hBits
  have hGet : Ixdr.getBool v = v := convert_eq true v
  constructor
  · rw [BitVec.setWidth_eq]
    exact convert_eq signed v
  · rw [BitVec.setWidth_eq, hGet]
    exact convert_eq true v

theorem normal_iff (v : BitVec 32) : v = (if v = 0 then 0 else 1) ↔ v = 0 ∨ v = 1 := by
  by_cases hZero : v = 0
  · rw [if_pos hZero, or_iff_left_of_imp fun hOne => absurd (hOne.symm.trans hZero) (by decide)]
  · rw [if_neg hZero, or_iff_right hZero]

/-- A `bool` is the same where it is moved at all and is 0 or 1. -/
theorem inlineEqual_bool_iff (hType : dec.type = "bool")
    (hRel : dec.rel = .alias ∨ dec.rel = .vector)
    {member : List (BitVec CInt.boolT.bits)}
    (hFilter : s.filter bool bounds .boolT =
      (elemFilter .boolT dec.type).map (xdrVector (elemCount bounds dec)))
    (hMember : member.length = elemCount bounds dec)
    (hWords : words.length = elemCount bounds dec) :
    InlineEqual bool bounds s dec .boolT member words ↔
      (dec.rel = .alias ∨ bool.map CInt.bits = some 32) ∧
        (∀ v ∈ member, v = 0 ∨ v = 1) ∧ ∀ w ∈ words, w = 0 ∨ w = 1 := by
  rw [hType, primitive_bool.filter, Option.map_some] at hFilter
  rcases hRel with hAlias | hVector
  · have hCount : elemCount bounds dec = 1 := if_neg (by rw [hAlias]; decide)
    rw [hCount] at hFilter hMember hWords
    obtain ⟨hPuts, hGets⟩ := loops_alias primitive_bool hType hAlias
    rw [inlineEqual_iff_of_loops hFilter hPuts hGets hMember hWords, and_iff_right (Or.inl hAlias)]
    refine and_congr (forall₂_congr fun v _ => ?_) (forall₂_congr fun w _ => ?_)
    · have hMoved : Ixdr.putBool .boolT v = v := convert_eq true v
      rw [hMoved]
      exact normal_iff v
    · have hMoved : CInt.convert .boolT .boolT (Ixdr.getBool w) = w :=
        (convert_eq true _).trans (convert_eq true w)
      rw [hMoved]
      exact normal_iff w
  · have hCount : elemCount bounds dec = bounds dec.arrayMax := if_pos hVector
    have hName : cInt bool dec.type = bool := by rw [hType]; rfl
    rw [hCount] at hFilter hMember hWords
    by_cases hWide : bool.map CInt.bits = some 32
    · obtain ⟨g, hBool, hBits⟩ := Option.map_eq_some_iff.mp hWide
      obtain ⟨hPuts, hGets⟩ := loops_vector primitive_bool hType hVector (hName.trans hBool) hBits
      rw [inlineEqual_iff_of_loops hFilter hPuts hGets hMember hWords, and_iff_right (Or.inr hWide)]
      refine and_congr (forall₂_congr fun v _ => ?_) (forall₂_congr fun w _ => ?_)
      · rw [(bool_moved hBits v).1]
        exact normal_iff v
      · rw [(bool_moved hBits w).2]
        exact normal_iff w
    · have hElem : ∀ g, cInt bool dec.type = some g → g.bits ≠ CInt.boolT.bits := by
        intro g hG hBits
        rw [hName.symm.trans hG, Option.map_some, hBits] at hWide
        exact hWide rfl
      constructor
      · rintro ⟨⟨proc, buf, -, hBuf, -⟩, -⟩
        rw [puts_eq_none hVector hElem] at hBuf
        cases hBuf
      · rintro ⟨hAlias | hSame, -⟩
        · rw [hVector] at hAlias
          cases hAlias
        · exact absurd hSame hWide

end Types

/-- The inline code for a member moves what the filter moves, exactly if the member is no `bool`,
or its elements and the words are 0 or 1 and, where it is a vector, `bool` is declared as wide as
`bool_t`. -/
theorem inlineEqual_iff (bool : Option CInt) (bounds : String → Nat) {defined : List Definition}
    {stale name : String} {dec : Declaration} {s : IfStat} {c : CInt}
    (hInline : (inlinable dec).isSome) (hStat : printStat defined stale dec = some s)
    (hType : (elemName name dec).bind (cInt bool) = some c) (member : List (BitVec c.bits))
    (words : List (BitVec 32)) (hMember : member.length = elemCount bounds dec)
    (hWords : words.length = elemCount bounds dec) :
    InlineEqual bool bounds s dec c member words ↔ dec.type ≠ "bool" ∨
      (dec.rel = .alias ∨ bool.map CInt.bits = some 32) ∧
        (∀ v ∈ member, v = 0 ∨ v = 1) ∧ ∀ w ∈ words, w = 0 ∨ w = 1 := by
  obtain ⟨ptr, hPtr⟩ := Option.isSome_iff_exists.mp hInline
  obtain ⟨-, hRel, -⟩ := inlinable_spec hPtr
  rw [inlinable] at hPtr
  split at hPtr
  case isFalse => cases hPtr
  case isTrue hTest =>
    have hMem : ptr ∈ cInitialize := List.mem_of_find?_eq_some hPtr
    have hName : ptr.name = dec.type := by simpa using List.find?_some hPtr
    obtain ⟨n, hElem, hSize⟩ := Option.bind_eq_some_iff.mp hType
    have hNames : ∀ ptr ∈ cInitialize, ptr.name ≠ "string" := by decide
    have hString : dec.type ≠ "string" := hName ▸ hNames ptr hMem
    obtain rfl := elemName_eq hRel hString hElem
    have hFilter := filter_printStat bounds hRel ⟨ptr, hMem, hName⟩ hTest.1 hStat hSize
    simp only [cInitialize, List.mem_cons, List.not_mem_nil, or_false] at hMem
    have hShort : ∀ w : BitVec 32, w.signExtend 16 = w.setWidth 16 :=
      fun w => BitVec.signExtend_eq_setWidth_of_le w (by decide)
    rcases hMem with rfl | rfl | rfl | rfl | rfl | rfl | rfl
    · obtain rfl : CInt.int = c := Option.some.inj (hName ▸ hSize :)
      refine iff_of_true ?_ (Or.inl (hName ▸ by decide))
      exact inlineEqual_of_agree primitive_int hName.symm hRel (hName ▸ rfl) hFilter
        hMember hWords (convert_eq true) (convert_eq true)
    · obtain rfl : CInt.long = c := Option.some.inj (hName ▸ hSize :)
      refine iff_of_true ?_ (Or.inl (hName ▸ by decide))
      exact inlineEqual_of_agree primitive_long hName.symm hRel (hName ▸ rfl) hFilter
        hMember hWords (convert_eq true) (convert_eq true)
    · obtain rfl : CInt.short = c := Option.some.inj (hName ▸ hSize :)
      refine iff_of_true ?_ (Or.inl (hName ▸ by decide))
      refine inlineEqual_of_agree primitive_short hName.symm hRel (hName ▸ rfl) hFilter
        hMember hWords (fun v => rfl) fun w => ?_
      exact (BitVec.signExtend_eq _).trans (hShort w)
    · obtain rfl : CInt.boolT = c := Option.some.inj (hName ▸ hSize :)
      rw [inlineEqual_bool_iff hName.symm hRel hFilter hMember hWords,
        or_iff_right (not_not_intro hName.symm)]
    · obtain rfl : CInt.uInt = c := Option.some.inj (hName ▸ hSize :)
      refine iff_of_true ?_ (Or.inl (hName ▸ by decide))
      exact inlineEqual_of_agree primitive_uInt hName.symm hRel (hName ▸ rfl) hFilter
        hMember hWords (fun v => (convert_eq true _).trans (convert_eq false v))
        fun w => (convert_eq false _).trans (convert_eq true w)
    · obtain rfl : CInt.uLong = c := Option.some.inj (hName ▸ hSize :)
      refine iff_of_true ?_ (Or.inl (hName ▸ by decide))
      exact inlineEqual_of_agree primitive_uLong hName.symm hRel (hName ▸ rfl) hFilter
        hMember hWords (convert_eq false) fun w => (convert_eq false _).trans (convert_eq true w)
    · obtain rfl : CInt.uShort = c := Option.some.inj (hName ▸ hSize :)
      refine iff_of_true ?_ (Or.inl (hName ▸ by decide))
      refine inlineEqual_of_agree primitive_uShort hName.symm hRel (hName ▸ rfl) hFilter
        hMember hWords (fun v => rfl) fun w => ?_
      exact (BitVec.setWidth_eq _).trans (hShort w)

/-- A vector of two shorts, one of them negative, and two words that are no shorts. -/
theorem inlineEqual_shorts :
    InlineEqual none (fun _ => 2)
      ⟨"vector", [.obj "(char *)(void *)" ⟨false, [.arrow "v"]⟩, .num "2",
        .sizeof none "short" "short"]⟩
      ⟨none, "short", "v", .vector, "2"⟩ .short [1, 0xffff] [0x12345678, 0xffff8000] :=
  (inlineEqual_iff none (fun _ => 2) (by decide) (show printStat [] "" _ = some _ from rfl)
    (show (elemName "s" _).bind _ = some .short from rfl) _ _ rfl rfl).mpr (Or.inl (by decide))

/-- A `bool` that is 2 is put as 2, and its filter puts 1. What is read as 2 is stored as 2, and
the filter stores 1. The loop for a vector uses a type that is not declared. -/
theorem not_inlineEqual :
    (¬ InlineEqual none (fun _ => 1) ⟨"bool", [.obj "" ⟨true, [.arrow "b"]⟩]⟩
      ⟨none, "bool", "b", .alias, ""⟩ .boolT [2] [0]) ∧
    (¬ InlineEqual none (fun _ => 1) ⟨"bool", [.obj "" ⟨true, [.arrow "b"]⟩]⟩
      ⟨none, "bool", "b", .alias, ""⟩ .boolT [1] [2]) ∧
    ¬ InlineEqual none (fun _ => 1)
      ⟨"vector", [.obj "(char *)(void *)" ⟨false, [.arrow "b"]⟩, .num "1",
        .sizeof none "bool_t" "bool"]⟩
      ⟨none, "bool", "b", .vector, "1"⟩ .boolT [1] [1] := by
  refine ⟨fun h => ?_, fun h => ?_, fun h => ?_⟩
  · have hNormal := ((inlineEqual_bool_iff rfl (Or.inl rfl) rfl rfl rfl).mp h).2.1
    exact absurd (hNormal 2 (List.mem_singleton_self _)) (by decide)
  · have hNormal := ((inlineEqual_bool_iff rfl (Or.inl rfl) rfl rfl rfl).mp h).2.2
    exact absurd (hNormal 2 (List.mem_singleton_self _)) (by decide)
  · have hWide := ((inlineEqual_bool_iff rfl (Or.inr rfl) rfl rfl rfl).mp h).1
    exact absurd hWide (by decide)

end OncRpc.Rpcgen
