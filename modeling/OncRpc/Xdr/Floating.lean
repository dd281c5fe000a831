import OncRpc.Xdr.Sink

/-! `xdr_float.c`: floating-point numbers, as they stand in the memory of a little-endian
machine. -/
namespace OncRpc

open XdrOps Fallible

/-- The symbols that the preprocessor tests. -/
structure Predefined where
  byteOrder : Option Int
  bigEndian : Option Int
  arm : Bool
  vfpFp : Bool
  deriving DecidableEq, Repr

namespace Predefined

/-- What a symbol counts as in `#if`. -/
def value (symbol : Option Int) : Int := symbol.getD 0

/-- `(BYTE_ORDER == BIG_ENDIAN) || (defined(__arm__) && !defined(__VFP_FP__))`. -/
def firstWordFirst (d : Predefined) : Bool :=
  decide (value d.byteOrder = value d.bigEndian) || (d.arm && !d.vfpFp)

/-- The symbols of this port: no header and no makefile defines a byte order. -/
def port (arm vfpFp : Bool) : Predefined where
  byteOrder := none
  bigEndian := none
  arm := arm
  vfpFp := vfpFp

@[simp] theorem firstWordFirst_port (arm vfpFp : Bool) :
    (port arm vfpFp).firstWordFirst = true := rfl

end Predefined

section Filters

variable {σ : Type} [XdrOps σ]

/-- The `int32_t` at `i32p + i`. -/
def loadInt32 (i : Nat) (i32p : List UInt8) : BitVec 32 :=
  Word.load .little (Buffer.readAt i32p (4 * i) 4)

def storeInt32 (i : Nat) (w : BitVec 32) (i32p : List UInt8) : List UInt8 :=
  Buffer.writeAt i32p (4 * i) (Word.store .little w)

/-- `XDR_PUTINT32`. -/
def xdrPutint32 (i : Nat) (i32p : List UInt8) : Fallible σ Unit := putlong (loadInt32 i i32p)

/-- `XDR_GETINT32`. -/
def xdrGetint32 (i : Nat) (i32p : List UInt8) : Fallible σ (List UInt8) := do
  let l ← getlong
  pure (storeInt32 i l i32p)

/-- `xdr_float`, over the memory of the `float`. -/
def xdrFloat : XdrProc σ (List UInt8) := fun op fp =>
  match op with
  | .encode => do
      xdrPutint32 0 fp
      pure fp
  | .decode => xdrGetint32 0 fp
  | .free => pure fp

/-- `xdr_double`, over the memory of the `double`. -/
def xdrDouble (d : Predefined) : XdrProc σ (List UInt8) := fun op dp =>
  match op with
  | .encode =>
      if d.firstWordFirst then do
        xdrPutint32 0 dp
        xdrPutint32 1 dp
        pure dp
      else do
        xdrPutint32 1 dp
        xdrPutint32 0 dp
        pure dp
  | .decode =>
      if d.firstWordFirst then do
        let dp ← xdrGetint32 0 dp
        xdrGetint32 1 dp
      else do
        let dp ← xdrGetint32 1 dp
        xdrGetint32 0 dp
  | .free => pure dp

end Filters

/-! ### Wire order -/

/-- The bytes of a pattern, the most significant first. -/
def floatBytes (v : BitVec 32) : List UInt8 := Word.toBytes v

def doubleBytes (v : BitVec 64) : List UInt8 :=
  Word.toBytes (v.extractLsb' 32 32) ++ Word.toBytes (v.extractLsb' 0 32)

section Streams

variable {σ : Type} [XdrOps σ]

/-- A stream that words are put on. `Put s bs` says that `bs` are the bytes that it has taken. -/
def TakesWords (Put : σ → List UInt8 → Prop) : Prop :=
  ∀ s bs w s', Put s bs → (putlong w).run s = (some (), s') → Put s' (bs ++ Word.toBytes w)

/-- A stream that gives words. `Ahead s bs` says that `bs` are the bytes before it. -/
def GivesWords (Ahead : σ → List UInt8 → Prop) : Prop :=
  ∀ s w bs, Ahead s (Word.toBytes w ++ bs) → ∃ s', getlong.run s = (some w, s') ∧ Ahead s' bs

/-- `n` words taken one by one. -/
def getWords : Nat → Fallible σ Unit
  | 0 => pure ()
  | n + 1 => do
      let _ ← getlong
      getWords n

end Streams

/-- The filter for a number in memory whose bytes, the most significant first, are `bs`: over every
stream of words it puts these bytes and takes them back. -/
structure InWireOrder (filter : (σ : Type) → [XdrOps σ] → XdrProc σ (List UInt8))
    (bs : List UInt8) : Prop where
  encodes : ∀ (σ : Type) [XdrOps σ] (Put : σ → List UInt8 → Prop), TakesWords Put →
    ∀ s cs loc s', Put s cs → (filter σ .encode bs.reverse).run s = (some loc, s') →
      loc = bs.reverse ∧ Put s' (cs ++ bs)
  decodes : ∀ (σ : Type) [XdrOps σ] (Ahead : σ → List UInt8 → Prop), GivesWords Ahead →
    ∀ s loc cs, loc.length = bs.length → Ahead s (bs ++ cs) →
      ∃ s', (filter σ .decode loc).run s = (some bs.reverse, s') ∧ Ahead s' cs

/-- The filter puts and takes `n` words, and fails just when one of them cannot be put or taken. -/
structure FailsWithWords (filter : (σ : Type) → [XdrOps σ] → XdrProc σ (List UInt8)) (n : Nat) :
    Prop where
  encodes : ∀ loc, ∃ ws : List (BitVec 32), ws.length = n ∧ ∀ (σ : Type) [XdrOps σ] (s : σ),
    ((filter σ .encode loc).run s).1.isSome = ((putWords ws).run s).1.isSome
  decodes : ∀ loc (σ : Type) [XdrOps σ] (s : σ),
    ((filter σ .decode loc).run s).1.isSome = ((getWords n : Fallible σ Unit).run s).1.isSome

/-! ### Words in memory -/

section Memory

variable {v w : BitVec 32} {mem : List UInt8}

/-- The memory of two words. -/
def wordPair (v w : BitVec 32) : List UInt8 := Word.store .little v ++ Word.store .little w

theorem reverse_doubleBytes (v : BitVec 64) :
    (doubleBytes v).reverse = wordPair (v.extractLsb' 0 32) (v.extractLsb' 32 32) := by
  rw [doubleBytes, List.reverse_append]
  rfl

theorem loadInt32_wordPair (v w : BitVec 32) :
    loadInt32 0 (wordPair v w) = v ∧ loadInt32 1 (wordPair v w) = w := by
  constructor
  · exact Word.load_store .little v
  · exact Word.load_store .little w

theorem storeInt32_pair (h : mem.length = 8) :
    storeInt32 1 w (storeInt32 0 v mem) = wordPair v w ∧
      storeInt32 0 v (storeInt32 1 w mem) = wordPair v w := by
  match mem, h with
  | [a, b, c, d, a', b', c', d'], _ => exact ⟨rfl, rfl⟩

theorem storeInt32_single (h : mem.length = 4) : storeInt32 0 v mem = (floatBytes v).reverse := by
  match mem, h with
  | [a, b, c, d], _ => rfl

end Memory

/-! ### One word, or two -/

section Runs

variable {σ : Type} [XdrOps σ] {Put Ahead : σ → List UInt8 → Prop} {s s' : σ} {v w : BitVec 32}
  {bs : List UInt8} {loc loc' : List UInt8}

/-- The words that a computation has put. -/
theorem TakesWords.putWords (h : TakesWords Put) (ws : List (BitVec 32)) :
    ∀ {s s' : σ} {bs}, Put s bs → (OncRpc.putWords ws).run s = (some (), s') →
      Put s' (bs ++ ws.flatMap Word.toBytes) := by
  induction ws with
  | nil =>
      intro s s' bs hPut hRun
      cases hRun
      rw [List.flatMap_nil, List.append_nil]
      exact hPut
  | cons w ws ih =>
      intro s s' bs hPut hRun
      obtain ⟨⟨⟩, s₁, hFirst, hRest⟩ := exists_of_run_bind hRun
      rw [List.flatMap_cons, ← List.append_assoc]
      exact ih (h s bs w s₁ hPut hFirst) hRest

/-- A filter that puts words of its object and leaves the object alone. -/
theorem putWords_bind_pure (ws : List (BitVec 32)) (loc : List UInt8) {s s' : σ}
    (h : (OncRpc.putWords ws >>= fun _ => (pure loc : Fallible σ _)).run s = (some loc', s')) :
    loc' = loc ∧ (OncRpc.putWords ws).run s = (some (), s') := by
  obtain ⟨⟨⟩, s₁, hPut, hPure⟩ := exists_of_run_bind h
  cases hPure
  exact ⟨rfl, hPut⟩

/-- Two words that are taken and made into one object. -/
theorem GivesWords.two (h : GivesWords Ahead) (f : BitVec 32 → BitVec 32 → List UInt8)
    (hAhead : Ahead s (Word.toBytes v ++ Word.toBytes w ++ bs)) :
    ∃ s', (do
      let l ← getlong
      let l' ← getlong
      (pure (f l l') : Fallible σ _)).run s = (some (f v w), s') ∧ Ahead s' bs := by
  rw [List.append_assoc] at hAhead
  obtain ⟨s₁, hFirst, hAhead₁⟩ := h s v _ hAhead
  obtain ⟨s₂, hSecond, hAhead₂⟩ := h s₁ w _ hAhead₁
  refine ⟨s₂, ?_, hAhead₂⟩
  rw [run_bind_some hFirst, run_bind_some hSecond]
  rfl

theorem xdrFloat_encode (loc : List UInt8) :
    (xdrFloat .encode loc : Fallible σ _) = putWords [loadInt32 0 loc] >>= fun _ => pure loc := by
  simp only [xdrFloat, xdrPutint32, putWords, bind_assoc, pure_bind]

/-- The words of a `double` in the order in which they are put. -/
def Predefined.inOrder (d : Predefined) (v w : BitVec 32) : List (BitVec 32) :=
  if d.firstWordFirst then [v, w] else [w, v]

theorem xdrDouble_encode (d : Predefined) (loc : List UInt8) :
    (xdrDouble d .encode loc : Fallible σ _) =
      putWords (d.inOrder (loadInt32 0 loc) (loadInt32 1 loc)) >>= fun _ => pure loc := by
  unfold Predefined.inOrder
  cases hFirst : d.firstWordFirst with
  | true => simp only [xdrDouble, hFirst, if_true, xdrPutint32, putWords, bind_assoc, pure_bind]
  | false =>
      simp only [xdrDouble, hFirst, Bool.false_eq_true, if_false, xdrPutint32, putWords, bind_assoc,
        pure_bind]

theorem xdrDouble_decode (d : Predefined) (loc : List UInt8) :
    (xdrDouble d .decode loc : Fallible σ _) = (do
      let l ← getlong
      let l' ← getlong
      pure (if d.firstWordFirst then storeInt32 1 l' (storeInt32 0 l loc)
        else storeInt32 0 l' (storeInt32 1 l loc))) := by
  cases hFirst : d.firstWordFirst with
  | true => simp only [xdrDouble, hFirst, if_true, xdrGetint32, bind_assoc, pure_bind]
  | false =>
      simp only [xdrDouble, hFirst, Bool.false_eq_true, if_false, xdrGetint32, bind_assoc,
        pure_bind]

omit [XdrOps σ] in
theorem isSome_bind_pure {α β : Type} (m : Fallible σ α) (f : α → β) (s : σ) :
    ((m >>= fun a => (pure (f a) : Fallible σ β)).run s).1.isSome = (m.run s).1.isSome := by
  rw [run_bind]
  rcases m.run s with ⟨_ | a, s'⟩
  · rfl
  · rfl

end Runs

/-- On a stream of bytes every word can be put. -/
theorem run_putWords_byteStream (ws : List (BitVec 32)) : ∀ t : ByteStream,
    (putWords ws).run t = (some (), t ++ ws.flatMap Word.toBytes) := by
  induction ws with
  | nil => exact fun t => by rw [List.flatMap_nil, List.append_nil]; rfl
  | cons w ws ih =>
      intro t
      have hFirst : (putlong w : Fallible ByteStream Unit).run t = (some (), t ++ Word.toBytes w) :=
        rfl
      rw [putWords, run_bind_some hFirst, ih, List.flatMap_cons, List.append_assoc]

/-- A failure of the stream is a failure of `xdr_float`. -/
theorem xdrFloat_failsWithWords : FailsWithWords (fun _ => xdrFloat) 1 where
  encodes loc := by
    refine ⟨[loadInt32 0 loc], rfl, fun σ _ s => ?_⟩
    rw [xdrFloat_encode, isSome_bind_pure]
  decodes loc σ _ s := by
    show ((getlong >>= fun l => (pure (storeInt32 0 l loc) : Fallible σ _)).run s).1.isSome =
      ((getlong >>= fun _ => (pure () : Fallible σ Unit)).run s).1.isSome
    rw [isSome_bind_pure, isSome_bind_pure]

theorem xdrDouble_failsWithWords (d : Predefined) : FailsWithWords (fun _ => xdrDouble d) 2 where
  encodes loc := by
    refine ⟨d.inOrder (loadInt32 0 loc) (loadInt32 1 loc), ?_, fun σ _ s => ?_⟩
    · unfold Predefined.inOrder
      split <;> rfl
    · rw [xdrDouble_encode, isSome_bind_pure]
  decodes loc σ _ s := by
    rw [xdrDouble_decode, run_bind, show getWords 2 = (getlong >>= fun _ => getlong >>= fun _ =>
      (pure () : Fallible σ Unit)) from rfl, run_bind]
    rcases (getlong : Fallible σ (BitVec 32)).run s with ⟨- | l, s₁⟩
    · rfl
    · show ((getlong >>= fun _ => _).run s₁).1.isSome = ((getlong >>= fun _ => _).run s₁).1.isSome
      rw [isSome_bind_pure, isSome_bind_pure]

/-- A `float` is its own word. -/
theorem xdrFloat_inWireOrder (v : BitVec 32) : InWireOrder (fun _ => xdrFloat) (floatBytes v) where
  encodes := by
    intro σ _ Put hTakes s cs loc s' hPut hRun
    rw [xdrFloat_encode] at hRun
    obtain ⟨hLoc, hWords⟩ := putWords_bind_pure _ _ hRun
    refine ⟨hLoc, ?_⟩
    have hBytes := hTakes.putWords _ hPut hWords
    rw [show loadInt32 0 (floatBytes v).reverse = v from Word.load_store .little v] at hBytes
    exact hBytes
  decodes := by
    intro σ _ Ahead hGives s loc cs hLen hAhead
    obtain ⟨s', hRun, hAhead'⟩ := hGives s v cs hAhead
    refine ⟨s', ?_, hAhead'⟩
    show (getlong >>= fun l => (pure (storeInt32 0 l loc) : Fallible σ _)).run s = _
    rw [run_bind_some hRun, storeInt32_single hLen]
    rfl

/-- The words of a `double` are put in wire order when the high word comes first, or they are the
same. -/
theorem flatMap_inOrder_iff (d : Predefined) (v w : BitVec 32) :
    (d.inOrder v w).flatMap Word.toBytes = Word.toBytes w ++ Word.toBytes v ↔
      d.firstWordFirst = false ∨ w = v := by
  unfold Predefined.inOrder
  cases d.firstWordFirst with
  | true =>
      simp only [if_true, List.flatMap_cons, List.flatMap_nil, List.append_nil, Bool.true_eq_false,
        false_or]
      constructor
      · intro h
        exact (Word.toBytes_injective (List.append_inj_left h rfl)).symm
      · rintro rfl
        rfl
  | false => simp

/-- A `double` is in wire order where the word that is put first is its high word, or its words are
the same. -/
theorem xdrDouble_inWireOrder_iff (d : Predefined) (v : BitVec 64) :
    InWireOrder (fun _ => xdrDouble d) (doubleBytes v) ↔
      d.firstWordFirst = false ∨ v.extractLsb' 32 32 = v.extractLsb' 0 32 := by
  rw [← flatMap_inOrder_iff]
  obtain ⟨hLow, hHigh⟩ := loadInt32_wordPair (v.extractLsb' 0 32) (v.extractLsb' 32 32)
  rw [← reverse_doubleBytes] at hLow hHigh
  constructor
  · intro h
    -- What is put on a stream of bytes is what has been put.
    have hTakes : TakesWords (σ := ByteStream) fun s bs => s = bs := by
      rintro s _ w s' rfl hRun
      cases hRun
      rfl
    have hRun : (xdrDouble d .encode (doubleBytes v).reverse).run ([] : ByteStream) =
        (some (doubleBytes v).reverse,
          (d.inOrder (v.extractLsb' 0 32) (v.extractLsb' 32 32)).flatMap Word.toBytes) := by
      rw [xdrDouble_encode, hLow, hHigh, run_bind_some (run_putWords_byteStream _ [])]
      rfl
    exact (h.encodes ByteStream _ hTakes [] [] _ _ rfl hRun).2
  · intro hWords
    constructor
    · intro σ _ Put hTakes s cs loc s' hPut hRun
      rw [xdrDouble_encode, hLow, hHigh] at hRun
      obtain ⟨hLoc, hPuts⟩ := putWords_bind_pure _ _ hRun
      have hBytes := hTakes.putWords _ hPut hPuts
      rw [hWords] at hBytes
      exact ⟨hLoc, hBytes⟩
    · intro σ _ Ahead hGives s loc cs hLen hAhead
      rw [xdrDouble_decode]
      obtain ⟨s', hRun, hAhead'⟩ := hGives.two (fun l l' =>
        if d.firstWordFirst then storeInt32 1 l' (storeInt32 0 l loc)
        else storeInt32 0 l' (storeInt32 1 l loc)) hAhead
      refine ⟨s', ?_, hAhead'⟩
      rw [hRun, reverse_doubleBytes]
      rcases (flatMap_inOrder_iff d _ _).mp hWords with hFirst | hSame
      · simp only [hFirst, Bool.false_eq_true, if_false, (storeInt32_pair hLen).2]
      · simp only [hSame, storeInt32_pair hLen, ite_self]

/-- With the symbols of this port, floating-point numbers are in wire order just for a `double`
whose two words are the same. -/
theorem floating_inWireOrder_iff (arm vfpFp : Bool) (f : BitVec 32) (v : BitVec 64) :
    (InWireOrder (fun _ => xdrFloat) (floatBytes f) ∧ FailsWithWords (fun _ => xdrFloat) 1 ∧
      InWireOrder (fun _ => xdrDouble (.port arm vfpFp)) (doubleBytes v) ∧
      FailsWithWords (fun _ => xdrDouble (.port arm vfpFp)) 2) ↔
      v.extractLsb' 32 32 = v.extractLsb' 0 32 := by
  have hDouble := xdrDouble_inWireOrder_iff (.port arm vfpFp) v
  rw [Predefined.firstWordFirst_port, or_iff_right (by decide)] at hDouble
  constructor
  · rintro ⟨-, -, h, -⟩
    exact hDouble.mp h
  · intro h
    exact ⟨xdrFloat_inWireOrder f, xdrFloat_failsWithWords, hDouble.mpr h,
      xdrDouble_failsWithWords _⟩

/-- `1.0` is sent as `00 00 00 00 3f f0 00 00`. -/
theorem not_floating_inWireOrder : ¬ ∀ (arm vfpFp : Bool) (f : BitVec 32) (v : BitVec 64),
    InWireOrder (fun _ => xdrFloat) (floatBytes f) ∧ FailsWithWords (fun _ => xdrFloat) 1 ∧
      InWireOrder (fun _ => xdrDouble (.port arm vfpFp)) (doubleBytes v) ∧
      FailsWithWords (fun _ => xdrDouble (.port arm vfpFp)) 2 := by
  intro h
  have hOrder := (h false true 0 0x3ff0000000000000).2.2.1
  rcases (xdrDouble_inWireOrder_iff _ _).mp hOrder with hFirst | hSame
  · cases hFirst
  · exact absurd hSame (by decide)

/-! ### The streams -/

end OncRpc
