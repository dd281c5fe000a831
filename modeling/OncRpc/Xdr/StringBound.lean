import OncRpc.Xdr.Pointers

/-! `xdr_string` in the direction `XDR_DECODE`, up to the largest bound that there is. -/
namespace OncRpc

open XdrOps Fallible Memory

section Decode

variable {σ : Type} {R : σ → List UInt8 → Prop} {s : σ} {t bytes : List UInt8}
  {m : Memory} {cpp : Place} {p : Nat} {maxsize size : BitVec 32}

/-- The string that `*cpp` points to, where the bytes `t` stood in front of the stream. -/
structure StringAt (R : σ → List UInt8 → Prop) (maxsize : BitVec 32) (t : List UInt8)
    (cpp : Place) (s : σ × Memory) (p : Nat) (bytes : List UInt8) : Prop where
  size_le : wordAt t 0 ≤ maxsize
  within : 4 + rndup (wordAt t 0).toNat ≤ t.length
  pointer : s.2.load cpp = some (.ptr (some p))
  area : s.2.area p = some bytes
  room : (wordAt t 0).toNat + 1 ≤ bytes.length
  content : bytes.take ((wordAt t 0).toNat + 1) = Buffer.readAt t 4 (wordAt t 0).toNat ++ [0]
  behind : R s.1 (t.drop (4 + rndup (wordAt t 0).toNat))

/-- The string is decoded exactly, if the filter returns TRUE, and nothing is touched that is
not there. -/
def DecodesExactly (R : σ → List UInt8 → Prop) (maxsize : BitVec 32) (t : List UInt8)
    (cpp : Place) (r : Option Unit × σ × Memory) : Prop :=
  (r.1 = some () → ∃ p bytes, StringAt R maxsize t cpp r.2 p bytes) ∧ r.2.2.stray = false

theorem DecodesExactly.of_none {r : Option Unit × σ × Memory} (hNone : r.1 = none)
    (hStray : r.2.2.stray = false) : DecodesExactly R maxsize t cpp r := by
  refine ⟨fun hSome => ?_, hStray⟩
  rw [hNone] at hSome
  cases hSome

/-- A place that is not in the cell that has changed holds what it did. -/
theorem load_updated {m' : Memory} {c : Option Cell} (hHeap : Heap.Updated m.heap m'.heap p c)
    (hVars : SameVars m m') (hOutside : ∀ i, cpp ≠ .member p i) : m'.load cpp = m.load cpp := by
  cases cpp with
  | caller => exact congrArg (fun q => some (Slot.ptr q)) hVars.caller
  | nextCopy => exact congrArg (fun q => some (Slot.ptr q)) hVars.nextCopy
  | member obj i =>
      have hNe : obj ≠ p := by
        rintro rfl
        exact hOutside i rfl
      have hObject : m'.object obj = m.object obj := by
        simp only [object, hHeap.read, if_neg hNe]
      simp only [Memory.load, hObject]

/-- A place that holds something is not in a new cell. -/
theorem outside_brk {v : Slot} (h : m.load cpp = some v) (i : Nat) :
    cpp ≠ .member m.heap.brk i := by
  rintro rfl
  simp [Memory.load, object, Heap.read_brk] at h

theorem stray_store {m' : Memory} {v : Slot} (h : m.store cpp v = some m') :
    m'.stray = m.stray := by
  cases cpp with
  | caller =>
      cases v with
      | word w => cases h
      | ptr q =>
          cases h
          rfl
  | nextCopy =>
      cases v with
      | word w => cases h
      | ptr q =>
          cases h
          rfl
  | member obj i =>
      obtain ⟨slots, -, h⟩ := Option.bind_eq_some_iff.mp h
      obtain ⟨old, -, h⟩ := Option.bind_eq_some_iff.mp h
      obtain ⟨heap, -, h⟩ := Option.bind_eq_some_iff.mp h
      cases h
      rfl

/-- The memory with a new cell, and a pointer to it. -/
theorem runs_newCell_storeAt (hNull : m.load cpp = some (.ptr none)) (c : Cell) :
    ∃ m₁, Runs (m.grown c) m₁ (storeAt cpp (.ptr (some m.heap.brk)) : Fallible (σ × Memory) Unit)
        () ∧
      m₁.heap.read m.heap.brk = some c ∧ m₁.load cpp = some (.ptr (some m.heap.brk)) ∧
      m₁.stray = m.stray := by
  obtain ⟨m', hStore, hBrk, hLoad⟩ := store_ptr hNull (some m.heap.brk)
  have hStray : m'.stray = m.stray := stray_store hStore
  refine ⟨m'.grown c, runs_storeAt (store_grown hStore c), ?_, ?_, hStray⟩
  · show (m'.heap.malloc c).2.read m.heap.brk = some c
    rw [Heap.read_malloc, if_pos hBrk.symm]
  · exact (grown_grown [] m' c).load hLoad fun obj hMem => (by cases hMem)

/-- What is allocated has room for the string and its end. -/
theorem writeAt_string {n : Nat} (h : 4 + n ≤ t.length) :
    Buffer.writeAt (Buffer.writeAt (memAlloc (n + 1)) n [0]) 0 (Buffer.readAt t 4 n) =
      Buffer.readAt t 4 n ++ [0] := by
  have hLen : (Buffer.readAt t 4 n).length = n := Buffer.length_readAt_of_le h
  simp [Buffer.writeAt, memAlloc, hLen]

variable [XdrOps σ] (hLaw : LawfulReader R)

include hLaw in
theorem run_fillString {n : Nat} (hR : R s (t.drop 4)) (hLen : 4 ≤ t.length)
    (hArea : m.heap.read p = some (.area (memAlloc (n + 1)))) :
    (∃ s' m', 4 + rndup n ≤ t.length ∧ (fillString p n).run (s, m) = (some (), (s', m')) ∧
        R s' (t.drop (4 + rndup n)) ∧ Wrote m m' p (.area (Buffer.readAt t 4 n ++ [0]))) ∨
      ∃ s', (fillString p n).run (s, m) = (none, (s', m)) := by
  have hOpaque := passes_xdrOpaque (β := Memory) hLaw t 4
    (Buffer.writeAt (memAlloc (n + 1)) n [0]) n
  have hRoom : Runs m m (loadRoom (n + 1) p : Fallible (σ × Memory) _) (memAlloc (n + 1)) :=
    runs_loadRoom hArea (by simp [memAlloc])
  unfold fillString
  rw [run_bind_some (hRoom s)]
  by_cases hFits : 4 + rndup n ≤ t.length
  · obtain ⟨s', hRun, hR'⟩ := hOpaque.yields (b := m) hR hFits
    obtain ⟨m', hStore, hWrote⟩ := runs_storeArea (σ := σ) hArea (Buffer.readAt t 4 n ++ [0])
    have hString : 4 + n ≤ t.length := by
      rw [rndup_eq] at hFits
      omega
    refine Or.inl ⟨s', m', hFits, ?_, hR', hWrote⟩
    rw [run_bind_some hRun, writeAt_string hString]
    exact hStore s'
  · obtain ⟨s', hRun⟩ := hOpaque.short (b := m) hR hLen (Nat.not_le.mp hFits)
    exact Or.inr ⟨s', run_bind_none hRun⟩

include hLaw in
/-- The string is read into a new area, which is given back when there are not enough bytes. -/
theorem decodesExactly_fill (hMax : wordAt t 0 ≤ maxsize)
    (hNode : (wordAt t 0 + 1).toNat = (wordAt t 0).toNat + 1) (hR : R s (t.drop 4))
    (hLen : 4 ≤ t.length) (hNull : m.load cpp = some (.ptr none)) (hStray : m.stray = false) :
    DecodesExactly R maxsize t cpp ((do
      let sp ← newCell (.area (memAlloc (wordAt t 0 + 1).toNat))
      storeAt cpp (.ptr (some sp))
      let ret ← attempt (fillString sp (wordAt t 0).toNat)
      if ret.isNone then do
        memFree sp
        storeAt cpp (.ptr none)
      require ret.isSome : Fallible (σ × Memory) Unit).run (s, m)) := by
  rw [hNode]
  generalize hCell : Cell.area (memAlloc ((wordAt t 0).toNat + 1)) = c
  obtain ⟨m₁, hStore, hRead, hLoad, hClean⟩ := runs_newCell_storeAt (σ := σ) hNull c
  rw [run_bind_some (runs_newCell m c s), run_bind_some (hStore s)]
  subst hCell
  have hOutside := outside_brk hNull
  rcases run_fillString hLaw hR hLen hRead with
    ⟨s', m₂, hFits, hRun, hBehind, hWrote⟩ | ⟨s', hRun⟩
  · have hRet : (attempt (fillString m.heap.brk (wordAt t 0).toNat)).run (s, m₁) =
        (some (some ()), (s', m₂)) := by
      show attempt _ (s, m₁) = _
      rw [run] at hRun
      simp only [attempt, hRun]
    rw [run_bind_some hRet]
    have hLength : (Buffer.readAt t 4 (wordAt t 0).toNat).length = (wordAt t 0).toNat := by
      apply Buffer.length_readAt_of_le
      rw [rndup_eq] at hFits
      omega
    have hString : StringAt R maxsize t cpp (s', m₂) m.heap.brk
        (Buffer.readAt t 4 (wordAt t 0).toNat ++ [0]) := by
      refine ⟨hMax, hFits, ?_, ?_, ?_, ?_, hBehind⟩
      · exact (load_updated hWrote.heap hWrote.vars hOutside).trans hLoad
      · simp [area, hWrote.heap.read]
      · rw [List.length_append, hLength, List.length_singleton]
      · rw [List.take_of_length_le]
        rw [List.length_append, hLength, List.length_singleton]
    exact ⟨fun _ => ⟨_, _, hString⟩, hWrote.vars.stray.trans (hClean.trans hStray)⟩
  · have hKept : m₁.stray = false := hClean.trans hStray
    have hRet : (attempt (fillString m.heap.brk (wordAt t 0).toNat)).run (s, m₁) =
        (some none, (s', m₁)) := by
      show attempt _ (s, m₁) = _
      rw [run] at hRun
      simp [attempt, hRun, hKept]
    obtain ⟨m₂, hFree, hDropped⟩ := runs_memFree (σ := σ) hRead
    have hLoad' : m₂.load cpp = some (.ptr (some m.heap.brk)) :=
      (load_updated hDropped.heap hDropped.vars hOutside).trans hLoad
    obtain ⟨m₃, hNulled, -, -⟩ := store_ptr hLoad' none
    have hStray' : m₃.stray = false :=
      (stray_store hNulled).trans (hDropped.vars.stray.trans hKept)
    rw [run_bind_some hRet]
    show DecodesExactly R maxsize t cpp ((memFree m.heap.brk >>= fun _ =>
      storeAt cpp (.ptr none) >>= fun _ => require False).run (s', m₁))
    rw [run_bind_some (hFree s'), run_bind_some (runs_storeAt hNulled s')]
    exact DecodesExactly.of_none rfl hStray'

include hLaw in
/-- Only a string of the largest length that there is, which the bound must let through, is not
decoded exactly. -/
theorem xdrString_exact_iff (maxsize : BitVec 32) (s : σ) (t : List UInt8) (m : Memory)
    (cpp : Place) (hR : R s t) (hNull : m.load cpp = some (.ptr none)) (hStray : m.stray = false) :
    DecodesExactly R maxsize t cpp ((xdrStringAt maxsize.toNat .decode cpp).run (s, m)) ↔
      ¬ (maxsize.toNat = uintMax ∧ 4 ≤ t.length ∧ (wordAt t 0).toNat = uintMax) := by
  have hWord := passes_xdrInteger (β := Memory) hLaw t 0 0
  show DecodesExactly R maxsize t cpp ((loadPtr cpp >>= _).run (s, m)) ↔ _
  rw [run_bind_some (runs_loadPtr hNull s)]
  by_cases hLen : 4 ≤ t.length
  · obtain ⟨s₁, hRun, hR₁⟩ := hWord.yields (b := m) hR (by omega)
    show DecodesExactly R maxsize t cpp ((xdrInteger id id .decode 0 >>= _).run (s, m)) ↔ _
    rw [run_bind_some hRun, run_bind_require]
    by_cases hFits : (wordAt t 0).toNat > maxsize.toNat
    · rw [if_neg (not_not.mpr hFits)]
      refine iff_of_true (DecodesExactly.of_none rfl hStray) ?_
      have hLt := (wordAt t 0).isLt
      unfold uintMax
      omega
    · rw [if_pos hFits]
      dsimp only
      by_cases hLast : (wordAt t 0).toNat = uintMax
      · have hNode : (wordAt t 0 + 1).toNat = 0 := by
          rw [BitVec.toNat_add, hLast]
          rfl
        have hMax : maxsize.toNat = uintMax := by
          have hLt := maxsize.isLt
          unfold uintMax at *
          omega
        rw [if_pos hNode]
        refine iff_of_false ?_ (not_not.mpr ⟨hMax, hLen, hLast⟩)
        rintro ⟨hString, -⟩
        obtain ⟨p, bytes, hAt⟩ := hString rfl
        have hPointer : m.load cpp = some (.ptr (some p)) := hAt.pointer
        rw [hNull] at hPointer
        cases hPointer
      · have hNode : (wordAt t 0 + 1).toNat = (wordAt t 0).toNat + 1 := by
          have hLt := (wordAt t 0).isLt
          have hOne : (1 : BitVec 32).toNat = 1 := rfl
          rw [BitVec.toNat_add, hOne]
          unfold uintMax at hLast
          omega
        rw [if_neg (by rw [hNode]; exact Nat.succ_ne_zero _)]
        refine iff_of_true ?_ fun h => hLast h.2.2
        exact decodesExactly_fill hLaw (Nat.not_lt.mp hFits) hNode hR₁ hLen hNull hStray
  · obtain ⟨s₁, hRun⟩ := hWord.short (b := m) hR (Nat.zero_le _) (by omega)
    show DecodesExactly R maxsize t cpp ((xdrInteger id id .decode 0 >>= _).run (s, m)) ↔ _
    rw [run_bind_none hRun]
    exact iff_of_true (DecodesExactly.of_none rfl hStray) fun h => hLen h.2.1

end Decode

/-- A stream over a block of memory, from its start. -/
def XdrMem.whole (block : List UInt8) : XdrMem := XdrMem.xdrmemCreate block block.length true

theorem XdrMem.before_whole (block : List UInt8) :
    XdrMem.Before block block.length (XdrMem.whole block) block := by
  have hWithin : (XdrMem.whole block).Within := Nat.le_of_eq (Nat.zero_add _)
  refine ⟨rfl, Nat.zero_add _, hWithin, ?_⟩
  show (block.drop 0).take block.length = block
  simp

/-- A string of two characters. -/
def twoLetters : List UInt8 := [0, 0, 0, 2, 104, 105, 0, 0]

theorem xdrString_exact_iff_two :
    DecodesExactly (XdrMem.Before twoLetters twoLetters.length) 8 twoLetters .caller
      ((xdrStringAt (8 : BitVec 32).toNat .decode .caller).run
        (XdrMem.whole twoLetters, Memory.empty)) :=
  (xdrString_exact_iff XdrMem.lawful 8 (XdrMem.whole twoLetters) twoLetters Memory.empty .caller
    (XdrMem.before_whole twoLetters) rfl rfl).mpr (by decide)

/-- Nothing stands behind a length of 2^32 - 1, and the filter returns TRUE. -/
theorem not_xdrString_exact_last :
    ¬ ∀ (σ : Type) [XdrOps σ] (R : σ → List UInt8 → Prop), LawfulReader R →
      ∀ (maxsize : BitVec 32) (s : σ) (t : List UInt8) (m : Memory) (cpp : Place), R s t →
        m.load cpp = some (.ptr none) → m.stray = false →
        DecodesExactly R maxsize t cpp ((xdrStringAt maxsize.toNat .decode cpp).run (s, m)) := by
  intro h
  have hExact := h XdrMem _ XdrMem.lawful (BitVec.allOnes 32)
    (XdrMem.whole [255, 255, 255, 255]) [255, 255, 255, 255] Memory.empty .caller
    (XdrMem.before_whole _) rfl rfl
  have hTrue : ((xdrStringAt (BitVec.allOnes 32).toNat .decode .caller).run
      (XdrMem.whole [255, 255, 255, 255], Memory.empty)).1 = some () := by decide
  obtain ⟨p, bytes, hAt⟩ := hExact.1 hTrue
  have hShort : ¬ 4 + rndup (wordAt [255, 255, 255, 255] 0).toNat ≤
      [(255 : UInt8), 255, 255, 255].length := by decide
  exact hShort hAt.within

end OncRpc
