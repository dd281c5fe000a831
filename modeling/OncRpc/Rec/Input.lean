import OncRpc.Rec.Stream

/-! The input side of a blocking stream, below records: `get_input_bytes` and
`skip_input_bytes` take the bytes that are ready in order, across every refill of
the buffer, and fail when a read fails before they have enough. -/
namespace OncRpc.RecStrm

open Fallible

/-- The bytes that can be had before a read fails. -/
def ready (s : RecStrm) : List UInt8 := s.buffered ++ Transport.ready s.tcp.arrivals

/-- A stream in blocking mode with its input pointers inside its buffer. -/
structure Blocking (s : RecStrm) : Prop where
  nonblock : s.nonblock = false
  line : s.tcp.nonblock = false
  finger : s.inFinger ≤ s.inBoundry
  boundry : s.inBoundry ≤ s.inBase.length
  size : s.inSize = s.inBase.length
  size_min : 4 ≤ s.inSize
  size_int : s.inSize < 2 ^ 31

theorem Blocking.length_buffered {s : RecStrm} (h : s.Blocking) :
    s.buffered.length = s.inBoundry - s.inFinger := by
  have hFinger := h.finger
  have hBoundry := h.boundry
  exact Buffer.length_readAt_of_le (by omega)

theorem input_eq (s : RecStrm) :
    s.input = s.ready ++ Transport.bytes (Transport.afterReady s.tcp.arrivals) := by
  rw [input, ready, Transport.bytes_eq, List.append_assoc]

/-- What only moves input keeps the place in the record. -/
structure SamePlace (s s' : RecStrm) : Prop where
  blocking : s'.Blocking
  fbtbc_eq : s'.fbtbc = s.fbtbc
  lastFrag_eq : s'.lastFrag = s.lastFrag

/-- `n` of the ready bytes are gone. -/
structure Consumed (n : Nat) (s s' : RecStrm) : Prop extends SamePlace s s' where
  ready_eq : s'.ready = s.ready.drop n
  afterReady_eq :
    Transport.afterReady s'.tcp.arrivals = Transport.afterReady s.tcp.arrivals

/-- All the ready bytes are gone, and so is the read that failed behind them. -/
structure Drained (s s' : RecStrm) : Prop extends SamePlace s s' where
  buffered_eq : s'.buffered = []
  arrivals_eq : s'.tcp.arrivals = Transport.afterReady s.tcp.arrivals

theorem Consumed.refl {s : RecStrm} (h : s.Blocking) : Consumed 0 s s :=
  { blocking := h, fbtbc_eq := rfl, lastFrag_eq := rfl, ready_eq := rfl, afterReady_eq := rfl }

theorem Consumed.trans {m n : Nat} {s s₁ s₂ : RecStrm} (h : Consumed m s s₁)
    (h' : Consumed n s₁ s₂) : Consumed (m + n) s s₂ where
  blocking := h'.blocking
  fbtbc_eq := h'.fbtbc_eq.trans h.fbtbc_eq
  lastFrag_eq := h'.lastFrag_eq.trans h.lastFrag_eq
  ready_eq := by rw [h'.ready_eq, h.ready_eq, List.drop_drop]
  afterReady_eq := h'.afterReady_eq.trans h.afterReady_eq

theorem Consumed.drained {n : Nat} {s s₁ s₂ : RecStrm} (h : Consumed n s s₁)
    (h' : Drained s₁ s₂) : Drained s s₂ where
  blocking := h'.blocking
  fbtbc_eq := h'.fbtbc_eq.trans h.fbtbc_eq
  lastFrag_eq := h'.lastFrag_eq.trans h.lastFrag_eq
  buffered_eq := h'.buffered_eq
  arrivals_eq := by rw [h'.arrivals_eq, h.afterReady_eq]

/-- What is left to read behind `n` ready bytes. -/
theorem Consumed.input_eq {n : Nat} {s s' : RecStrm} (h : Consumed n s s') :
    s.input = s.ready.take n ++ s'.input := by
  rw [RecStrm.input_eq s', h.ready_eq, h.afterReady_eq, ← List.append_assoc,
    List.take_append_drop, RecStrm.input_eq]

theorem Drained.input_eq {s s' : RecStrm} (h : Drained s s') :
    s.input = s.ready ++ s'.input := by
  rw [RecStrm.input_eq s, input, h.buffered_eq, h.arrivals_eq, List.nil_append]

/-- The count that `fill_input_buf` asks for is positive. -/
theorem Blocking.fill_len {s : RecStrm} (h : s.Blocking) :
    (BitVec.ofNat 32 (s.inSize - s.inBoundry % bytesPerXdrUnit)).toInt =
      ((s.inSize - s.inBoundry % bytesPerXdrUnit : Nat) : Int) := by
  have hInt := h.size_int
  rw [BitVec.toInt_eq_toNat_cond, BitVec.toNat_ofNat, Nat.mod_eq_of_lt (by omega)]
  split
  · rfl
  · omega

theorem Blocking.fill_pos {s : RecStrm} (h : s.Blocking) :
    0 < s.inSize - s.inBoundry % bytesPerXdrUnit := by
  have hMin := h.size_min
  unfold bytesPerXdrUnit
  omega

theorem buffered_refilled {s : RecStrm} (tcp : Transport) {bs : List UInt8}
    (hFit : s.inBoundry % bytesPerXdrUnit + bs.length ≤ s.inBase.length) :
    (s.refilled tcp bs).buffered = bs := by
  simp only [buffered, refilled, Nat.add_sub_cancel_left]
  exact Buffer.readAt_writeAt (by omega)

theorem blocking_refilled {s : RecStrm} (h : s.Blocking) {tcp : Transport} {bs : List UInt8}
    (hLine : tcp.nonblock = s.tcp.nonblock)
    (hFit : s.inBoundry % bytesPerXdrUnit + bs.length ≤ s.inBase.length) :
    (s.refilled tcp bs).Blocking where
  nonblock := h.nonblock
  line := hLine.trans h.line
  finger := Nat.le_add_right _ _
  boundry := by
    show _ ≤ (Buffer.writeAt _ _ _).length
    rw [Buffer.length_writeAt hFit]
    exact hFit
  size := by
    show _ = (Buffer.writeAt _ _ _).length
    rw [Buffer.length_writeAt hFit]
    exact h.size
  size_min := h.size_min
  size_int := h.size_int

/-- A refill brings bytes in when some are ready. -/
theorem fillInputBuf_ready {s : RecStrm} (h : s.Blocking) (hEmpty : s.buffered = [])
    (hReady : s.ready ≠ []) :
    ∃ s', fillInputBuf.run s = (some (), s') ∧ Consumed 0 s s' ∧ s'.buffered ≠ [] := by
  have hLine : Transport.ready s.tcp.arrivals ≠ [] := by
    rwa [ready, hEmpty, List.nil_append] at hReady
  obtain ⟨bs, tcp, hRead, hTook⟩ := Transport.readit_ready h.fill_pos hLine
  have hFit : s.inBoundry % bytesPerXdrUnit + bs.length ≤ s.inBase.length := by
    have hLe := hTook.length_le
    have hPos := h.fill_pos
    have hSize := h.size
    omega
  have hBuffered := buffered_refilled tcp hFit
  refine ⟨s.refilled tcp bs, ?_, ?_, ?_⟩
  · simp only [Fallible.run, fillInputBuf, h.nonblock, h.fill_len, Bool.false_eq_true, if_false]
    rw [show Transport.readit _ s.tcp = _ from hRead]
  · exact {
      blocking := blocking_refilled h hTook.line.nonblock_eq hFit
      fbtbc_eq := rfl
      lastFrag_eq := rfl
      ready_eq := by
        rw [List.drop_zero, ready, ready, hBuffered, hEmpty, List.nil_append, hTook.ready_eq]
        rfl
      afterReady_eq := hTook.afterReady_eq }
  · rw [hBuffered]
    exact hTook.nonempty

/-- A refill fails when nothing is ready. -/
theorem fillInputBuf_blocked {s : RecStrm} (h : s.Blocking) (hReady : s.ready = []) :
    ∃ s', fillInputBuf.run s = (none, s') ∧ Drained s s' := by
  obtain ⟨hEmpty, hLine⟩ := List.append_eq_nil_iff.mp hReady
  obtain ⟨tcp, hRead, hIdled⟩ := Transport.readit_blocked h.fill_pos hLine h.line
  refine ⟨{ s with tcp := tcp }, ?_, ?_⟩
  · simp only [Fallible.run, fillInputBuf, h.nonblock, h.fill_len, Bool.false_eq_true, if_false]
    rw [show Transport.readit _ s.tcp = _ from hRead]
  · exact {
      blocking := { h with line := hIdled.line.nonblock_eq.trans h.line }
      fbtbc_eq := rfl
      lastFrag_eq := rfl
      buffered_eq := hEmpty
      arrivals_eq := hIdled.arrivals_eq }

/-- Bytes in the buffer are copied out in order. -/
theorem takeInput_consumed {s : RecStrm} (h : s.Blocking) {n : Nat}
    (hn : n ≤ s.inBoundry - s.inFinger) :
    ∃ s', (takeInput n).run s = (some (s.ready.take n), s') ∧ Consumed n s s' := by
  have hLen := h.length_buffered
  have hTake : Buffer.readAt s.inBase s.inFinger n = s.ready.take n := by
    rw [ready, List.take_append_of_le_length (by omega), buffered, Buffer.readAt_take _ _ _ _ hn]
  refine ⟨{ s with inFinger := s.inFinger + n }, ?_, ?_⟩
  · simp only [Fallible.run, takeInput, hTake]
  · have hFinger := h.finger
    exact {
      blocking := { h with finger := by dsimp only; omega }
      fbtbc_eq := rfl
      lastFrag_eq := rfl
      ready_eq := by
        rw [ready, ready, List.drop_append_of_le_length (by omega), buffered, buffered,
          Buffer.readAt_drop, Nat.sub_sub]
      afterReady_eq := rfl }

/-- The outcome of asking for `n` bytes: the next `n` when so many are ready, a
failure that uses all of them up when they are not. -/
def Delivers (n : Nat) (m : Fallible RecStrm (List UInt8)) (s : RecStrm) : Prop :=
  (n ≤ s.ready.length → ∃ s', m.run s = (some (s.ready.take n), s') ∧ Consumed n s s') ∧
  (s.ready.length < n → ∃ s', m.run s = (none, s') ∧ Drained s s')

theorem Delivers.after_refill {n : Nat} {m : Fallible RecStrm (List UInt8)} {s s₁ : RecStrm}
    {fill : Fallible RecStrm Unit} (h : Delivers n m s₁) (hFill : fill.run s = (some (), s₁))
    (hCons : Consumed 0 s s₁) : Delivers n (fill >>= fun _ => m) s := by
  have hReady : s₁.ready = s.ready := by rw [hCons.ready_eq, List.drop_zero]
  unfold Delivers at h ⊢
  rw [hReady] at h
  constructor
  · intro hLe
    obtain ⟨s', hRun, hRest⟩ := h.1 hLe
    refine ⟨s', ?_, by simpa using hCons.trans hRest⟩
    rw [run_bind_some hFill, hRun]
  · intro hLt
    obtain ⟨s', hRun, hRest⟩ := h.2 hLt
    refine ⟨s', ?_, hCons.drained hRest⟩
    rw [run_bind_some hFill, hRun]

theorem Delivers.after_take {n k : Nat} {m : Fallible RecStrm (List UInt8)} {s s₁ : RecStrm}
    (h : Delivers (n - k) m s₁) (hk : k ≤ n) (hReady : k ≤ s.ready.length)
    (hTake : (takeInput k).run s = (some (s.ready.take k), s₁)) (hCons : Consumed k s s₁) :
    Delivers n (takeInput k >>= fun bs => m >>= fun rest => pure (bs ++ rest)) s := by
  have hLen : s₁.ready.length = s.ready.length - k := by
    rw [hCons.ready_eq, List.length_drop]
  have hSum : k + (n - k) = n := by omega
  constructor
  · intro hLe
    obtain ⟨s', hRun, hRest⟩ := h.1 (by omega)
    refine ⟨s', ?_, hSum ▸ hCons.trans hRest⟩
    rw [run_bind_some hTake, run_bind_some hRun, run_pure, hCons.ready_eq, ← List.take_add, hSum]
  · intro hLt
    obtain ⟨s', hRun, hRest⟩ := h.2 (by omega)
    refine ⟨s', ?_, hCons.drained hRest⟩
    rw [run_bind_some hTake, run_bind_none hRun]

/-- The induction is on the fuel. A round that refills the buffer is followed by
one that copies, so two rounds a byte are enough. -/
theorem getInputLoop_delivers (fuel n : Nat) (s : RecStrm) (h : s.Blocking)
    (hFuel : 2 * n ≤ fuel ∨ (s.buffered ≠ [] ∧ 2 * n ≤ fuel + 1)) :
    Delivers n (getInputLoop fuel n) s := by
  induction fuel generalizing n s with
  | zero =>
      have hZero : n = 0 := by omega
      subst hZero
      exact ⟨fun _ => ⟨s, rfl, Consumed.refl h⟩, fun hLt => absurd hLt (Nat.not_lt_zero _)⟩
  | succ fuel ih =>
      cases n with
      | zero =>
          exact ⟨fun _ => ⟨s, rfl, Consumed.refl h⟩, fun hLt => absurd hLt (Nat.not_lt_zero _)⟩
      | succ n =>
          unfold Delivers
          simp only [getInputLoop, run_bind_gets]
          by_cases hd : s.inBoundry - s.inFinger = 0
          · have hEmpty : s.buffered = [] := List.length_eq_zero_iff.mp (h.length_buffered.trans hd)
            have hRounds : 2 * (n + 1) ≤ fuel + 1 := by
              rcases hFuel with hFuel | ⟨hFull, -⟩
              · exact hFuel
              · exact absurd hEmpty hFull
            rw [if_pos hd]
            by_cases hReady : s.ready = []
            · obtain ⟨s₁, hFill, hDrain⟩ := fillInputBuf_blocked h hReady
              constructor
              · intro hLe
                rw [hReady] at hLe
                exact absurd hLe (Nat.not_succ_le_zero n)
              · intro _
                exact ⟨s₁, run_bind_none hFill, hDrain⟩
            · obtain ⟨s₁, hFill, hCons, hFull⟩ := fillInputBuf_ready h hEmpty hReady
              have hRest := ih (n + 1) s₁ hCons.blocking (Or.inr ⟨hFull, hRounds⟩)
              exact hRest.after_refill hFill hCons
          · rw [if_neg hd]
            have hPos : 0 < if n + 1 < s.inBoundry - s.inFinger then n + 1
                else s.inBoundry - s.inFinger := by
              split <;> omega
            have hLe : (if n + 1 < s.inBoundry - s.inFinger then n + 1
                else s.inBoundry - s.inFinger) ≤ n + 1 := by
              split <;> omega
            have hRoom : (if n + 1 < s.inBoundry - s.inFinger then n + 1
                else s.inBoundry - s.inFinger) ≤ s.inBoundry - s.inFinger := by
              split <;> omega
            generalize (if n + 1 < s.inBoundry - s.inFinger then n + 1
                else s.inBoundry - s.inFinger) = current at hPos hLe hRoom ⊢
            obtain ⟨s₁, hTake, hCons⟩ := takeInput_consumed h hRoom
            have hRest := ih (n + 1 - current) s₁ hCons.blocking (Or.inl (by omega))
            have hReady : current ≤ s.ready.length := by
              rw [ready, List.length_append, h.length_buffered]
              omega
            exact hRest.after_take hLe hReady hTake hCons

/-- `get_input_bytes` delivers what is asked for if and only if it is ready. -/
theorem getInputBytes_delivers {s : RecStrm} (h : s.Blocking) (n : Nat) :
    Delivers n (getInputBytes n) s := by
  have hLoop := getInputLoop_delivers (2 * n) n s h (Or.inl (le_refl _))
  unfold Delivers getInputBytes
  simp only [run_bind_gets, h.nonblock, Bool.false_eq_true, if_false]
  exact hLoop

/-- Skipping is copying with the copy thrown away. -/
theorem run_skipInputLoop (fuel n : Nat) (s : RecStrm) :
    (skipInputLoop fuel n).run s =
      (((getInputLoop fuel n).run s).1.map fun _ => (), ((getInputLoop fuel n).run s).2) := by
  induction fuel generalizing n s with
  | zero => cases n <;> rfl
  | succ fuel ih =>
      cases n with
      | zero => rfl
      | succ n =>
          simp only [getInputLoop, skipInputLoop, run_bind_gets]
          split
          · rw [run_bind, run_bind]
            rcases fillInputBuf.run s with ⟨_ | _, s₁⟩
            · rfl
            · exact ih (n + 1) s₁
          · generalize (if n + 1 < s.inBoundry - s.inFinger then n + 1
                else s.inBoundry - s.inFinger) = current
            have hTake : (takeInput current).run s = (some (Buffer.readAt s.inBase s.inFinger current),
                { s with inFinger := s.inFinger + current }) := rfl
            rw [run_bind_modify, ih, run_bind_some hTake, run_bind]
            rcases (getInputLoop fuel (n + 1 - current)).run
              { s with inFinger := s.inFinger + current } with ⟨_ | rest, s₁⟩ <;> rfl

/-- `skip_input_bytes` drops what is asked for if and only if it is ready. -/
theorem skipInputBytes_spec {s : RecStrm} (h : s.Blocking) (n : Nat) :
    (n ≤ s.ready.length → ∃ s', (skipInputBytes n).run s = (some (), s') ∧ Consumed n s s') ∧
    (s.ready.length < n → ∃ s', (skipInputBytes n).run s = (none, s') ∧ Drained s s') := by
  obtain ⟨hEnough, hShort⟩ := getInputLoop_delivers (2 * n) n s h (Or.inl (le_refl _))
  unfold skipInputBytes
  rw [run_skipInputLoop]
  constructor
  · intro hLe
    obtain ⟨s', hRun, hCons⟩ := hEnough hLe
    exact ⟨s', by rw [hRun]; rfl, hCons⟩
  · intro hLt
    obtain ⟨s', hRun, hDrain⟩ := hShort hLt
    exact ⟨s', by rw [hRun]; rfl, hDrain⟩

end OncRpc.RecStrm
