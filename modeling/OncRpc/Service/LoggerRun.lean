import OncRpc.Base.Exclusive
import OncRpc.Service.Logger

/-! What the logger makes of the messages, whatever the order in which its threads go on. -/
namespace OncRpc.Service

open Journal Logger

/-! ### What is in a cursor -/

namespace Logger

/-- A cursor is filled with a text, and has room for more. -/
structure BufferCursor.Holds (cursor : BufferCursor) (text : List UInt8) (room : Nat) : Prop where
  size : cursor.size = text.length
  data : cursor.data.take text.length = text
  length : cursor.data.length = text.length + room

section Holds

variable {cursor : BufferCursor} {text buffer : List UInt8} {room : Nat}

theorem BufferCursor.Holds.text_eq (h : cursor.Holds text room) : cursor.text = text := by
  rw [BufferCursor.text, h.size, h.data]

theorem holds_allocate (buflen : Nat) : (BufferCursor.allocate buflen).Holds [] buflen where
  size := rfl
  data := rfl
  length := by
    rw [BufferCursor.allocate, List.length_replicate, List.length_nil, Nat.zero_add]

theorem BufferCursor.Holds.append (h : cursor.Holds text room) (hRoom : buffer.length ≤ room)
    (hFits : text.length + buffer.length < 2 ^ 32) :
    (cursor.append buffer).Holds (text ++ buffer) (room - buffer.length) := by
  have hLength := h.length
  have hOff : text.length ≤ cursor.data.length := by omega
  have hFront : (Buffer.writeAt cursor.data text.length buffer).take
      (text.length + buffer.length + 0) = _ := Buffer.take_writeAt hOff 0
  rw [Nat.add_zero, h.data, Buffer.readAt_zero, List.append_nil] at hFront
  refine ⟨?_, ?_, ?_⟩
  · simp only [BufferCursor.append, h.size, List.length_append]
    exact Nat.mod_eq_of_lt hFits
  · simp only [BufferCursor.append, h.size, List.length_append]
    exact hFront
  · simp only [BufferCursor.append, h.size, List.length_append]
    rw [Buffer.length_writeAt (by omega)]
    omega

theorem assign_allocate (buflen : Nat) (buffer : List UInt8) :
    (BufferCursor.allocate buflen).assign buffer =
      (BufferCursor.allocate buflen).append buffer := by
  simp only [BufferCursor.assign, BufferCursor.append, BufferCursor.allocate, Nat.zero_add]

theorem assignNl_allocate (buflen : Nat) (hFits : buffer.length < 2 ^ 32) :
    (BufferCursor.allocate buflen).assignNl buffer =
      ((BufferCursor.allocate buflen).append buffer).append ['\n'.toUInt8] := by
  simp only [BufferCursor.assignNl, BufferCursor.append, BufferCursor.allocate, Nat.zero_add,
    Nat.mod_eq_of_lt hFits, List.length_singleton]

theorem holds_appendAll {iov : List (List UInt8)} (h : cursor.Holds text room)
    (hRoom : iov.flatten.length ≤ room) (hFits : text.length + iov.flatten.length < 2 ^ 32) :
    (appendAll iov cursor).Holds (text ++ iov.flatten) (room - iov.flatten.length) := by
  induction iov generalizing cursor text room with
  | nil =>
      rw [List.flatten_nil, List.append_nil, List.length_nil, Nat.sub_zero]
      exact h
  | cons v iov ih =>
      rw [List.flatten_cons, List.length_append] at hRoom hFits ⊢
      rw [appendAll, ← List.append_assoc, ← Nat.sub_sub]
      by_cases hEmpty : v.length ≠ 0
      · rw [if_pos hEmpty]
        have hv : (cursor.append v).Holds (text ++ v) (room - v.length) :=
          h.append (by omega) (by omega)
        exact ih hv (by omega) (by rw [List.length_append]; omega)
      · have hNil : v = [] := List.length_eq_zero_iff.mp (not_not.mp hEmpty)
        rw [if_neg hEmpty, hNil, List.append_nil, List.length_nil, Nat.sub_zero]
        rw [hNil, List.length_nil, Nat.zero_add] at hRoom hFits
        exact ih h hRoom hFits

theorem needNl_append (text : List UInt8) (h : buffer ≠ []) :
    needNl (text ++ buffer) = needNl buffer := by
  unfold needNl
  apply decide_eq_decide.mpr
  rw [List.getLast?_append_of_ne_nil _ h]
  exact and_congr_left fun _ => iff_of_true (List.append_ne_nil_of_right_ne_nil _ h) h

/-- The vectors as one text. -/
theorem storageNeeds_eq (iov : List (List UInt8)) (text : List UInt8) :
    storageNeeds iov text.length (needNl text) =
      ((text ++ iov.flatten).length, needNl (text ++ iov.flatten)) := by
  induction iov generalizing text with
  | nil => rw [storageNeeds, List.flatten_nil, List.append_nil]
  | cons v iov ih =>
      rw [storageNeeds, List.flatten_cons, ← List.append_assoc]
      by_cases hEmpty : v.length ≠ 0
      · have hv : v ≠ [] := fun h => hEmpty (congrArg List.length h)
        rw [if_pos hEmpty, ← needNl_append text hv, ← List.length_append]
        exact ih (text ++ v)
      · have hNil : v = [] := List.length_eq_zero_iff.mp (not_not.mp hEmpty)
        rw [if_neg hEmpty, hNil, List.append_nil]
        exact ih text

/-- A message with its line end, which is one more if there was none. -/
theorem terminated_eq (message : List UInt8) :
    terminated message = message ++ if needNl message then ['\n'.toUInt8] else [] := by
  unfold terminated
  split
  · rfl
  · exact (List.append_nil message).symm

/-- The cursor of a call holds the message with its line end, if it is not too long. -/
theorem holds_cursor {call : Call} (h : call.cursor = some cursor)
    (hFits : (terminated call.message).length < 2 ^ 32) :
    cursor.Holds (terminated call.message) 0 := by
  cases call with
  | push buffer =>
      rw [Call.message, terminated_eq] at hFits ⊢
      rw [Call.cursor] at h
      by_cases hNl : needNl buffer = true
      · rw [if_pos hNl] at h hFits ⊢
        rw [List.length_append, List.length_singleton] at hFits
        rw [← Option.some.inj h, assignNl_allocate _ (by omega)]
        have hText : ((BufferCursor.allocate (buffer.length + 1)).append buffer).Holds
            ([] ++ buffer) (buffer.length + 1 - buffer.length) :=
          (holds_allocate _).append (Nat.le_add_right _ 1) (by rw [List.length_nil]; omega)
        rw [List.nil_append, Nat.add_sub_cancel_left] at hText
        exact hText.append (List.length_singleton.le) hFits
      · rw [if_neg hNl, List.append_nil] at hFits ⊢
        rw [if_neg hNl] at h
        rw [← Option.some.inj h, assign_allocate]
        have hText : ((BufferCursor.allocate buffer.length).append buffer).Holds ([] ++ buffer)
            (buffer.length - buffer.length) :=
          (holds_allocate _).append (Nat.le_refl _) (by rw [List.length_nil]; omega)
        rwa [List.nil_append, Nat.sub_self] at hText
  | pushv iov =>
      rw [Call.message, terminated_eq] at hFits ⊢
      have hNeeds : storageNeeds iov 0 false = (iov.flatten.length, needNl iov.flatten) :=
        storageNeeds_eq iov []
      simp only [Call.cursor, hNeeds] at h
      by_cases hNone : iov.flatten.length = 0
      · rw [if_pos hNone] at h
        exact nomatch h
      · rw [if_neg hNone] at h
        rw [← Option.some.inj h]
        by_cases hNl : needNl iov.flatten = true
        · rw [if_pos hNl, List.length_append, List.length_singleton] at hFits
          rw [if_pos hNl, if_pos hNl, hNl, Bool.toNat_true]
          have hText := holds_appendAll (holds_allocate (iov.flatten.length + 1))
            (Nat.le_add_right _ 1) (by rw [List.length_nil]; omega)
          rw [List.nil_append, Nat.add_sub_cancel_left] at hText
          exact hText.append (List.length_singleton.le) hFits
        · rw [if_neg hNl, List.append_nil] at hFits
          rw [if_neg hNl, if_neg hNl, List.append_nil, Bool.eq_false_iff.mpr hNl, Bool.toNat_false,
            Nat.add_zero]
          have hText := holds_appendAll (holds_allocate iov.flatten.length) (Nat.le_refl _)
            (by rw [List.length_nil]; omega)
          rwa [List.nil_append, Nat.sub_self] at hText

end Holds

end Logger

/-! ### What is right -/

/-- Whether the consumer comes back to the queue. -/
def Phase.stealsAgain : Phase → Bool
  | .waiting => true
  | .stealing _ => true
  | .draining round => round ≠ .last
  | .written round => round ≠ .last
  | .finishing round => round ≠ .last
  | .purging _ _ => true
  | .done => false

/-- Whether the consumer has something of a slice. -/
def Phase.drains : Phase → Bool
  | .draining _ => true
  | .written _ => true
  | _ => false

/-- The cursor that a thread has not handed over. -/
def Producer.id? : Producer → Option Nat
  | .pushing node => some node.id
  | _ => none

namespace LoggerImpl

variable {τ : Type}

/-- Every message that entered the queue is written once, whole and with its line end, to one
volume, in the order of the queue, and no later than `stop` returns; no volume is removed when it is
closed unless it is empty; and every cursor is freed once. -/
structure Right (disk : Files CString UInt8) (s : LoggerImpl τ) : Prop where
  files : s.stream.files = replay textMode disk s.stream.journal
  removed : RemovedEmpty textMode disk s.stream.journal
  order : texts s.stream.journal <+: s.entered.map fun m => terminated m.2
  once : (s.entered.map Prod.fst).Nodup
  accepted : ∀ m ∈ s.accepted, m ∈ s.entered
  all : s.stopper = .returned → texts s.stream.journal = s.entered.map fun m => terminated m.2
  freedOnce : s.freed.Nodup
  freedAll : s.stopper = .returned →
    ∀ id < s.allocated, id ∈ s.freed ∨ ∃ tid, (s.producers tid).id? = some id

/-- The size of the volume that is rolled to can be told. -/
def SmallVolume (s : LoggerImpl τ) (now : Int) : Prop :=
  ∀ path, FileStream.generateLogName s.profile.basePath (s.timestamp now) = some path →
    (contents s.stream.files path).length < 2 ^ 31

/-- If it is time to roll then there is a volume, and it is not too large. -/
def RollsWell (s : LoggerImpl τ) (now : Int) (opens : Bool) : Prop :=
  s.consumerCheck now = true → opens = true ∧ s.SmallVolume now

/-- A message is not too long for its cursor, none enters the queue behind the last drain, and
volumes can be opened and written and are not too large. -/
def Meets (s : LoggerImpl τ) : Event τ → Prop
  | .call _ call _ => (terminated call.message).length < 2 ^ 32
  | .enter tid => ∀ node, s.producers tid = .pushing node → node.cursor.size ≠ 0 →
      s.phase.stealsAgain = true
  | .write fwrite => FileStream.Writes fwrite ∧
      ∀ node ∈ s.slice.head?, s.stream.size + node.cursor.size < s.sizeT
  | .pass now opens => s.block % 32 = 0 → s.RollsWell now opens
  | .finish now opens => s.RollsWell now opens
  | _ => True

/-! ### What is kept -/

/-- A cursor that is in the queue holds a message. -/
structure Full (node : Node) : Prop where
  holds : node.cursor.Holds (terminated node.message) 0
  nonempty : node.message ≠ []

/-- What has not been written. -/
def pending (s : LoggerImpl τ) : List Node :=
  (match s.phase with
    | .written _ => s.slice.tail
    | _ => s.slice) ++ s.queue

/-- The cursors that threads have handed over. -/
def handedOver (s : LoggerImpl τ) : List Nat := s.freed ++ (s.slice ++ s.queue).map Node.id

structure Inv (disk : Files CString UInt8) (s : LoggerImpl τ) : Prop where
  stream : s.stream.Sound disk
  isOpen : s.stopper ≠ .returned → s.stream.filename ≠ none
  gone : s.stopper = .returned → s.phase = .done
  order : texts s.stream.journal ++ s.pending.map (fun node => terminated node.message) =
    s.entered.map fun m => terminated m.2
  linked : ∀ node ∈ s.slice ++ s.queue, Full node
  pushing : ∀ tid node, s.producers tid = .pushing node →
    node.cursor.Holds (terminated node.message) 0
  pushed : ∀ tid id message wasFirst, s.producers tid = .pushed id message wasFirst →
    message ≠ [] → (id, message) ∈ s.entered
  accepted : ∀ m ∈ s.accepted, m ∈ s.entered
  slice : s.phase.drains = false → s.slice = []
  lastSteal : s.phase.stealsAgain = false → s.queue = []
  ids : Exclusive.Accounted s.allocated s.handedOver fun tid => (s.producers tid).id?
  once : (s.entered.map Prod.fst).Nodup
  entered : ∀ m ∈ s.entered, m.1 ∈ s.handedOver

/-- What is kept is right. -/
theorem Inv.right {disk : Files CString UInt8} {s : LoggerImpl τ} (h : s.Inv disk) :
    s.Right disk := by
  have hNothing (hReturned : s.stopper = .returned) : s.slice = [] ∧ s.queue = [] := by
    have hDone := h.gone hReturned
    exact ⟨h.slice (by rw [hDone]; rfl), h.lastSteal (by rw [hDone]; rfl)⟩
  refine ⟨h.stream.files, h.stream.removed, ⟨_, h.order⟩, h.once, h.accepted, ?_, ?_, ?_⟩
  · intro hReturned
    obtain ⟨hSlice, hQueue⟩ := hNothing hReturned
    have hPending : s.pending = [] := by
      rw [pending, h.gone hReturned, hSlice, hQueue]
      rfl
    rw [← h.order, hPending, List.map_nil, List.append_nil]
  · exact (List.nodup_append.mp h.ids.nodup).1
  · intro hReturned id hId
    obtain ⟨hSlice, hQueue⟩ := hNothing hReturned
    rcases (h.ids.all id).mp hId with hPlaced | hHeld
    · rw [handedOver, hSlice, hQueue] at hPlaced
      exact .inl ((List.append_nil s.freed) ▸ hPlaced)
    · exact .inr hHeld

section Steps

variable {disk : Files CString UInt8} {s s' : LoggerImpl τ}

/-- Only the stream goes on. -/
theorem Inv.withStream (h : s.Inv disk) {stream : FileStream} {rollTime purgeTime : Int}
    (hSound : stream.Sound disk) (hOpen : s.stopper ≠ .returned → stream.filename ≠ none)
    (hTexts : texts stream.journal = texts s.stream.journal) :
    { s with stream := stream, rollTime := rollTime, purgeTime := purgeTime }.Inv disk :=
  { h with
    stream := hSound
    isOpen := hOpen
    order := by
      rw [← h.order]
      exact congrArg (· ++ _) hTexts }

theorem Inv.checkRoll (h : s.Inv disk) (hHere : s.stopper ≠ .returned) {now : Int} {opens : Bool}
    (hWell : s.RollsWell now opens) (hRoll : s.checkRoll now opens = some s') :
    ∃ stream rollTime, s' = { s with stream := stream, rollTime := rollTime } ∧
      stream.Sound disk ∧ stream.filename ≠ none ∧
      texts stream.journal = texts s.stream.journal := by
  unfold LoggerImpl.checkRoll at hRoll
  by_cases hCheck : s.consumerCheck now = true
  · obtain ⟨rfl, hSmall⟩ := hWell hCheck
    rw [if_pos hCheck, consumerRoll] at hRoll
    obtain ⟨path, hPath, hRoll⟩ := Option.bind_eq_some_iff.mp hRoll
    obtain ⟨hSound, hName, hTexts⟩ := h.stream.openFile (hSmall path hPath)
    refine ⟨_, _, (Option.some.inj hRoll).symm, hSound, ?_, hTexts⟩
    rw [hName]
    exact Option.some_ne_none path
  · rw [if_neg hCheck] at hRoll
    exact ⟨s.stream, s.rollTime, (Option.some.inj hRoll).symm, h.stream, h.isOpen hHere, rfl⟩

theorem sound_purgeFiles {stream : FileStream} (h : stream.Sound disk) (victims : List CString) :
    (purgeFiles victims stream).Sound disk ∧
      (purgeFiles victims stream).filename = stream.filename ∧
      texts (purgeFiles victims stream).journal = texts stream.journal := by
  induction victims generalizing stream with
  | nil => exact ⟨h, rfl, rfl⟩
  | cons path victims ih =>
      rw [purgeFiles]
      by_cases hOpen : stream.filename = some path
      · rw [if_pos hOpen]
        exact ih h
      · rw [if_neg hOpen]
        have hGone : ({ stream with files := Function.update stream.files path none }.note
            (.purged path)).Sound disk := by
          refine h.note rfl rfl (fun _ hIs => nomatch hIs) fun path' hPath hEmpty => ?_
          have hOther : path' ≠ path := by
            rintro rfl
            exact hOpen hPath
          have hSame : Function.update stream.files path none path' = stream.files path' :=
            Function.update_of_ne hOther ..
          exact (congrArg (Option.getD · []) hSame).trans (h.size path' hPath hEmpty)
        obtain ⟨hSound, hName, hTexts⟩ := ih hGone
        refine ⟨hSound, hName, hTexts.trans ?_⟩
        exact (texts_concat stream.journal (.purged path)).trans (List.append_nil _)

/-! ### The threads that push -/

section Threads

variable [DecidableEq τ] {tid : τ}

/-- What a thread has after one of them went on. -/
theorem id?_update (producers : τ → Producer) (tid : τ) (producer : Producer) :
    (fun tid' => (Function.update producers tid producer tid').id?) =
      Function.update (fun tid' => (producers tid').id?) tid producer.id? := by
  funext tid'
  by_cases hSelf : tid' = tid
  · rw [hSelf, Function.update_self, Function.update_self]
  · rw [Function.update_of_ne hSelf, Function.update_of_ne hSelf]

/-- A thread that has no cursor before and after changes none. -/
theorem id?_update_none {producers : τ → Producer} {producer : Producer}
    (hBefore : (producers tid).id? = none) (hAfter : producer.id? = none) :
    (fun tid' => (Function.update producers tid producer tid').id?) =
      fun tid' => (producers tid').id? := by
  rw [id?_update, hAfter, ← hBefore]
  exact Function.update_eq_self tid fun tid' => (producers tid').id?

/-- What holds of a thread that goes on, and of all the others. -/
theorem forall_goes {P : τ → Producer → Prop} {producers : τ → Producer} {producer : Producer}
    (hSelf : P tid producer) (hOther : ∀ tid', P tid' (producers tid')) (tid' : τ) :
    P tid' (Function.update producers tid producer tid') :=
  Exclusive.forall_update hSelf (fun tid' _ => hOther tid') tid'

theorem Inv.call (h : s.Inv disk) {call : Call} {memory : Bool}
    (hFits : (terminated call.message).length < 2 ^ 32)
    (hNext : s.stepCall tid call memory = some s') : s'.Inv disk := by
  unfold stepCall at hNext
  split at hNext
  · rw [← Option.some.inj hNext]
    exact h
  · next cursor hOutside hCursor =>
      split at hNext
      · rw [← Option.some.inj hNext]
        exact h
      · have hNone : (s.producers tid).id? = none := by rw [hOutside]; rfl
        rw [← Option.some.inj hNext]
        exact { h with
          pushing := by
            refine forall_goes (P := fun _ producer => ∀ node, producer = .pushing node →
              node.cursor.Holds (terminated node.message) 0) ?_ h.pushing
            rintro node ⟨⟩
            exact holds_cursor hCursor hFits
          pushed := by
            refine forall_goes (P := fun _ producer => ∀ id message wasFirst,
              producer = .pushed id message wasFirst → message ≠ [] → (id, message) ∈ s.entered)
              ?_ h.pushed
            exact fun _ _ _ hIs => nomatch hIs
          ids := by
            have hIds := h.ids.handOut hNone
            rwa [goes, id?_update] }
  · exact nomatch hNext

/-- The state when a cursor has entered the queue. -/
def queued (s : LoggerImpl τ) (tid : τ) (node : Node) : LoggerImpl τ :=
  { s with
    queue := s.queue ++ [node]
    entered := s.entered ++ [(node.id, node.message)] }.goes tid
      (.pushed node.id node.message s.queue.isEmpty)

/-- The state when a cursor without a message has been released. -/
def released (s : LoggerImpl τ) (tid : τ) (node : Node) : LoggerImpl τ :=
  { s with freed := s.freed ++ [node.id] }.goes tid (.pushed node.id node.message false)

theorem stepEnter_cases (hNext : s.stepEnter tid = some s') :
    ∃ node, s.producers tid = .pushing node ∧
      (node.cursor.size ≠ 0 ∧ s' = s.queued tid node ∨
        node.cursor.size = 0 ∧ s' = s.released tid node) := by
  unfold stepEnter at hNext
  split at hNext
  · next node hPushing =>
      split at hNext
      · exact nomatch hNext
      · split at hNext
        · next hSize => exact ⟨node, hPushing, .inl ⟨hSize, (Option.some.inj hNext).symm⟩⟩
        · next hSize =>
            exact ⟨node, hPushing, .inr ⟨not_not.mp hSize, (Option.some.inj hNext).symm⟩⟩
  · exact nomatch hNext

theorem Inv.queued (h : s.Inv disk) {node : Node} (hPushing : s.producers tid = .pushing node)
    (hSize : node.cursor.size ≠ 0) (hAgain : s.phase.stealsAgain = true) :
    (s.queued tid node).Inv disk := by
  have hHolds := h.pushing tid node hPushing
  have hNonempty : node.message ≠ [] := by
    intro hEmpty
    rw [hHolds.size, hEmpty] at hSize
    exact hSize rfl
  have hHeld : (s.producers tid).id? = some node.id := by rw [hPushing]; rfl
  have hPending : (s.queued tid node).pending = s.pending ++ [node] :=
    (List.append_assoc ..).symm
  have hHanded : (s.queued tid node).handedOver = s.handedOver ++ [node.id] := by
    rw [handedOver, handedOver, List.append_assoc, LoggerImpl.queued, goes, ← List.append_assoc
      s.slice, List.map_append, List.map_singleton]
  exact {
    stream := h.stream
    isOpen := h.isOpen
    gone := h.gone
    order := by
      rw [hPending, List.map_append, ← List.append_assoc]
      have hEntered : (s.queued tid node).entered.map (fun m => terminated m.2) =
          (s.entered.map fun m => terminated m.2) ++ [terminated node.message] := List.map_append
      rw [hEntered, ← h.order]
      rfl
    linked := by
      intro node' hNode
      rw [LoggerImpl.queued, goes, ← List.append_assoc] at hNode
      rcases List.mem_append.mp hNode with hOld | hNew
      · exact h.linked node' hOld
      · rw [List.mem_singleton.mp hNew]
        exact ⟨hHolds, hNonempty⟩
    pushing := by
      refine forall_goes (P := fun _ producer => ∀ node, producer = .pushing node →
        node.cursor.Holds (terminated node.message) 0) ?_ h.pushing
      exact fun _ hIs => nomatch hIs
    pushed := by
      refine forall_goes (P := fun _ producer => ∀ id message wasFirst,
        producer = .pushed id message wasFirst → message ≠ [] →
          (id, message) ∈ s.entered ++ [(node.id, node.message)]) ?_ ?_
      · rintro id message wasFirst ⟨⟩ -
        exact List.mem_append_right _ List.mem_cons_self
      · exact fun tid' id message wasFirst hIs hMessage =>
          List.mem_append_left _ (h.pushed tid' id message wasFirst hIs hMessage)
    accepted := fun m hm => List.mem_append_left _ (h.accepted m hm)
    slice := h.slice
    lastSteal := fun hLast => absurd (hAgain.symm.trans hLast) Bool.noConfusion
    ids := by
      have hIds := h.ids.place hHeld
      rw [hHanded, LoggerImpl.queued, goes, id?_update]
      exact hIds
    once := by
      have hNew : node.id ∉ s.entered.map Prod.fst := by
        intro hMem
        obtain ⟨m, hm, hIs⟩ := List.mem_map.mp hMem
        have hPlaced := h.entered m hm
        rw [hIs] at hPlaced
        exact h.ids.apart tid node.id hHeld hPlaced
      rw [LoggerImpl.queued, goes, List.map_append, List.nodup_append]
      refine ⟨h.once, List.pairwise_singleton _ _, ?_⟩
      rintro a ha b hb rfl
      rw [List.mem_singleton.mp hb] at ha
      exact hNew ha
    entered := by
      intro m hm
      rw [hHanded]
      rcases List.mem_append.mp hm with hOld | hNew
      · exact List.mem_append_left _ (h.entered m hOld)
      · rw [List.mem_singleton.mp hNew]
        exact List.mem_append_right _ List.mem_cons_self }

theorem Inv.released (h : s.Inv disk) {node : Node} (hPushing : s.producers tid = .pushing node)
    (hSize : node.cursor.size = 0) : (s.released tid node).Inv disk := by
  have hHolds := h.pushing tid node hPushing
  have hEmpty : node.message = [] := by
    have hNone : terminated node.message = [] :=
      List.length_eq_zero_iff.mp (hHolds.size.symm.trans hSize)
    rw [terminated_eq] at hNone
    exact (List.append_eq_nil_iff.mp hNone).1
  have hHeld : (s.producers tid).id? = some node.id := by rw [hPushing]; rfl
  have hPerm : (s.handedOver ++ [node.id]).Perm (s.released tid node).handedOver := by
    rw [handedOver, handedOver, LoggerImpl.released, goes, List.append_assoc, List.append_assoc]
    exact List.perm_append_comm.append_left s.freed
  exact { h with
    pushing := by
      refine forall_goes (P := fun _ producer => ∀ node, producer = .pushing node →
        node.cursor.Holds (terminated node.message) 0) ?_ h.pushing
      exact fun _ hIs => nomatch hIs
    pushed := by
      refine forall_goes (P := fun _ producer => ∀ id message wasFirst,
        producer = .pushed id message wasFirst → message ≠ [] → (id, message) ∈ s.entered)
        ?_ h.pushed
      rintro id message wasFirst ⟨⟩ hMessage
      exact absurd hEmpty hMessage
    ids := by
      have hIds := (h.ids.place hHeld).perm hPerm
      rw [LoggerImpl.released, goes, id?_update]
      exact hIds
    entered := fun m hm => hPerm.mem_iff.mp (List.mem_append_left _ (h.entered m hm)) }

theorem Inv.enter (h : s.Inv disk)
    (hMeets : ∀ node, s.producers tid = .pushing node → node.cursor.size ≠ 0 →
      s.phase.stealsAgain = true)
    (hNext : s.stepEnter tid = some s') : s'.Inv disk := by
  obtain ⟨node, hPushing, ⟨hSize, rfl⟩ | ⟨hSize, rfl⟩⟩ := stepEnter_cases hNext
  · exact h.queued hPushing hSize (hMeets node hPushing hSize)
  · exact h.released hPushing hSize

theorem Inv.leave (h : s.Inv disk) (hNext : s.stepLeave tid = some s') : s'.Inv disk := by
  unfold stepLeave at hNext
  split at hNext
  · next id message wasFirst hPushed =>
      split at hNext
      · exact nomatch hNext
      · have hNone : (s.producers tid).id? = none := by rw [hPushed]; rfl
        rw [← Option.some.inj hNext]
        exact { h with
          pushing := by
            refine forall_goes (P := fun _ producer => ∀ node, producer = .pushing node →
              node.cursor.Holds (terminated node.message) 0) ?_ h.pushing
            exact fun _ hIs => nomatch hIs
          pushed := by
            refine forall_goes (P := fun _ producer => ∀ id message wasFirst,
              producer = .pushed id message wasFirst → message ≠ [] → (id, message) ∈ s.entered)
              ?_ h.pushed
            exact fun _ _ _ hIs => nomatch hIs
          accepted := by
            intro m hm
            dsimp only [goes] at hm
            split at hm
            · next hCounts =>
                rcases List.mem_append.mp hm with hOld | hNew
                · exact h.accepted m hOld
                · rw [List.mem_singleton.mp hNew]
                  exact h.pushed tid id message wasFirst hPushed hCounts.2
            · exact h.accepted m hm
          ids := by
            have hSame : (fun tid' => (Function.update s.producers tid .outside tid').id?) =
                fun tid' => (s.producers tid').id? := id?_update_none hNone rfl
            rw [goes, hSame]
            exact h.ids }
  · exact nomatch hNext

end Threads

/-! ### The consumer, and the thread that stops it -/

theorem Inv.stop (h : s.Inv disk) (hNext : s.stepStop = some s') : s'.Inv disk := by
  unfold stepStop at hNext
  split at hNext
  · next hBefore =>
      rw [← Option.some.inj hNext]
      exact { h with
        isOpen := fun _ => h.isOpen (by rw [hBefore]; exact Stopper.noConfusion)
        gone := fun hReturned => nomatch hReturned }
  · exact nomatch hNext

theorem Inv.stopReturns (h : s.Inv disk) (hNext : s.stepStopReturns = some s') :
    s'.Inv disk := by
  unfold stepStopReturns at hNext
  split at hNext
  · next hDone =>
      obtain ⟨hSound, -, hTexts, -⟩ := h.stream.close
      rw [← Option.some.inj hNext]
      exact { h with
        stream := hSound
        isOpen := fun hNot => absurd rfl hNot
        gone := fun _ => hDone.2
        order := by
          rw [← h.order]
          exact congrArg (· ++ _) hTexts }
  · exact nomatch hNext

/-- The consumer goes on, and has as much of the queue as before. -/
theorem Inv.withPhase (h : s.Inv disk) {phase : Phase} (hHere : s.stopper ≠ .returned)
    (hPending : { s with phase := phase }.pending = s.pending)
    (hSlice : phase.drains = false → s.slice = [])
    (hLast : phase.stealsAgain = false → s.phase.stealsAgain = false) :
    { s with phase := phase }.Inv disk :=
  { h with
    gone := fun hReturned => absurd hReturned hHere
    order := by
      rw [hPending]
      exact h.order
    slice := hSlice
    lastSteal := fun h' => h.lastSteal (hLast h') }

/-- The consumer is not at its end. -/
theorem Inv.here (h : s.Inv disk) (hPhase : s.phase ≠ .done) : s.stopper ≠ .returned :=
  fun hReturned => hPhase (h.gone hReturned)

theorem Inv.wait (h : s.Inv disk) (hNext : s.stepWait = some s') : s'.Inv disk := by
  unfold stepWait at hNext
  split at hNext
  · next hWaiting =>
      have hSlice : s.slice = [] := h.slice (by rw [hWaiting]; rfl)
      have hHere := h.here (by rw [hWaiting]; exact Phase.noConfusion)
      have hWait : { s with phase := .stealing (.loop s.stopEvent) }.Inv disk := by
        refine h.withPhase hHere ?_ (fun _ => hSlice) fun hLast => nomatch hLast
        rw [pending, pending, hWaiting]
      rw [← Option.some.inj hNext]
      exact { hWait with }
  · exact nomatch hNext

theorem drains_drainPhase (round : Round) (slice : List Node)
    (h : (drainPhase round slice).drains = false) : slice = [] := by
  unfold drainPhase at h
  split at h
  · next hEmpty => exact List.isEmpty_iff.mp hEmpty
  · exact nomatch h

theorem pending_drainPhase (s : LoggerImpl τ) {round : Round} {slice : List Node}
    (h : s.phase = drainPhase round slice) : s.pending = s.slice ++ s.queue := by
  rw [pending, h, drainPhase]
  by_cases hEmpty : slice.isEmpty = true
  · rw [if_pos hEmpty]
  · rw [if_neg hEmpty]

theorem stealsAgain_drainPhase (round : Round) (slice : List Node) :
    (drainPhase round slice).stealsAgain = (round ≠ .last : Bool) := by
  unfold drainPhase
  split <;> rfl

theorem Inv.steal (h : s.Inv disk) (hNext : s.stepSteal = some s') : s'.Inv disk := by
  unfold stepSteal at hNext
  split at hNext
  · next round hStealing =>
      have hSlice : s.slice = [] := h.slice (by rw [hStealing]; rfl)
      have hHere := h.here (by rw [hStealing]; exact Phase.noConfusion)
      have hBefore : s.pending = s.queue := by
        rw [pending, hStealing, hSlice]
        rfl
      have hPending := h.order
      rw [hBefore] at hPending
      have hLinked := h.linked
      rw [hSlice, List.nil_append] at hLinked
      have hHanded : s.handedOver = s.freed ++ (s.queue ++ []).map Node.id := by
        rw [handedOver, hSlice, List.append_nil]
        rfl
      have hIds := h.ids
      have hEntered := h.entered
      rw [hHanded] at hIds hEntered
      rw [← Option.some.inj hNext]
      exact { h with
        gone := fun hReturned => absurd hReturned hHere
        order := by
          rw [pending_drainPhase _ rfl, List.append_nil]
          exact hPending
        linked := by
          rw [List.append_nil]
          exact hLinked
        slice := drains_drainPhase round s.queue
        lastSteal := fun _ => rfl
        ids := hIds
        entered := hEntered }
  · exact nomatch hNext

theorem Inv.write (h : s.Inv disk) {fwrite : Nat → Nat} (hWrites : FileStream.Writes fwrite)
    (hRoom : ∀ node ∈ s.slice.head?, s.stream.size + node.cursor.size < s.sizeT)
    (hNext : s.stepWrite fwrite = some s') : s'.Inv disk := by
  unfold stepWrite at hNext
  split at hNext
  · next round node slice hDraining hSlice =>
      have hHere := h.here (by rw [hDraining]; exact Phase.noConfusion)
      obtain ⟨path, hOpen⟩ := Option.ne_none_iff_exists'.mp (h.isOpen hHere)
      have hFull := h.linked node (by rw [hSlice]; exact List.mem_cons_self)
      have hText := hFull.holds.text_eq
      have hSize := hRoom node (by rw [hSlice]; rfl)
      rw [hFull.holds.size] at hSize
      have hNonempty : terminated node.message ≠ [] := by
        rw [terminated_eq]
        exact List.append_ne_nil_of_left_ne_nil hFull.nonempty _
      obtain ⟨hSound, hName, hTexts⟩ := h.stream.push hOpen hWrites hSize hNonempty
      have hPending : s.pending = node :: (slice ++ s.queue) := by
        rw [pending, hDraining, hSlice]
        rfl
      rw [hOpen, hText] at hNext
      rw [← Option.some.inj hNext]
      exact { h with
        stream := hSound
        isOpen := fun _ => by
          rw [hName]
          exact Option.some_ne_none path
        gone := fun hReturned => absurd hReturned hHere
        order := by
          rw [← h.order, hPending, hTexts, List.append_assoc, pending, hSlice]
          rfl
        slice := fun hNot => nomatch hNot
        lastSteal := fun hLast => h.lastSteal (by rw [hDraining]; exact hLast) }
  · exact nomatch hNext

theorem Inv.pass (h : s.Inv disk) {now : Int} {opens : Bool}
    (hWell : s.block % 32 = 0 → s.RollsWell now opens)
    (hNext : s.stepPass now opens = some s') : s'.Inv disk := by
  unfold stepPass at hNext
  split at hNext
  · next round node slice hWritten hSlice =>
      have hHere := h.here (by rw [hWritten]; exact Phase.noConfusion)
      obtain ⟨rolled, hRoll, rfl⟩ := Option.map_eq_some_iff.mp hNext
      have hRolled : ∃ stream rollTime, rolled = { s with stream := stream, rollTime := rollTime } ∧
          stream.Sound disk ∧ stream.filename ≠ none ∧
          texts stream.journal = texts s.stream.journal := by
        by_cases hTime : s.block % 32 = 0
        · rw [if_pos hTime] at hRoll
          exact h.checkRoll hHere (hWell hTime) hRoll
        · rw [if_neg hTime] at hRoll
          exact ⟨s.stream, s.rollTime, (Option.some.inj hRoll).symm, h.stream, h.isOpen hHere, rfl⟩
      obtain ⟨stream, rollTime, rfl, hSound, hOpen, hTexts⟩ := hRolled
      have hPending : s.pending = slice ++ s.queue := by
        rw [pending, hWritten, hSlice]
        rfl
      have hHanded : s.handedOver = s.freed ++ [node.id] ++ (slice ++ s.queue).map Node.id := by
        rw [handedOver, hSlice, List.append_assoc]
        rfl
      have hLinked := h.linked
      rw [hSlice] at hLinked
      have hIds := h.ids
      have hEntered := h.entered
      rw [hHanded] at hIds hEntered
      exact { h with
        stream := hSound
        isOpen := fun _ => hOpen
        gone := fun hReturned => absurd hReturned hHere
        order := by
          rw [pending_drainPhase _ rfl, hTexts, ← h.order, hPending]
        linked := fun node' hNode => hLinked node' (List.mem_cons_of_mem _ hNode)
        slice := drains_drainPhase round slice
        lastSteal := fun hLast => by
          rw [stealsAgain_drainPhase] at hLast
          exact h.lastSteal (by rw [hWritten]; exact hLast)
        ids := hIds
        entered := hEntered }
  · exact nomatch hNext

theorem Inv.finish (h : s.Inv disk) {now : Int} {opens : Bool} (hWell : s.RollsWell now opens)
    (hNext : s.stepFinish now opens = some s') : s'.Inv disk := by
  unfold stepFinish at hNext
  split at hNext
  · next round hFinishing =>
      have hHere := h.here (by rw [hFinishing]; exact Phase.noConfusion)
      have hSlice : s.slice = [] := h.slice (by rw [hFinishing]; rfl)
      obtain ⟨rolled, hRoll, rfl⟩ := Option.map_eq_some_iff.mp hNext
      obtain ⟨stream, rollTime, rfl, hSound, hOpen, hTexts⟩ := h.checkRoll hHere hWell hRoll
      have hRolled : { s with stream := stream, rollTime := rollTime }.Inv disk :=
        h.withStream hSound (fun _ => hOpen) hTexts
      refine hRolled.withPhase hHere ?_ (fun _ => hSlice) ?_
      · cases round <;> rw [pending, pending, hFinishing]
      · cases round with
        | loop term => exact fun hLast => nomatch hLast
        | last => exact fun _ => by rw [hFinishing]; rfl
  · exact nomatch hNext

theorem Inv.purge (h : s.Inv disk) {victims : List CString}
    (hNext : s.stepPurge victims = some s') : s'.Inv disk := by
  unfold stepPurge at hNext
  split at hNext
  · next now term hPurging =>
      have hHere := h.here (by rw [hPurging]; exact Phase.noConfusion)
      have hSlice : s.slice = [] := h.slice (by rw [hPurging]; rfl)
      have hPurged : (s.consumerPurge now victims).Inv disk ∧
          ∃ stream purgeTime, s.consumerPurge now victims =
            { s with stream := stream, purgeTime := purgeTime } := by
        unfold consumerPurge
        split
        · exact ⟨h, s.stream, s.purgeTime, rfl⟩
        · obtain ⟨hSound, hName, hTexts⟩ := sound_purgeFiles h.stream victims
          exact ⟨h.withStream hSound (fun hNot => hName ▸ h.isOpen hNot) hTexts, _, _, rfl⟩
      obtain ⟨hPurged, stream, purgeTime, hIs⟩ := hPurged
      rw [hIs] at hPurged hNext
      rw [← Option.some.inj hNext]
      refine hPurged.withPhase hHere ?_ (fun _ => hSlice) ?_
      · rw [pending, pending, hPurging]
        cases term <;> rfl
      · cases term <;> exact fun hLast => nomatch hLast
  · exact nomatch hNext

/-- Every step keeps it, of whichever thread. -/
theorem Inv.next [DecidableEq τ] (h : s.Inv disk) {e : Event τ} (hMeets : s.Meets e)
    (hNext : s.next e = some s') : s'.Inv disk := by
  cases e with
  | call tid call memory => exact h.call hMeets hNext
  | enter tid => exact h.enter hMeets hNext
  | leave tid => exact h.leave hNext
  | stop => exact h.stop hNext
  | stopReturns => exact h.stopReturns hNext
  | wait => exact h.wait hNext
  | steal => exact h.steal hNext
  | write fwrite => exact h.write hMeets.1 hMeets.2 hNext
  | pass now opens => exact h.pass hMeets hNext
  | finish now opens => exact h.finish hMeets hNext
  | purge victims => exact h.purge hNext

/-- Where the first volume is opened, and nothing has been pushed. -/
theorem inv_start {profile : Profile} {resolved : CString} {toconsole : Bool} {sizeT : Nat}
    {now : Int} (hSmall : ∀ path, FileStream.generateLogName resolved now = some path →
      (contents disk path).length < 2 ^ 31)
    (hStart : start profile resolved toconsole sizeT disk now = some s) : s.Inv disk := by
  obtain ⟨path, hPath, hStart⟩ := Option.bind_eq_some_iff.mp hStart
  have hNothing : FileStream.Sound disk ⟨disk, none, 0, 0, []⟩ :=
    ⟨rfl, trivial, fun _ hName => nomatch hName⟩
  obtain ⟨hSound, hName, hTexts⟩ := hNothing.openFile (hSmall path hPath)
  rw [← Option.some.inj hStart]
  exact {
    stream := hSound
    isOpen := fun _ => by
      rw [hName]
      exact Option.some_ne_none path
    gone := fun hReturned => nomatch hReturned
    order := by
      rw [hTexts]
      rfl
    linked := fun _ hNode => nomatch hNode
    pushing := fun _ _ hIs => nomatch hIs
    pushed := fun _ _ _ _ hIs => nomatch hIs
    accepted := fun _ hm => nomatch hm
    slice := fun _ => rfl
    lastSteal := fun _ => rfl
    ids := Exclusive.Accounted.empty
    once := List.Pairwise.nil
    entered := fun _ hm => nomatch hm }

end Steps

/-- A message, and the end of the logger. -/
def fewEvents : List (Event Unit) :=
  [.call () (.push (CString.ascii "few")) true, .enter (), .leave (), .stop, .wait, .steal,
    .write (fun n => n), .pass 1700000001 true, .finish 1700000001 true, .purge [], .steal,
    .finish 1700000001 true, .stopReturns]

/-- The volumes can be opened and written. -/
def Event.Works : Event τ → Prop
  | .write fwrite => FileStream.Writes fwrite
  | .pass _ opens => opens = true
  | .finish _ opens => opens = true
  | _ => True

/-- A message that comes to the queue while `stop` waits for the end of the consumer. -/
def lateEvents : List (Event Unit) :=
  [.stop, .wait, .steal, .finish 1700000001 true, .purge [], .steal, .finish 1700000001 true,
    .call () (.push (CString.ascii "late")) true, .enter (), .leave (), .stopReturns]

end LoggerImpl
end OncRpc.Service
