import OncRpc.Rpcgen.EmitStruct
import Mathlib.Tactic.Linarith

/-! A run of a routine that `emit_struct` has printed, and the comparison of the inline code with
the plain one. -/
namespace OncRpc.Rpcgen

/-- What a run does: it calls a filter, it asks for space in the buffer and gets it or not, or it
moves words by a macro, in a loop up to a bound or once. -/
inductive Event where
  | filter (s : IfStat)
  | inline (arg : List (ExprToken SizeAtom)) (got : Bool)
  | ixdr (flag : InlineFlag) (macroName member : String) (bound : Option String)
  deriving DecidableEq, Repr

/-- The state of a run. For each open `if` it is known whether one of its branches has been
taken, and whether the current one is. -/
structure Exec where
  frames : List (Bool × Bool)
  null : Bool
  calls : Nat
  trace : List Event

def Exec.start : Exec := ⟨[], true, 0, []⟩

/-- The lines that are passed now are executed. -/
def Exec.active (x : Exec) : Bool := x.frames.all Prod.snd

def Exec.emit (x : Exec) (e : Event) : Exec :=
  if x.active then { x with trace := x.trace ++ [e] } else x

def Cond.holds (op : XdrOp) (null : Bool) : Cond → Bool
  | .encode => decide (op = .encode)
  | .decode => decide (op = .decode)
  | .bufNull => null

/-- Pass one line. Whether `XDR_INLINE` yields a buffer is told by `answers`. -/
def CoutLine.exec (op : XdrOp) (answers : Nat → Bool) (x : Exec) : CoutLine → Option Exec
  | .ifstat s => some (x.emit (.filter s))
  | .bufDecl => some x
  | .xdrInline arg =>
      if x.active then
        let got := answers x.calls
        some { x with null := !got, calls := x.calls + 1, trace := x.trace ++ [.inline arg got] }
      else some x
  | .openIf c =>
      let b := c.holds op x.null
      some { x with frames := (b, b) :: x.frames }
  | .elseIf c =>
      match x.frames with
      | [] => none
      | (taken, _) :: frames =>
          let b := !taken && c.holds op x.null
          some { x with frames := (taken || b, b) :: frames }
  | .elseRest =>
      match x.frames with
      | [] => none
      | (taken, _) :: frames => some { x with frames := (true, !taken) :: frames }
  | .endIf =>
      match x.frames with
      | [] => none
      | _ :: frames => some { x with frames := frames }
  | .single flag ixdr member => some (x.emit (.ixdr flag ixdr member none))
  | .loop flag ixdr _ member bound => some (x.emit (.ixdr flag ixdr member (some bound)))
  | .stuck => none

/-- Pass some lines. -/
def execLines (op : XdrOp) (answers : Nat → Bool) (x : Exec) (lines : List CoutLine) :
    Option Exec :=
  lines.foldlM (CoutLine.exec op answers) x

/-- What a routine does. -/
def runLines (op : XdrOp) (answers : Nat → Bool) (lines : List CoutLine) : Option (List Event) :=
  (execLines op answers .start lines).bind fun x => if x.frames = [] then some x.trace else none

/-- The macros of `xdr.h`. Each goes on by one word, by itself or through another one. -/
def ixdrMacros : List String :=
  ["IXDR_GET_INT32", "IXDR_PUT_INT32", "IXDR_GET_U_INT32", "IXDR_PUT_U_INT32", "IXDR_GET_LONG",
   "IXDR_PUT_LONG", "IXDR_GET_BOOL", "IXDR_GET_ENUM", "IXDR_GET_U_LONG", "IXDR_GET_SHORT",
   "IXDR_GET_U_SHORT", "IXDR_PUT_BOOL", "IXDR_PUT_ENUM", "IXDR_PUT_U_LONG", "IXDR_PUT_SHORT",
   "IXDR_PUT_U_SHORT"]

section Right

variable (defined : List Definition) (stale : String) (bounds : String → Nat)

def Event.isIxdr : Event → Bool
  | .ixdr .. => true
  | _ => false

def Event.isInline : Event → Bool
  | .inline .. => true
  | _ => false

/-- How many words the macros of an event move. -/
def Event.words : Event → Nat
  | .ixdr _ macroName _ bound => if macroName ∈ ixdrMacros then bound.elim 1 bounds else 0
  | _ => 0

/-- The value of a part of a size. -/
def SizeAtom.value : SizeAtom → Int
  | .num n => n
  | .amax text => bounds text
  | .bytesPerXdrUnit => OncRpc.bytesPerXdrUnit

/-- The member is processed, by its filter or by the macros for it that fit the operation. -/
def Processes (op : XdrOp) (dec : Declaration) : Event → Prop
  | .filter s => printStat defined stale dec = some s
  | .inline .. => False
  | .ixdr flag macroName member bound =>
      (op = .encode ∧ flag = .put ∨ op = .decode ∧ flag = .get) ∧
        macroName = emitSingleInLine dec flag ∧ member = dec.name ∧
        bound = if dec.rel = .vector then some dec.arrayMax else none

/-- Each buffer is as large as the words that are moved in it. -/
def Sized (trace : List Event) : Prop :=
  ∀ pre arg rest, trace = pre ++ .inline arg true :: rest →
    evalExpr (SizeAtom.value bounds) arg =
      some ↑(OncRpc.bytesPerXdrUnit * ((rest.takeWhile Event.isIxdr).map (Event.words bounds)).sum)

/-- What is asked of a run: every member is processed once and in the order of declaration,
and the buffers are as large as they should be. -/
def RunRight (op : XdrOp) (decls : List Declaration) : Option (List Event) → Prop
  | none => False
  | some trace =>
      List.Forall₂ (Processes defined stale op) decls (trace.filter fun e => !e.isInline) ∧
        Sized bounds trace

/-! ### When it holds -/

/-- The members of a run are inlinable. The runs of a structure lie between the others. -/
def inlineRuns (decls : List Declaration) : List (List Declaration) :=
  decls.splitOnP fun dec => (inlinable dec).isNone

/-- The bounds of the arrays in a run. -/
def runBounds (run : List Declaration) : List String :=
  (run.filter fun dec => decide (dec.rel = .vector)).map Declaration.arrayMax

/-- The bounds are printed into `ptemp`, each but the first behind ` + `. -/
def BoundsFit (texts : List String) : Prop :=
  (∀ text ∈ texts.head?, text.length < 256) ∧ ∀ text ∈ texts.tail, text.length + 3 < 256

/-- Every member has a name that `print_stat` finds room for, and a run of more than one array
without scalars has no elements but in the last one. -/
def InlineMeets (decls : List Declaration) : Prop :=
  (∀ dec ∈ decls, (statObjname defined dec).isSome) ∧
    ∀ run ∈ inlineRuns decls, BoundsFit (runBounds run) ∧
      ((∃ dec ∈ run, dec.rel = .alias) ∨
        ((runBounds run).dropLast.map bounds).sum = 0)

end Right

/-! ### Passing lines -/

section Lines

variable {op : XdrOp} {answers : Nat → Bool} {x : Exec}

theorem execLines_append (lines lines' : List CoutLine) :
    execLines op answers x (lines ++ lines') =
      (execLines op answers x lines).bind fun x => execLines op answers x lines' :=
  List.foldlM_append

theorem execLines_cons (l : CoutLine) (lines : List CoutLine) :
    execLines op answers x (l :: lines) =
      (l.exec op answers x).bind fun x => execLines op answers x lines := rfl

@[simp] theorem execLines_nil : execLines op answers x [] = some x := rfl

/-- A routine is not run where rpcgen did not get to its end. -/
theorem execLines_stuck {lines : List CoutLine} (h : .stuck ∈ lines) :
    execLines op answers x lines = none := by
  induction lines generalizing x with
  | nil => cases h
  | cons l lines ih =>
      rw [execLines_cons]
      rcases List.mem_cons.mp h with rfl | hMem
      · rfl
      · cases l.exec op answers x with
        | none => rfl
        | some x => exact ih hMem

/-- The line does one thing, when it is executed. -/
def CoutLine.Does (op : XdrOp) (answers : Nat → Bool) (l : CoutLine) (e : Event) : Prop :=
  ∀ x, l.exec op answers x = some (x.emit e)

theorem execLines_does {lines : List CoutLine} {es : List Event}
    (h : List.Forall₂ (CoutLine.Does op answers) lines es) :
    execLines op answers x lines =
      some (if x.active then { x with trace := x.trace ++ es } else x) := by
  induction h generalizing x with
  | nil => simp
  | @cons l e lines es hLine hLines ih =>
      rw [execLines_cons, hLine x, Option.bind_some, ih]
      by_cases hActive : x.active
      · have hStays : Exec.active { x with trace := x.trace ++ [e] } := hActive
        simp [Exec.emit, hActive, hStays]
      · simp [Exec.emit, hActive]

end Lines

/-! ### A run of inlinable members -/

theorem inlinable_spec {dec : Declaration} {ptr : BasType} (h : inlinable dec = some ptr) :
    ptr.length = 1 ∧ (dec.rel = .alias ∨ dec.rel = .vector) ∧
      ∀ flag, emitSingleInLine dec flag ∈ ixdrMacros := by
  unfold inlinable at h
  split at h
  case isFalse => cases h
  case isTrue hTest =>
    have hMem : ptr ∈ cInitialize := List.mem_of_find?_eq_some h
    have hName : ptr.name = dec.type := by simpa using List.find?_some h
    have hMacros : ∀ ptr ∈ cInitialize, ptr.length = 1 ∧
        ∀ flag, emitSingleInLine ⟨none, ptr.name, "", .alias, ""⟩ flag ∈ ixdrMacros := by
      intro ptr hPtr
      simp only [cInitialize, List.mem_cons, List.not_mem_nil, or_false] at hPtr
      rcases hPtr with rfl | rfl | rfl | rfl | rfl | rfl | rfl <;>
        exact ⟨rfl, fun flag => by cases flag <;> decide⟩
    obtain ⟨hLength, hMacro⟩ := hMacros ptr hMem
    refine ⟨hLength, hTest.2, fun flag => ?_⟩
    have hSame := hMacro flag
    rw [hName] at hSame
    exact hSame

section Members

variable (defined : List Definition) (stale : String)

/-- What `print_stat` prints for a member that it finds room for. -/
def statEvent (dec : Declaration) : Event := .filter ((printStat defined stale dec).getD ⟨"", []⟩)

/-- What `emit_inline` prints for a member. -/
def ixdrEvent (flag : InlineFlag) (dec : Declaration) : Event :=
  .ixdr flag (emitSingleInLine dec flag) dec.name
    (if dec.rel = .vector then some dec.arrayMax else none)

variable {defined stale} {op : XdrOp} {answers : Nat → Bool}

theorem isSome_printStat {dec : Declaration} :
    (printStat defined stale dec).isSome = (statObjname defined dec).isSome :=
  Option.isSome_map

theorem does_statLine {dec : Declaration} (h : (statObjname defined dec).isSome) :
    (statLine defined stale dec).Does op answers (statEvent defined stale dec) := by
  rw [← @isSome_printStat _ stale] at h
  obtain ⟨s, hs⟩ := Option.isSome_iff_exists.mp h
  intro x
  simp [statLine, statEvent, hs, CoutLine.exec]

theorem does_emitInline {flag : InlineFlag} {dec : Declaration}
    (h : dec.rel = .alias ∨ dec.rel = .vector) :
    (emitInline flag dec).Does op answers (ixdrEvent flag dec) := by
  intro x
  rcases h with hRel | hRel <;> simp [emitInline, ixdrEvent, hRel, CoutLine.exec]

theorem execLines_stats {decls : List Declaration} {x : Exec}
    (h : ∀ dec ∈ decls, (statObjname defined dec).isSome) :
    execLines op answers x (decls.map (statLine defined stale)) =
      some (if x.active then
        { x with trace := x.trace ++ decls.map (statEvent defined stale) } else x) := by
  apply execLines_does
  rw [List.forall₂_map_left_iff, List.forall₂_map_right_iff, List.forall₂_same]
  exact fun dec hMem => does_statLine (h dec hMem)

theorem execLines_inlines {flag : InlineFlag} {decls : List Declaration} {x : Exec}
    (h : ∀ dec ∈ decls, dec.rel = .alias ∨ dec.rel = .vector) :
    execLines op answers x (decls.map (emitInline flag)) =
      some (if x.active then { x with trace := x.trace ++ decls.map (ixdrEvent flag) } else x) := by
  apply execLines_does
  rw [List.forall₂_map_left_iff, List.forall₂_map_right_iff, List.forall₂_same]
  exact fun dec hMem => does_emitInline (h dec hMem)

end Members

/-- The scalars of a run are counted. -/
def runSize (run : List Declaration) : Nat := run.countP fun dec => decide (dec.rel = .alias)

/-- The bounds of a run are summed up as text. -/
def runSizestr (run : List Declaration) : Option (List (ExprToken SizeAtom)) :=
  if runBounds run = [] then none else some (sumOf ((runBounds run).map .amax))

/-- The locals of `emit_struct` tell about the run that lies before `dl`. -/
structure RunState.Tracks (st : RunState) (run dl : List Declaration) : Prop where
  count : st.i = run.length
  size : st.size = runSize run
  sizestr : st.sizestr = runSizestr run
  cur : run ≠ [] → st.cur = run ++ dl

/-- The run is printed without inline code. -/
def RunPlain (doinline : Int) (run : List Declaration) : Prop :=
  runBounds run = [] ∧ (runSize run : Int) < doinline

section Flush

variable {defined : List Definition} {stale : String} {doinline : Int} {op : XdrOp}
  {answers : Nat → Bool} {flag : InlineFlag} {st : RunState} {run dl : List Declaration} {x : Exec}

theorem runSizestr_eq_none : runSizestr run = none ↔ runBounds run = [] := by
  unfold runSizestr
  split <;> simp_all

theorem flushRun_eq (h : st.Tracks run dl) (hRun : run ≠ []) :
    flushRun defined stale doinline flag st dl =
      if runSizestr run = none ∧ (runSize run : Int) < doinline then
        run.map (statLine defined stale)
      else
        [.xdrInline (inlineArg (runSize run) (runSizestr run)), .openIf .bufNull] ++
          run.map (statLine defined stale) ++ [.elseRest] ++ run.map (emitInline flag) ++
          [.endIf] := by
  have hUntil : membersUntil st.cur dl = run := by
    rw [membersUntil, h.cur hRun, List.length_append, Nat.add_sub_cancel_right, List.take_left']
    rfl
  rw [flushRun, h.size, h.sizestr, hUntil]

/-- Where the branch is not taken, the lines of a run do nothing. -/
theorem execLines_flushRun_idle (h : st.Tracks run dl) (hRun : run ≠ [])
    (hNames : ∀ dec ∈ run, (statObjname defined dec).isSome)
    (hRel : ∀ dec ∈ run, dec.rel = .alias ∨ dec.rel = .vector) (hIdle : x.active = false) :
    execLines op answers x (flushRun defined stale doinline flag st dl) = some x := by
  have hInner : ∀ b : Bool × Bool,
      Exec.active { x with frames := b :: x.frames } = false := by
    intro b
    have hOuter : x.frames.all Prod.snd = false := hIdle
    simp [Exec.active, hOuter]
  rw [flushRun_eq h hRun]
  split
  · rw [execLines_stats hNames, hIdle]
    rfl
  · simp only [List.cons_append, List.nil_append, execLines_cons, CoutLine.exec, hIdle,
      Bool.false_eq_true, if_false, Option.bind_some, execLines_append]
    rw [execLines_stats hNames, hInner]
    simp only [Bool.false_eq_true, if_false, Option.bind_some]
    rw [execLines_nil, Option.bind_some, execLines_inlines hRel, hInner]
    rfl

/-- Where it is taken, a run without inline code calls the filters. -/
theorem execLines_flushRun_plain (h : st.Tracks run dl) (hRun : run ≠ [])
    (hNames : ∀ dec ∈ run, (statObjname defined dec).isSome) (hPlain : RunPlain doinline run)
    (hActive : x.active = true) :
    execLines op answers x (flushRun defined stale doinline flag st dl) =
      some { x with trace := x.trace ++ run.map (statEvent defined stale) } := by
  rw [flushRun_eq h hRun, if_pos ⟨runSizestr_eq_none.mpr hPlain.1, hPlain.2⟩,
    execLines_stats hNames, hActive]
  rfl

/-- A run with inline code asks for a buffer first. -/
theorem execLines_flushRun_inline (h : st.Tracks run dl) (hRun : run ≠ [])
    (hNames : ∀ dec ∈ run, (statObjname defined dec).isSome)
    (hRel : ∀ dec ∈ run, dec.rel = .alias ∨ dec.rel = .vector)
    (hPlain : ¬ RunPlain doinline run) (hActive : x.active = true) :
    execLines op answers x (flushRun defined stale doinline flag st dl) =
      some { x with
        null := !answers x.calls
        calls := x.calls + 1
        trace := x.trace ++ .inline (inlineArg (runSize run) (runSizestr run)) (answers x.calls) ::
          if answers x.calls then run.map (ixdrEvent flag)
          else run.map (statEvent defined stale) } := by
  have hOuter : x.frames.all Prod.snd = true := hActive
  rw [flushRun_eq h hRun, if_neg fun hBoth => hPlain ⟨runSizestr_eq_none.mp hBoth.1, hBoth.2⟩]
  simp only [List.cons_append, List.nil_append, execLines_cons, CoutLine.exec, hActive, if_true,
    Option.bind_some, execLines_append, Cond.holds]
  rw [execLines_stats hNames]
  cases answers x.calls with
  | true =>
      simp only [Exec.active, List.all_cons, Bool.not_true, Bool.false_and, Bool.false_eq_true,
        if_false, Option.bind_some]
      rw [execLines_nil, Option.bind_some, execLines_inlines hRel]
      simp [Exec.active, hOuter]
  | false =>
      simp only [Exec.active, List.all_cons, hOuter, Bool.not_false, Bool.true_and, if_true,
        Option.bind_some]
      rw [execLines_nil, Option.bind_some, execLines_inlines hRel]
      simp [Exec.active]

end Flush

/-! ### The runs of a structure -/

section Runs

variable {run dl : List Declaration} {dec : Declaration}

theorem runBounds_append (run run' : List Declaration) :
    runBounds (run ++ run') = runBounds run ++ runBounds run' := by
  simp [runBounds]

theorem runBounds_alias (h : dec.rel = .alias) : runBounds [dec] = [] := by simp [runBounds, h]

theorem runBounds_vector (h : dec.rel = .vector) : runBounds [dec] = [dec.arrayMax] := by
  simp [runBounds, h]

theorem boundsFit_nil : BoundsFit (runBounds []) := by simp [BoundsFit, runBounds]

theorem BoundsFit.of_append {texts texts' : List String} (h : BoundsFit (texts ++ texts')) :
    BoundsFit texts := by
  cases texts with
  | nil => simp [BoundsFit]
  | cons text texts =>
      refine ⟨h.1, fun t hMem => h.2 t ?_⟩
      exact List.mem_append_left _ hMem

theorem boundsFit_concat {texts : List String} (h : BoundsFit texts) (text : String) :
    BoundsFit (texts ++ [text]) ↔ (if texts = [] then 0 else 3) + text.length + 1 ≤ 256 := by
  cases texts with
  | nil =>
      simp only [BoundsFit, List.nil_append, List.head?_cons, List.tail_cons, Option.mem_def,
        Option.some.injEq, forall_eq', List.not_mem_nil, false_implies, implies_true, and_true,
        if_true]
      omega
  | cons first texts =>
      have hIff : BoundsFit (first :: texts ++ [text]) ↔ text.length + 3 < 256 := by
        constructor
        · intro hAll
          exact hAll.2 text (by simp)
        · intro hLast
          refine ⟨h.1, fun t hMem => ?_⟩
          rcases List.mem_append.mp hMem with hFirst | hText
          · exact h.2 t hFirst
          · rwa [List.mem_singleton.mp hText]
      rw [hIff, if_neg (by simp)]
      omega

/-- Inlinable members go to the first run of what follows them. -/
theorem inlineRuns_append (h : ∀ dec ∈ run, (inlinable dec).isSome) :
    inlineRuns (run ++ dl) = (inlineRuns dl).modifyHead (run ++ ·) := by
  induction run with
  | nil =>
      show inlineRuns dl = (inlineRuns dl).modifyHead id
      rw [List.modifyHead_id]
      rfl
  | cons dec run ih =>
      have hFirst : (inlinable dec).isNone = false := by
        rw [← Option.not_isSome, h dec List.mem_cons_self]
        rfl
      have hRest := ih fun d hMem => h d (List.mem_cons_of_mem dec hMem)
      rw [inlineRuns, List.cons_append, List.splitOnP_cons_eq_if_modifyHead, hFirst]
      show (inlineRuns (run ++ dl)).modifyHead (dec :: ·) = _
      rw [hRest, List.modifyHead_modifyHead]
      rfl

/-- A member that is not inlinable ends a run. -/
theorem inlineRuns_append_cons (h : ∀ dec ∈ run, (inlinable dec).isSome)
    (hNot : inlinable dec = none) : inlineRuns (run ++ dec :: dl) = run :: inlineRuns dl := by
  apply List.splitOnP_append_cons_of_forall_mem
  · intro d hMem
    rw [← Option.not_isSome, h d hMem]
    rfl
  · rw [hNot]
    rfl

theorem inlineRuns_of_forall (h : ∀ dec ∈ run, (inlinable dec).isSome) :
    inlineRuns run = [run] := by
  apply List.splitOnP_eq_singleton
  intro d hMem
  rw [← Option.not_isSome, h d hMem]
  rfl

/-- The run that is read is the beginning of a run. -/
theorem exists_mem_inlineRuns (h : ∀ dec ∈ run, (inlinable dec).isSome) :
    ∃ more, run ++ more ∈ inlineRuns (run ++ dl) := by
  obtain ⟨first, rest, hRuns⟩ := List.exists_cons_of_ne_nil
    (List.splitOnP_ne_nil (fun dec => (inlinable dec).isNone) dl)
  refine ⟨first, ?_⟩
  rw [inlineRuns_append h, inlineRuns, hRuns]
  exact List.mem_cons_self

theorem RunState.tracks_empty {cur : List Declaration} : RunState.Tracks ⟨0, 0, none, cur⟩ [] dl :=
  ⟨rfl, rfl, rfl, fun h => absurd rfl h⟩

theorem RunState.Tracks.cur_concat {st : RunState} (h : st.Tracks run (dec :: dl)) :
    (if st.i = 0 then dec :: dl else st.cur) = run ++ [dec] ++ dl := by
  rw [h.count]
  cases run with
  | nil => rfl
  | cons d run =>
      rw [if_neg (by simp), h.cur (by simp)]
      simp

/-- A scalar is counted. -/
theorem RunState.Tracks.concat_alias {st : RunState} (h : st.Tracks run (dec :: dl))
    (hRel : dec.rel = .alias) {length : Int} (hLength : length = 1) :
    RunState.Tracks { st with
      cur := if st.i = 0 then dec :: dl else st.cur
      i := st.i + 1
      size := st.size + length } (run ++ [dec]) dl where
  count := by simp [h.count]
  size := by
    show st.size + length = _
    rw [h.size, hLength, runSize, runSize, List.countP_append]
    simp [hRel]
  sizestr := by
    show st.sizestr = _
    rw [h.sizestr, runSizestr, runSizestr, runBounds_append, runBounds_alias hRel,
      List.append_nil]
  cur := fun _ => h.cur_concat

/-- The bound of an array is added to the text. -/
theorem RunState.Tracks.concat_vector {st : RunState} (h : st.Tracks run (dec :: dl))
    (hRel : dec.rel = .vector) {length : Int} (hLength : length = 1) :
    RunState.Tracks { st with
      cur := if st.i = 0 then dec :: dl else st.cur
      i := st.i + 1
      sizestr := some (st.sizestr.getD [] ++ ptempText st.sizestr dec length) }
      (run ++ [dec]) dl where
  count := by simp [h.count]
  size := by
    show st.size = _
    rw [h.size, runSize, runSize, List.countP_append]
    simp [hRel]
  sizestr := by
    show some (st.sizestr.getD [] ++ ptempText st.sizestr dec length) = _
    have hSome : runBounds run ++ [dec.arrayMax] ≠ [] := by simp
    rw [h.sizestr, hLength, ptempText, runSizestr, runSizestr, runBounds_append,
      runBounds_vector hRel, if_neg hSome]
    by_cases hNone : runBounds run = []
    · simp [hNone, sumOf]
    · have hMap : (runBounds run).map SizeAtom.amax ≠ [] := by simpa
      rw [if_neg hNone, List.map_append, List.map_cons, List.map_nil, sumOf_concat hMap]
      simp
  cur := fun _ => h.cur_concat

theorem RunState.Tracks.ptempSize {st : RunState} (h : st.Tracks run dl)
    {length : Int} (hLength : length = 1) :
    Rpcgen.ptempSize st.sizestr dec length =
      (if runBounds run = [] then 0 else 3) + dec.arrayMax.length + 1 := by
  rw [Rpcgen.ptempSize, h.sizestr, hLength]
  simp [runSizestr_eq_none]

end Runs

/-! ### A branch -/

/-- The members of a structure, one by one and in runs with inline code. -/
inductive Piece where
  | one (dec : Declaration)
  | inline (run : List Declaration) (got : Bool)

def Piece.decls : Piece → List Declaration
  | .one dec => [dec]
  | .inline run _ => run

section Branch

variable (defined : List Definition) (stale : String) (doinline : Int) (flag : InlineFlag)

/-- What a run of the routine does for a piece. -/
def Piece.events : Piece → List Event
  | .one dec => [statEvent defined stale dec]
  | .inline run got =>
      .inline (inlineArg (runSize run) (runSizestr run)) got ::
        if got then run.map (ixdrEvent flag) else run.map (statEvent defined stale)

/-- The run is printed with inline code. -/
def Inlined (run : List Declaration) : Prop := run ≠ [] ∧ ¬ RunPlain doinline run

/-- The pieces are the members, and their runs are the inlined ones of the structure. -/
structure Divides (answers : Nat → Bool) (decls : List Declaration) (pieces : List Piece) :
    Prop where
  members : pieces.flatMap Piece.decls = decls
  inlined : ∀ run got, .inline run got ∈ pieces → run ∈ inlineRuns decls ∧ Inlined doinline run
  complete : (∀ n, answers n = true) →
    ∀ run ∈ inlineRuns decls, Inlined doinline run → .inline run true ∈ pieces

variable {defined stale doinline flag} {op : XdrOp} {answers : Nat → Bool} {st : RunState}
  {run dl : List Declaration} {dec : Declaration} {x : Exec}

/-- A member that may be inlined is added to the run, if its bound fits. -/
theorem emitBranch_inlinable (h : st.Tracks run (dec :: dl)) {ptr : BasType}
    (hInline : inlinable dec = some ptr) (hFit : BoundsFit (runBounds run)) :
    BoundsFit (runBounds (run ++ [dec])) ∧
        (∃ st', st'.Tracks (run ++ [dec]) dl ∧
          emitBranch defined stale doinline flag (dec :: dl) st =
            emitBranch defined stale doinline flag dl st') ∨
      ¬ BoundsFit (runBounds (run ++ [dec])) ∧
        emitBranch defined stale doinline flag (dec :: dl) st = [.stuck] := by
  obtain ⟨hLength, hRel, -⟩ := inlinable_spec hInline
  simp only [emitBranch, hInline]
  rcases hRel with hAlias | hVector
  · rw [if_pos hAlias, runBounds_append, runBounds_alias hAlias, List.append_nil]
    exact Or.inl ⟨hFit, _, h.concat_alias hAlias hLength, rfl⟩
  · have hNotAlias : dec.rel ≠ .alias := by simp [hVector]
    rw [if_neg hNotAlias, h.ptempSize hLength, runBounds_append, runBounds_vector hVector,
      boundsFit_concat hFit]
    by_cases hSize : 256 < (if runBounds run = [] then 0 else 3) + dec.arrayMax.length + 1
    · rw [if_pos hSize]
      exact Or.inr ⟨Nat.not_le.mpr hSize, rfl⟩
    · rw [if_neg hSize]
      exact Or.inl ⟨Nat.not_lt.mp hSize, _, h.concat_vector hVector hLength, rfl⟩

theorem emitBranch_other (hInline : inlinable dec = none) :
    emitBranch defined stale doinline flag (dec :: dl) st =
      (if 0 < st.i then flushRun defined stale doinline flag st (dec :: dl) else []) ++
        statLine defined stale dec ::
          emitBranch defined stale doinline flag dl ⟨0, 0, none, st.cur⟩ := by
  simp only [emitBranch, hInline]

theorem forall_concat_inlinable {ptr : BasType} (hRun : ∀ d ∈ run, (inlinable d).isSome)
    (hInline : inlinable dec = some ptr) : ∀ d ∈ run ++ [dec], (inlinable d).isSome := by
  intro d hMem
  rcases List.mem_append.mp hMem with hFirst | hLast
  · exact hRun d hFirst
  · rw [List.mem_singleton.mp hLast, hInline]
    rfl

/-- Where the bounds of a run do not fit, rpcgen does not get to the end. -/
theorem stuck_mem_emitBranch (h : st.Tracks run dl) (hRun : ∀ d ∈ run, (inlinable d).isSome)
    (hFit : BoundsFit (runBounds run))
    (hNot : ∃ r ∈ inlineRuns (run ++ dl), ¬ BoundsFit (runBounds r)) :
    .stuck ∈ emitBranch defined stale doinline flag dl st := by
  induction dl generalizing run st with
  | nil =>
      obtain ⟨r, hMem, hWide⟩ := hNot
      rw [List.append_nil, inlineRuns_of_forall hRun, List.mem_singleton] at hMem
      exact absurd (hMem ▸ hFit) hWide
  | cons dec dl ih =>
      cases hInline : inlinable dec with
      | none =>
          obtain ⟨r, hMem, hWide⟩ := hNot
          rw [inlineRuns_append_cons hRun hInline, List.mem_cons] at hMem
          rcases hMem with rfl | hMem
          · exact absurd hFit hWide
          · have hLater := ih (@RunState.tracks_empty _ st.cur) (by simp) boundsFit_nil
              ⟨r, hMem, hWide⟩
            rw [emitBranch_other hInline]
            exact List.mem_append_right _ (List.mem_cons_of_mem _ hLater)
      | some ptr =>
          rcases @emitBranch_inlinable defined stale doinline flag _ _ _ _ h _ hInline hFit with
            ⟨hFit', st', hTracks, hEq⟩ | ⟨-, hEq⟩
          · rw [hEq]
            apply ih hTracks (forall_concat_inlinable hRun hInline) hFit'
            rwa [List.append_assoc]
          · rw [hEq]
            exact List.mem_singleton.mpr rfl

theorem rel_of_inlinable (h : ∀ d ∈ run, (inlinable d).isSome) :
    ∀ d ∈ run, d.rel = .alias ∨ d.rel = .vector := by
  intro d hMem
  obtain ⟨ptr, hPtr⟩ := Option.isSome_iff_exists.mp (h d hMem)
  exact (inlinable_spec hPtr).2.1

/-- The end of a run yields its piece, or its members one by one. -/
theorem execLines_flush (h : st.Tracks run dl) (hRun : ∀ d ∈ run, (inlinable d).isSome)
    (hNames : ∀ d ∈ run, (statObjname defined d).isSome) (hActive : x.active = true) :
    ∃ pieces x',
      execLines op answers x
          (if 0 < st.i then flushRun defined stale doinline flag st dl else []) = some x' ∧
        x'.frames = x.frames ∧
        x'.trace = x.trace ++ pieces.flatMap (Piece.events defined stale flag) ∧
        Divides doinline answers run pieces := by
  rw [h.count]
  by_cases hEmpty : run = []
  · subst hEmpty
    refine ⟨[], x, rfl, rfl, by simp, rfl, by simp, ?_⟩
    intro _ r hMem hInlined
    rw [inlineRuns_of_forall hRun, List.mem_singleton] at hMem
    exact absurd hMem hInlined.1
  · rw [if_pos (List.length_pos_iff.mpr hEmpty)]
    by_cases hPlain : RunPlain doinline run
    · refine ⟨run.map .one, _, execLines_flushRun_plain h hEmpty hNames hPlain hActive, rfl,
        ?_, ?_, ?_, ?_⟩
      · rw [List.flatMap_map, List.map_eq_flatMap]
        rfl
      · simp [List.flatMap_map, Piece.decls]
      · simp
      · intro _ r hMem hInlined
        rw [inlineRuns_of_forall hRun, List.mem_singleton] at hMem
        exact absurd (hMem ▸ hPlain) hInlined.2
    · refine ⟨[.inline run (answers x.calls)], _,
        execLines_flushRun_inline h hEmpty hNames (rel_of_inlinable hRun) hPlain hActive, rfl,
        ?_, ?_, ?_, ?_⟩
      · simp [Piece.events]
      · simp [Piece.decls]
      · intro r got hMem
        rw [List.mem_singleton, Piece.inline.injEq] at hMem
        rw [inlineRuns_of_forall hRun, hMem.1]
        exact ⟨List.mem_singleton.mpr rfl, hEmpty, hPlain⟩
      · intro hAll r hMem hInlined
        rw [inlineRuns_of_forall hRun, List.mem_singleton] at hMem
        rw [hMem, hAll]
        exact List.mem_singleton.mpr rfl

theorem execLines_flush_idle (h : st.Tracks run dl) (hRun : ∀ d ∈ run, (inlinable d).isSome)
    (hNames : ∀ d ∈ run, (statObjname defined d).isSome) (hIdle : x.active = false) :
    execLines op answers x
      (if 0 < st.i then flushRun defined stale doinline flag st dl else []) = some x := by
  rw [h.count]
  by_cases hEmpty : run = []
  · rw [hEmpty]
    rfl
  · rw [if_pos (List.length_pos_iff.mpr hEmpty)]
    exact execLines_flushRun_idle h hEmpty hNames (rel_of_inlinable hRun) hIdle

theorem Divides.append_cons {pieces pieces' : List Piece} (h : Divides doinline answers run pieces)
    (h' : Divides doinline answers dl pieces') (hRun : ∀ d ∈ run, (inlinable d).isSome)
    (hInline : inlinable dec = none) :
    Divides doinline answers (run ++ dec :: dl) (pieces ++ .one dec :: pieces') where
  members := by simp [h.members, h'.members, Piece.decls]
  inlined := by
    intro r got hMem
    rw [inlineRuns_append_cons hRun hInline, List.mem_cons]
    simp only [List.mem_append, List.mem_cons, reduceCtorEq, false_or] at hMem
    rcases hMem with hFirst | hRest
    · obtain ⟨hMem, hInlined⟩ := h.inlined r got hFirst
      rw [inlineRuns_of_forall hRun, List.mem_singleton] at hMem
      exact ⟨Or.inl hMem, hInlined⟩
    · obtain ⟨hMem, hInlined⟩ := h'.inlined r got hRest
      exact ⟨Or.inr hMem, hInlined⟩
  complete := by
    intro hAll r hMem hInlined
    rw [inlineRuns_append_cons hRun hInline, List.mem_cons] at hMem
    rcases hMem with hFirst | hRest
    · apply List.mem_append_left
      apply h.complete hAll r _ hInlined
      rw [inlineRuns_of_forall hRun]
      exact List.mem_singleton.mpr hFirst
    · apply List.mem_append_right
      apply List.mem_cons_of_mem
      exact h'.complete hAll r hRest hInlined

/-- A branch that is taken goes through the members piece by piece. -/
theorem execLines_emitBranch (h : st.Tracks run dl) (hRun : ∀ d ∈ run, (inlinable d).isSome)
    (hFit : BoundsFit (runBounds run)) (hNames : ∀ d ∈ run ++ dl, (statObjname defined d).isSome)
    (hBounds : ∀ r ∈ inlineRuns (run ++ dl), BoundsFit (runBounds r)) (hActive : x.active = true) :
    ∃ pieces x',
      execLines op answers x (emitBranch defined stale doinline flag dl st) = some x' ∧
        x'.frames = x.frames ∧
        x'.trace = x.trace ++ pieces.flatMap (Piece.events defined stale flag) ∧
        Divides doinline answers (run ++ dl) pieces := by
  induction dl generalizing run st x with
  | nil =>
      rw [List.append_nil] at hNames ⊢
      exact execLines_flush h hRun hNames hActive
  | cons dec dl ih =>
      cases hInline : inlinable dec with
      | none =>
          obtain ⟨pieces, x', hFlush, hFrames, hTrace, hDivides⟩ := @execLines_flush defined stale
            doinline flag op answers _ _ _ x h hRun
            (fun d hMem => hNames d (List.mem_append_left _ hMem)) hActive
          have hDec : (statObjname defined dec).isSome := hNames dec (by simp)
          have hActive' : x'.active = true := by rw [Exec.active, hFrames]; exact hActive
          rw [inlineRuns_append_cons hRun hInline] at hBounds
          obtain ⟨pieces', x'', hRest, hFrames', hTrace', hDivides'⟩ :=
            @ih ⟨0, 0, none, st.cur⟩ [] (x'.emit (statEvent defined stale dec))
              RunState.tracks_empty (by simp) boundsFit_nil
              (fun d hMem => hNames d (List.mem_append_right _ (List.mem_cons_of_mem _ hMem)))
              (fun r hMem => hBounds r (List.mem_cons_of_mem _ hMem))
              (by rw [Exec.emit, if_pos hActive']; exact hActive')
          rw [Exec.emit, if_pos hActive'] at hFrames' hTrace'
          refine ⟨pieces ++ .one dec :: pieces', x'', ?_, hFrames'.trans hFrames, ?_,
            hDivides.append_cons hDivides' hRun hInline⟩
          · rw [emitBranch_other hInline, execLines_append, hFlush, Option.bind_some,
              execLines_cons, does_statLine hDec, Option.bind_some]
            exact hRest
          · rw [hTrace', hTrace]
            simp [Piece.events]
      | some ptr =>
          have hAppend : run ++ dec :: dl = run ++ [dec] ++ dl := by simp
          rw [hAppend] at hNames hBounds ⊢
          rcases @emitBranch_inlinable defined stale doinline flag _ _ _ _ h _ hInline hFit with
            ⟨hFit', st', hTracks, hEq⟩ | ⟨hWide, -⟩
          · rw [hEq]
            exact ih hTracks (forall_concat_inlinable hRun hInline) hFit' hNames hBounds hActive
          · obtain ⟨more, hMem⟩ :=
              @exists_mem_inlineRuns _ dl (forall_concat_inlinable hRun hInline)
            have hAll := hBounds _ hMem
            rw [runBounds_append] at hAll
            exact absurd hAll.of_append hWide

/-- A branch that is not taken does nothing. -/
theorem execLines_emitBranch_idle (h : st.Tracks run dl)
    (hRun : ∀ d ∈ run, (inlinable d).isSome) (hFit : BoundsFit (runBounds run))
    (hNames : ∀ d ∈ run ++ dl, (statObjname defined d).isSome)
    (hBounds : ∀ r ∈ inlineRuns (run ++ dl), BoundsFit (runBounds r))
    (hIdle : x.active = false) :
    execLines op answers x (emitBranch defined stale doinline flag dl st) = some x := by
  induction dl generalizing run st with
  | nil =>
      rw [List.append_nil] at hNames
      exact execLines_flush_idle h hRun hNames hIdle
  | cons dec dl ih =>
      cases hInline : inlinable dec with
      | none =>
          have hDec : (statObjname defined dec).isSome := hNames dec (by simp)
          rw [inlineRuns_append_cons hRun hInline] at hBounds
          rw [emitBranch_other hInline, execLines_append,
            execLines_flush_idle h hRun (fun d hMem => hNames d (List.mem_append_left _ hMem)) hIdle,
            Option.bind_some, execLines_cons, does_statLine hDec, Option.bind_some, Exec.emit, hIdle]
          exact ih RunState.tracks_empty (by simp) boundsFit_nil
            (fun d hMem => hNames d (List.mem_append_right _ (List.mem_cons_of_mem _ hMem)))
            (fun r hMem => hBounds r (List.mem_cons_of_mem _ hMem))
      | some ptr =>
          have hAppend : run ++ dec :: dl = run ++ [dec] ++ dl := by simp
          rw [hAppend] at hNames hBounds
          rcases @emitBranch_inlinable defined stale doinline flag _ _ _ _ h _ hInline hFit with
            ⟨hFit', st', hTracks, hEq⟩ | ⟨hWide, -⟩
          · rw [hEq]
            exact ih hTracks (forall_concat_inlinable hRun hInline) hFit' hNames hBounds
          · obtain ⟨more, hMem⟩ :=
              @exists_mem_inlineRuns _ dl (forall_concat_inlinable hRun hInline)
            have hAll := hBounds _ hMem
            rw [runBounds_append] at hAll
            exact absurd hAll.of_append hWide

end Branch

/-! ### The sizes -/

section Sizes

variable {defined : List Definition} {stale : String} {doinline : Int} {flag : InlineFlag}
  {bounds : String → Nat} {run : List Declaration}

/-- The runs are made of the inlinable members. -/
theorem mem_of_mem_inlineRuns {decls : List Declaration} (h : run ∈ inlineRuns decls) :
    ∀ d ∈ run, (inlinable d).isSome ∧ d ∈ decls := by
  induction decls generalizing run with
  | nil =>
      have hRuns : inlineRuns [] = [[]] := rfl
      rw [hRuns, List.mem_singleton] at h
      simp [h]
  | cons dec dl ih =>
      have hLater : ∀ r ∈ inlineRuns dl, ∀ d ∈ r, (inlinable d).isSome ∧ d ∈ dec :: dl :=
        fun r hr d hd => ⟨(ih hr d hd).1, List.mem_cons_of_mem _ (ih hr d hd).2⟩
      cases hInline : inlinable dec with
      | none =>
          have hRuns := @inlineRuns_append_cons [] dl dec (by simp) hInline
          rw [List.nil_append] at hRuns
          rw [hRuns, List.mem_cons] at h
          rcases h with rfl | hMem
          · simp
          · exact hLater run hMem
      | some ptr =>
          have hRuns := @inlineRuns_append [dec] dl (by simp [hInline])
          obtain ⟨first, rest, hCons⟩ := List.exists_cons_of_ne_nil
            (List.splitOnP_ne_nil (fun dec => (inlinable dec).isNone) dl)
          rw [← inlineRuns] at hCons
          rw [List.singleton_append, hCons, List.modifyHead_cons] at hRuns
          rw [hCons] at hLater
          rw [hRuns, List.mem_cons] at h
          rcases h with rfl | hMem
          · intro d hd
            rcases List.mem_cons.mp hd with rfl | hd
            · simp [hInline]
            · exact hLater first List.mem_cons_self d hd
          · exact hLater run (List.mem_cons_of_mem _ hMem)

/-- The macros of a run move a word for each scalar and as many as an array has elements. -/
theorem sum_words (h : ∀ d ∈ run, (inlinable d).isSome) :
    ((run.map (ixdrEvent flag)).map (Event.words bounds)).sum =
      runSize run + ((runBounds run).map bounds).sum := by
  induction run with
  | nil => rfl
  | cons dec run ih =>
      obtain ⟨ptr, hPtr⟩ := Option.isSome_iff_exists.mp (h dec List.mem_cons_self)
      obtain ⟨-, hRel, hMacro⟩ := inlinable_spec hPtr
      have hRest := ih fun d hMem => h d (List.mem_cons_of_mem _ hMem)
      have hWords : Event.words bounds (ixdrEvent flag dec) =
          (if dec.rel = .vector then some dec.arrayMax else none).elim 1 bounds :=
        if_pos (hMacro flag)
      rw [List.map_cons, List.map_cons, List.sum_cons, hRest, hWords]
      rcases hRel with hRel | hRel
      · simp [runSize, runBounds, hRel]
        omega
      · simp [runSize, runBounds, hRel]
        omega

theorem runSize_pos : 0 < runSize run ↔ ∃ dec ∈ run, dec.rel = .alias := by
  simp [runSize, List.countP_pos_iff]

/-- The size of a buffer is right where there is a scalar in the run, or no element but in the
last array: else the factor goes to the last bound only. -/
theorem evalExpr_inlineArg (h : ∀ d ∈ run, (inlinable d).isSome) :
    evalExpr (SizeAtom.value bounds) (inlineArg (runSize run) (runSizestr run)) =
        some ↑(OncRpc.bytesPerXdrUnit *
          ((run.map (ixdrEvent flag)).map (Event.words bounds)).sum) ↔
      (∃ dec ∈ run, dec.rel = .alias) ∨ ((runBounds run).dropLast.map bounds).sum = 0 := by
  rw [sum_words h, ← runSize_pos]
  rcases List.eq_nil_or_concat (runBounds run) with hNone | ⟨texts, text, hTexts⟩
  · have hEval : evalExpr (SizeAtom.value bounds) (inlineArg (runSize run) (runSizestr run)) =
        some ((runSize run : Int) * 4) := by
      rw [runSizestr, if_pos hNone]
      simp [inlineArg, evalExpr, ExprState.start, ExprToken.read, SizeAtom.value,
        OncRpc.bytesPerXdrUnit]
    rw [hEval, hNone]
    simp [OncRpc.bytesPerXdrUnit]
    omega
  · rw [List.concat_eq_append] at hTexts
    have hSome : runBounds run ≠ [] := by simp [hTexts]
    have hCast : ∀ texts : List String, ((texts.map SizeAtom.amax).map (SizeAtom.value bounds)).sum =
        ((texts.map bounds).sum : Int) := by
      intro texts
      induction texts with
      | nil => rfl
      | cons text texts ih =>
          rw [List.map_cons, List.map_cons, List.sum_cons, ih]
          simp [SizeAtom.value]
    rw [runSizestr, if_neg hSome, hTexts, List.map_append, List.map_cons, List.map_nil, inlineArg]
    simp only [List.dropLast_concat, List.map_append, List.sum_append, List.map_cons, List.map_nil,
      List.sum_cons, List.sum_nil]
    by_cases hSize : runSize run = 0
    · rw [if_pos (by simp [hSize]), evalExpr_sumOf_times, hCast, hSize]
      generalize (texts.map bounds).sum = total
      simp [SizeAtom.value, OncRpc.bytesPerXdrUnit]
      omega
    · have hText : [.lparen, .atom (.num (runSize run)), .plus] ++
          sumOf (texts.map SizeAtom.amax ++ [.amax text]) =
            .lparen :: sumOf (.num (runSize run) :: texts.map SizeAtom.amax ++ [.amax text]) := by
        cases texts <;> rfl
      rw [if_neg (by simp [hSize]), hText, evalExpr_paren_times, List.map_cons, List.sum_cons,
        hCast]
      generalize (texts.map bounds).sum = total
      simp [SizeAtom.value, OncRpc.bytesPerXdrUnit]
      omega

/-- The words that are moved in a buffer are those of the macros that come next. -/
theorem sized_cons (e : Event) (es : List Event) :
    Sized bounds (e :: es) ↔
      (∀ arg, e = .inline arg true → evalExpr (SizeAtom.value bounds) arg =
        some ↑(OncRpc.bytesPerXdrUnit *
          ((es.takeWhile Event.isIxdr).map (Event.words bounds)).sum)) ∧
        Sized bounds es := by
  constructor
  · intro h
    refine ⟨fun arg hArg => h [] arg es (by rw [hArg]; rfl), fun pre arg rest hSplit => ?_⟩
    exact h (e :: pre) arg rest (by rw [hSplit]; rfl)
  · rintro ⟨hFirst, hRest⟩ pre arg rest hSplit
    cases pre with
    | nil =>
        obtain ⟨rfl, rfl⟩ := List.cons.inj hSplit
        exact hFirst arg rfl
    | cons e' pre =>
        obtain ⟨-, hTail⟩ := List.cons.inj hSplit
        exact hRest pre arg rest hTail

theorem sized_append {es : List Event} (h : ∀ e ∈ es, e.isInline = false) (es' : List Event) :
    Sized bounds (es ++ es') ↔ Sized bounds es' := by
  induction es with
  | nil => rfl
  | cons e es ih =>
      rw [List.cons_append, sized_cons, ih fun e hMem => h e (List.mem_cons_of_mem _ hMem)]
      refine and_iff_right fun arg hArg => ?_
      have hInline := h e List.mem_cons_self
      rw [hArg] at hInline
      cases hInline

theorem isInline_statEvents {decls : List Declaration} :
    ∀ e ∈ decls.map (statEvent defined stale), e.isInline = false := by
  intro e hMem
  obtain ⟨d, -, rfl⟩ := List.mem_map.mp hMem
  rfl

theorem isInline_ixdrEvents {decls : List Declaration} :
    ∀ e ∈ decls.map (ixdrEvent flag), e.isInline = false := by
  intro e hMem
  obtain ⟨d, -, rfl⟩ := List.mem_map.mp hMem
  rfl

/-- No piece begins with a macro. -/
theorem takeWhile_pieces (pieces : List Piece) :
    (pieces.flatMap (Piece.events defined stale flag)).takeWhile Event.isIxdr = [] := by
  cases pieces with
  | nil => rfl
  | cons piece pieces => cases piece <;> rfl

theorem takeWhile_ixdrEvents (run : List Declaration) {es : List Event}
    (h : es.takeWhile Event.isIxdr = []) :
    (run.map (ixdrEvent flag) ++ es).takeWhile Event.isIxdr = run.map (ixdrEvent flag) := by
  induction run with
  | nil => exact h
  | cons d run ih =>
      rw [List.map_cons, List.cons_append, List.takeWhile_cons, ih]
      rfl

/-- The buffers of the pieces are as large as they should be where each of them is. -/
theorem sized_pieces {pieces : List Piece} :
    Sized bounds (pieces.flatMap (Piece.events defined stale flag)) ↔
      ∀ run, .inline run true ∈ pieces →
        evalExpr (SizeAtom.value bounds) (inlineArg (runSize run) (runSizestr run)) =
          some ↑(OncRpc.bytesPerXdrUnit *
            ((run.map (ixdrEvent flag)).map (Event.words bounds)).sum) := by
  induction pieces with
  | nil =>
      simp only [List.flatMap_nil, List.not_mem_nil, false_implies, implies_true, iff_true]
      intro pre arg rest hSplit
      simp at hSplit
  | cons piece pieces ih =>
      simp only [List.mem_cons, or_imp, forall_and, ← ih]
      rw [List.flatMap_cons]
      cases piece with
      | one dec =>
          show Sized bounds ([dec].map (statEvent defined stale) ++ _) ↔ _
          rw [sized_append isInline_statEvents]
          simp
      | inline run got =>
          show Sized bounds (.inline _ got :: _ ++ _) ↔ _
          rw [List.cons_append, sized_cons]
          cases got with
          | true =>
              rw [if_pos rfl, sized_append isInline_ixdrEvents,
                takeWhile_ixdrEvents run (takeWhile_pieces pieces)]
              simp
          | false =>
              rw [if_neg Bool.false_ne_true, sized_append isInline_statEvents]
              simp

theorem processes_statEvent {op : XdrOp} {dec : Declaration}
    (h : (statObjname defined dec).isSome) :
    Processes defined stale op dec (statEvent defined stale dec) := by
  rw [← @isSome_printStat _ stale] at h
  obtain ⟨s, hs⟩ := Option.isSome_iff_exists.mp h
  show printStat defined stale dec = some ((printStat defined stale dec).getD ⟨"", []⟩)
  rw [hs]
  rfl

/-- The pieces process the members that they are made of. -/
theorem forall_processes {op : XdrOp} {pieces : List Piece}
    (hFlag : op = .encode ∧ flag = .put ∨ op = .decode ∧ flag = .get)
    (hNames : ∀ d ∈ pieces.flatMap Piece.decls, (statObjname defined d).isSome) :
    List.Forall₂ (Processes defined stale op) (pieces.flatMap Piece.decls)
      ((pieces.flatMap (Piece.events defined stale flag)).filter fun e => !e.isInline) := by
  have hStat : ∀ run : List Declaration, (∀ d ∈ run, (statObjname defined d).isSome) →
      List.Forall₂ (Processes defined stale op) run
        ((run.map (statEvent defined stale)).filter fun e => !e.isInline) := by
    intro run hRun
    rw [List.filter_eq_self.mpr fun e hMem => by rw [isInline_statEvents e hMem]; rfl,
      List.forall₂_map_right_iff, List.forall₂_same]
    exact fun d hd => processes_statEvent (hRun d hd)
  induction pieces with
  | nil => exact List.Forall₂.nil
  | cons piece pieces ih =>
      rw [List.flatMap_cons] at hNames
      rw [List.flatMap_cons, List.flatMap_cons, List.filter_append]
      refine List.rel_append ?_ (ih fun d hMem => hNames d (List.mem_append_right _ hMem))
      cases piece with
      | one dec => exact hStat [dec] fun d hMem => hNames d (List.mem_append_left _ hMem)
      | inline run got =>
          show List.Forall₂ _ run ((.inline _ got :: _ : List Event).filter _)
          rw [List.filter_cons_of_neg (by simp [Event.isInline])]
          cases got with
          | true =>
              rw [if_pos rfl, List.filter_eq_self.mpr fun e hMem => by
                rw [isInline_ixdrEvents e hMem]; rfl, List.forall₂_map_right_iff, List.forall₂_same]
              exact fun d _ => ⟨hFlag, rfl, rfl, rfl⟩
          | false => exact hStat run fun d hMem => hNames d (List.mem_append_left _ hMem)

end Sizes

/-! ### The routine -/

section Routine

variable {defined : List Definition} {stale : String} {doinline : Int} {bounds : String → Nat}
  {op : XdrOp} {answers : Nat → Bool} {decls : List Declaration}

/-- Without inline code every operation calls the filters. -/
theorem runLines_stats (h : ∀ d ∈ decls, (statObjname defined d).isSome) :
    runLines op answers (decls.map (statLine defined stale)) =
      some (decls.map (statEvent defined stale)) := by
  rw [runLines, execLines_stats h]
  rfl

/-- With inline code each operation takes its branch. -/
theorem runLines_branches {put get free : List CoutLine}
    (hPut : ∀ x : Exec, x.active = false → execLines op answers x put = some x)
    (hGet : ∀ x : Exec, x.active = false → execLines op answers x get = some x)
    (hFree : ∀ x : Exec, x.active = false → execLines op answers x free = some x)
    {x' : Exec} (hTaken : execLines op answers ⟨[(true, true)], true, 0, []⟩ (match op with
        | .encode => put
        | .decode => get
        | .free => free) = some x') (hFrames : x'.frames = [(true, true)]) :
    runLines op answers ([.bufDecl, .openIf .encode] ++ put ++ [.elseIf .decode] ++ get ++
      [.elseRest] ++ free ++ [.endIf]) = some x'.trace := by
  obtain ⟨frames, null, calls, trace⟩ := x'
  obtain rfl : frames = [(true, true)] := hFrames
  simp only [runLines, List.append_assoc, List.cons_append, List.nil_append, execLines_cons,
    CoutLine.exec, Option.bind_some, execLines_append, Exec.start]
  cases op with
  | encode =>
      show Option.bind (Option.bind (execLines .encode answers ⟨[(true, true)], true, 0, []⟩ put) _)
        _ = _
      rw [hTaken, Option.bind_some]
      show Option.bind (Option.bind (execLines .encode answers ⟨[(true, false)], _, _, _⟩ get) _)
        _ = _
      rw [hGet _ rfl, Option.bind_some]
      show Option.bind (Option.bind (execLines .encode answers ⟨[(true, false)], _, _, _⟩ free) _)
        _ = _
      rw [hFree _ rfl]
      rfl
  | decode =>
      show Option.bind (Option.bind
        (execLines .decode answers ⟨[(false, false)], true, 0, []⟩ put) _) _ = _
      rw [hPut _ rfl, Option.bind_some]
      show Option.bind (Option.bind (execLines .decode answers ⟨[(true, true)], true, 0, []⟩ get) _)
        _ = _
      rw [hTaken, Option.bind_some]
      show Option.bind (Option.bind (execLines .decode answers ⟨[(true, false)], _, _, _⟩ free) _)
        _ = _
      rw [hFree _ rfl]
      rfl
  | free =>
      show Option.bind (Option.bind (execLines .free answers ⟨[(false, false)], true, 0, []⟩ put) _)
        _ = _
      rw [hPut _ rfl, Option.bind_some]
      show Option.bind (Option.bind (execLines .free answers ⟨[(false, false)], true, 0, []⟩ get) _)
        _ = _
      rw [hGet _ rfl, Option.bind_some]
      show Option.bind (Option.bind (execLines .free answers ⟨[(true, true)], true, 0, []⟩ free) _)
        _ = _
      rw [hTaken]
      rfl

theorem stuck_mem_stats (h : ¬ ∀ d ∈ decls, (statObjname defined d).isSome) :
    .stuck ∈ decls.map (statLine defined stale) := by
  simp only [not_forall] at h
  obtain ⟨d, hMem, hNone⟩ := h
  have hLine : statLine defined stale d = .stuck := by
    rw [statLine, printStat, Option.not_isSome_iff_eq_none.mp hNone]
    rfl
  rw [← hLine]
  exact List.mem_map_of_mem hMem

/-- Where inline code is not worth it, there is no array that could be inlined. -/
theorem rel_of_not_canInline {size : Int} (h : canInline doinline decls size = false) :
    ∀ d ∈ decls, (inlinable d).isSome → d.rel = .alias := by
  induction decls generalizing size with
  | nil => simp
  | cons dec dl ih =>
      intro d hMem hSome
      rw [canInline] at h
      cases hInline : inlinable dec with
      | none =>
          simp only [hInline] at h
          split at h
          · cases h
          · rcases List.mem_cons.mp hMem with rfl | hMem
            · rw [hInline] at hSome
              cases hSome
            · exact ih h d hMem hSome
      | some ptr =>
          simp only [hInline] at h
          split at h
          case isFalse => cases h
          case isTrue hRel =>
            rcases List.mem_cons.mp hMem with rfl | hMem
            · exact hRel
            · exact ih h d hMem hSome

theorem runBounds_eq_nil {run : List Declaration} (h : ∀ d ∈ run, d.rel = .alias) :
    runBounds run = [] := by
  rw [runBounds, List.map_eq_nil_iff, List.filter_eq_nil_iff]
  intro d hMem
  simp [h d hMem]

/-- The filters process every member, and no buffer is asked for. -/
theorem runRight_stats (h : ∀ d ∈ decls, (statObjname defined d).isSome) :
    RunRight defined stale bounds op decls (some (decls.map (statEvent defined stale))) := by
  have hPieces : (decls.map Piece.one).flatMap (Piece.events defined stale .put) =
      decls.map (statEvent defined stale) := by
    rw [List.flatMap_map, List.map_eq_flatMap]
    rfl
  constructor
  · rw [List.filter_eq_self.mpr fun e hMem => by rw [isInline_statEvents e hMem]; rfl,
      List.forall₂_map_right_iff, List.forall₂_same]
    exact fun d hd => processes_statEvent (h d hd)
  · rw [← hPieces, sized_pieces]
    simp

/-- Inline code does what the plain code does, and asks for as many bytes as it moves, in
exactly these cases. -/
theorem emitStruct_right_iff (defined : List Definition) (stale : String) {doinline : Int}
    (bounds : String → Nat) (decls : List Declaration) (hInline : 0 < doinline) :
    (∀ op answers, RunRight defined stale bounds op decls
        (runLines op answers (emitStruct defined stale doinline decls))) ↔
      InlineMeets defined bounds decls := by
  have hStuck : .stuck ∈ emitStruct defined stale doinline decls →
      ¬ ∀ op answers, RunRight defined stale bounds op decls
        (runLines op answers (emitStruct defined stale doinline decls)) := by
    intro hMem hAll
    have hRun := hAll .free fun _ => true
    rw [runLines, execLines_stuck hMem] at hRun
    exact hRun
  have hNonzero : doinline ≠ 0 := by omega
  by_cases hNames : ∀ d ∈ decls, (statObjname defined d).isSome
  case neg =>
    refine iff_of_false (hStuck ?_) fun hMeets => hNames hMeets.1
    have hMem := @stuck_mem_stats defined stale decls hNames
    rw [emitStruct, if_neg hNonzero]
    split
    · exact hMem
    · simp [hMem]
  by_cases hCan : canInline doinline decls 0 = false
  · rw [emitStruct, if_neg hNonzero, if_pos hCan]
    refine iff_of_true (fun op answers => ?_) ⟨hNames, fun run hRun => ?_⟩
    · rw [runLines_stats hNames]
      exact runRight_stats hNames
    · have hNone : runBounds run = [] := runBounds_eq_nil fun d hd =>
        rel_of_not_canInline hCan d (mem_of_mem_inlineRuns hRun d hd).2
          (mem_of_mem_inlineRuns hRun d hd).1
      rw [hNone]
      simp [BoundsFit]
  by_cases hBounds : ∀ run ∈ inlineRuns decls, BoundsFit (runBounds run)
  case neg =>
    refine iff_of_false (hStuck ?_) fun hMeets => hBounds fun run hMem => (hMeets.2 run hMem).1
    simp only [not_forall] at hBounds
    obtain ⟨run, hMem, hWide⟩ := hBounds
    have hBranch := @stuck_mem_emitBranch defined stale doinline .put ⟨0, 0, none, []⟩ [] decls
      RunState.tracks_empty (by simp) boundsFit_nil ⟨run, hMem, hWide⟩
    rw [emitStruct, if_neg hNonzero, if_neg hCan]
    simp [hBranch]
  have hIdle : ∀ (flag : InlineFlag) op answers, ∀ x : Exec, x.active = false →
      execLines op answers x (emitBranch defined stale doinline flag decls ⟨0, 0, none, []⟩) =
        some x := fun flag op answers x hx =>
    execLines_emitBranch_idle RunState.tracks_empty (by simp) boundsFit_nil hNames hBounds hx
  have hFree : ∀ op answers, ∀ x : Exec, x.active = false →
      execLines op answers x (decls.map (statLine defined stale)) = some x := by
    intro op answers x hx
    rw [execLines_stats hNames, hx]
    rfl
  have hPieces : ∀ op answers flag, op = .encode ∧ flag = .put ∨ op = .decode ∧ flag = .get →
      ∃ pieces, Divides doinline answers decls pieces ∧
        runLines op answers (emitStruct defined stale doinline decls) =
          some (pieces.flatMap (Piece.events defined stale flag)) := by
    intro op answers flag hFlag
    obtain ⟨pieces, x', hRun, hFrames, hTrace, hDivides⟩ :=
      @execLines_emitBranch defined stale doinline flag op answers ⟨0, 0, none, []⟩ [] decls
        ⟨[(true, true)], true, 0, []⟩ RunState.tracks_empty (by simp) boundsFit_nil hNames hBounds
        rfl
    refine ⟨pieces, hDivides, ?_⟩
    rw [emitStruct, if_neg hNonzero, if_neg hCan]
    rw [List.nil_append] at hTrace
    rw [← hTrace]
    apply runLines_branches (hIdle _ _ _) (hIdle _ _ _) (hFree _ _) _ hFrames
    rcases hFlag with ⟨rfl, rfl⟩ | ⟨rfl, rfl⟩ <;> exact hRun
  constructor
  · intro hAll
    refine ⟨hNames, fun run hMem => ⟨hBounds run hMem, ?_⟩⟩
    by_cases hInlined : Inlined doinline run
    · obtain ⟨pieces, hDivides, hRun⟩ := hPieces .encode (fun _ => true) .put (Or.inl ⟨rfl, rfl⟩)
      have hRight := hAll .encode fun _ => true
      rw [hRun] at hRight
      have hSize := sized_pieces.mp hRight.2 run (hDivides.complete (fun _ => rfl) run hMem hInlined)
      exact (evalExpr_inlineArg fun d hd => (mem_of_mem_inlineRuns hMem d hd).1).mp hSize
    · have hNone : runBounds run = [] := by
        by_contra hSome
        refine hInlined ⟨?_, fun hPlain => hSome hPlain.1⟩
        rintro rfl
        exact hSome rfl
      rw [hNone]
      exact Or.inr rfl
  · intro hMeets op answers
    have hBranch : ∀ flag : InlineFlag, op = .encode ∧ flag = .put ∨ op = .decode ∧ flag = .get →
        RunRight defined stale bounds op decls
          (runLines op answers (emitStruct defined stale doinline decls)) := by
      intro flag hFlag
      obtain ⟨pieces, hDivides, hRun⟩ := hPieces op answers flag hFlag
      rw [hRun]
      constructor
      · have hAll := @forall_processes defined stale flag op pieces hFlag
          (by rw [hDivides.members]; exact hNames)
        rwa [hDivides.members] at hAll
      · refine sized_pieces.mpr fun run hMem => ?_
        have hRuns := (hDivides.inlined run true hMem).1
        exact (evalExpr_inlineArg fun d hd => (mem_of_mem_inlineRuns hRuns d hd).1).mpr
          (hMeets.2 run hRuns).2
    cases op with
    | encode => exact hBranch .put (Or.inl ⟨rfl, rfl⟩)
    | decode => exact hBranch .get (Or.inr ⟨rfl, rfl⟩)
    | free =>
        have hStats := @execLines_stats defined stale .free answers decls
          ⟨[(true, true)], true, 0, []⟩ hNames
        have hRun := runLines_branches (hIdle .put .free answers) (hIdle .get .free answers)
          (hFree .free answers) hStats rfl
        rw [emitStruct, if_neg hNonzero, if_neg hCan, hRun]
        exact runRight_stats hNames

end Routine

/-- The value of a decimal number. -/
def decimalValue (text : String) : Nat :=
  text.toList.foldl (fun n c => 10 * n + (c.toNat - '0'.toNat)) 0

/-- `int a[5]; int b[7];` -/
def twoArrays : List Declaration :=
  [⟨none, "int", "a", .vector, "5"⟩, ⟨none, "int", "b", .vector, "7"⟩]

/-- The space that is asked for is 5 + 7 * 4 bytes, not 48. -/
theorem not_runRight_twoArrays :
    ¬ ∀ op answers, RunRight [] "" decimalValue op twoArrays
      (runLines op answers (emitStruct [] "" 3 twoArrays)) := by
  intro hAll
  have hRun : runLines .encode (fun _ => true) (emitStruct [] "" 3 twoArrays) =
      some [.inline [.atom (.amax "5"), .plus, .atom (.amax "7"), .times, .atom .bytesPerXdrUnit]
          true,
        .ixdr .put "IXDR_PUT_INT32" "a" (some "5"), .ixdr .put "IXDR_PUT_INT32" "b" (some "7")] := by
    decide
  have hRight := hAll .encode fun _ => true
  rw [hRun] at hRight
  have hSize := hRight.2 [] _ _ rfl
  revert hSize
  decide

/-- `int n; int a[5]; string s<>; bool b; int c[7];` -/
def oneArrayAtATime : List Declaration :=
  [⟨none, "int", "n", .alias, ""⟩, ⟨none, "int", "a", .vector, "5"⟩,
   ⟨none, "string", "s", .array, "(unsigned int)~0"⟩, ⟨none, "bool", "b", .alias, ""⟩,
   ⟨none, "int", "c", .vector, "7"⟩]

theorem runRight_oneArrayAtATime :
    RunRight [] "" decimalValue .decode oneArrayAtATime
      (runLines .decode (fun _ => true) (emitStruct [] "" 3 oneArrayAtATime)) := by
  apply (emitStruct_right_iff [] "" decimalValue oneArrayAtATime (by decide)).mpr
  refine ⟨by decide, ?_⟩
  have hRuns : inlineRuns oneArrayAtATime =
      [[⟨none, "int", "n", .alias, ""⟩, ⟨none, "int", "a", .vector, "5"⟩],
       [⟨none, "bool", "b", .alias, ""⟩, ⟨none, "int", "c", .vector, "7"⟩]] := by decide
  have hTexts : "5".length < 256 ∧ "7".length < 256 := by decide
  rw [hRuns]
  simpa [BoundsFit, runBounds] using hTexts

end OncRpc.Rpcgen
