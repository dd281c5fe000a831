import Mathlib.Data.List.Find
import OncRpc.Svc.Simple

/-! The simplified services over any registrations: what a request is answered with, and what is
left of its arguments. -/
namespace OncRpc

variable {α ρ π : Type}

namespace SimpleWorld

open Heap

/-- What the entries with a transport refer to is live. -/
structure XprtLive (heap : Heap (SimpleCell α)) (x : SimpleXprt) : Prop where
  svcxprt : ∃ s, heap.read x.svcxprt = some (.xprt s)
  netid : ∃ s, heap.read x.netid = some (.netid s)
  xdrbuf : ∃ args refers, heap.read x.xdrbuf = some (.xdrbuf x.recvsz args refers)

/-- The transport of an entry. -/
def xprtOf (pl : Proglst α ρ π) : SimpleXprt := ⟨pl.pTransp, pl.pNetid, pl.pXdrbuf, pl.pRecvsz⟩

/-- No entry refers to a transport that was destroyed, or to a buffer or netid that was freed. -/
def Sound (w : SimpleWorld α ρ π) : Prop := ∀ pl ∈ w.proglst, XprtLive w.heap (xprtOf pl)

/-- The entry is the one for a request. -/
def Matches (rqst : SimpleReq ρ π) (heap : Heap (SimpleCell α)) (pl : Proglst α ρ π) : Prop :=
  isFor rqst pl = true ∧ netidAt heap pl.pNetid = some rqst.xpNetid

/-- The call records an entry for the request. -/
def Records (rqst : SimpleReq ρ π) (c : RpcRegCall α ρ π) (w : SimpleWorld α ρ π) : Prop :=
  ∃ r w' new, rpcReg c w = some (r, w') ∧ w'.proglst = new ++ w.proglst ∧
    ∃ pl ∈ new, Matches rqst w'.heap pl

/-- The latest call that records an entry for the request, if there is one. -/
inductive Latest (rqst : SimpleReq ρ π) :
    SimpleWorld α ρ π → List (RpcRegCall α ρ π) → Option (RpcRegCall α ρ π) → Prop
  | nil (w : SimpleWorld α ρ π) : Latest rqst w [] none
  | later {w w' : SimpleWorld α ρ π} {c c' : RpcRegCall α ρ π} {r : Int}
      {rest : List (RpcRegCall α ρ π)} (returns : rpcReg c w = some (r, w'))
      (found : Latest rqst w' rest (some c')) : Latest rqst w (c :: rest) (some c')
  | here {w w' : SimpleWorld α ρ π} {c : RpcRegCall α ρ π} {r : Int}
      {rest : List (RpcRegCall α ρ π)} (returns : rpcReg c w = some (r, w'))
      (rest_none : Latest rqst w' rest none) (records : Records rqst c w) :
      Latest rqst w (c :: rest) (some c)
  | skip {w w' : SimpleWorld α ρ π} {c : RpcRegCall α ρ π} {r : Int}
      {rest : List (RpcRegCall α ρ π)} (returns : rpcReg c w = some (r, w'))
      (rest_none : Latest rqst w' rest none) (records : ¬ Records rqst c w) :
      Latest rqst w (c :: rest) none

/-- What is right for a request: the routine of the latest call is run on the arguments, and there
is one reply, or none for a routine that has no result where one is due. -/
def Answers (rqst : SimpleReq ρ π) (latest : Option (RpcRegCall α ρ π)) (out : Handled α ρ π) :
    Prop :=
  if rqst.rqProc = 0 then out = ⟨[], [.results .xdrVoid none]⟩
  else
    match latest with
    | none => out = ⟨[], [.noproc]⟩
    | some c =>
        match (c.inproc rqst.body).args with
        | none => out = ⟨[], [.decode]⟩
        | some args => out.ran = [(c.progname, args)] ∧
            (out.sent = [.results c.outproc (c.progname args)] ∨
              out.sent = [] ∧ c.progname args = none ∧ c.outproc.isVoid = false)

/-- Nothing is left of what was allocated since. -/
def Released (heap heap' : Heap (SimpleCell α)) : Prop :=
  ∀ p, heap.brk ≤ p → heap'.read p = none

/-- When a request is answered, and its arguments freed. -/
def AnswersWhen (rqst : SimpleReq ρ π) (latest : Option (RpcRegCall α ρ π)) : Prop :=
  if rqst.rqProc = 0 then rqst.sends (.results .xdrVoid none) = true
  else
    match latest with
    | none => False
    | some c =>
        match c.inproc rqst.body with
        | ⟨none, blocks⟩ => rqst.sends .decode = true ∧ blocks = 0
        | ⟨some args, blocks⟩ =>
            if (c.progname args).isNone ∧ c.outproc.isVoid = false then blocks = 0
            else rqst.sends (.results c.outproc (c.progname args)) = true

/-! ### Searching -/

section Search

variable {heap heap' : Heap (SimpleCell α)} {x : SimpleXprt} {test : Proglst α ρ π → Bool}
  {netid : CString}

theorem XprtLive.kept (h : XprtLive heap x) (hKept : Kept heap heap') : XprtLive heap' x := by
  obtain ⟨⟨s, hXprt⟩, ⟨t, hNetid⟩, args, refers, hBuf⟩ := h
  exact ⟨⟨s, hKept _ _ hXprt⟩, ⟨t, hKept _ _ hNetid⟩, args, refers, hKept _ _ hBuf⟩

theorem XprtLive.netidAt (h : XprtLive heap x) : ∃ s, netidAt heap x.netid = some s := by
  obtain ⟨s, hRead⟩ := h.netid
  refine ⟨s, ?_⟩
  rw [SimpleWorld.netidAt, hRead]

theorem XprtLive.xpNetidAt (h : XprtLive heap x) : ∃ s, xpNetidAt heap x.svcxprt = some s := by
  obtain ⟨s, hRead⟩ := h.svcxprt
  refine ⟨s, ?_⟩
  rw [SimpleWorld.xpNetidAt, hRead]

theorem XprtLive.netidAt_kept (h : XprtLive heap x) (hKept : Kept heap heap') :
    SimpleWorld.netidAt heap' x.netid = SimpleWorld.netidAt heap x.netid := by
  obtain ⟨s, hRead⟩ := h.netid
  rw [SimpleWorld.netidAt, SimpleWorld.netidAt, hRead, hKept _ _ hRead]

/-- A search comes to the first entry that there is, or to none. -/
theorem search_eq {l : List (Proglst α ρ π)} (h : ∀ pl ∈ l, XprtLive heap (xprtOf pl)) :
    search test netid heap l =
      some (l.find? fun pl => test pl && decide (netidAt heap pl.pNetid = some netid)) := by
  induction l with
  | nil => rfl
  | cons pl rest ih =>
      obtain ⟨hLive, hRest⟩ := List.forall_mem_cons.mp h
      obtain ⟨s, hNetid⟩ := hLive.netidAt
      have hNetid' : netidAt heap pl.pNetid = some s := hNetid
      rw [search, List.find?_cons, hNetid', ih hRest, Option.bind_some]
      cases test pl with
      | false => simp
      | true =>
          by_cases hSame : s = netid
          · simp [hSame]
          · simp [hSame]

end Search

/-! ### Registering -/

section Register

variable {w : SimpleWorld α ρ π} {c : RpcRegCall α ρ π} {round : RegRound}

/-- Nothing of a transport was there. -/
structure XprtNew (heap : Heap (SimpleCell α)) (x : SimpleXprt) : Prop where
  svcxprt : heap.read x.svcxprt = none
  netid : heap.read x.netid = none
  xdrbuf : heap.read x.xdrbuf = none

/-- What a step of a round leaves of the world: what was live, and what is registered. -/
structure Keeps (w w' : SimpleWorld α ρ π) : Prop where
  heap : Kept w.heap w'.heap
  proglst : w'.proglst = w.proglst

/-- A transport that was obtained can be used, and was not there when it is new. -/
def Obtained.Usable (w w' : SimpleWorld α ρ π) : Obtained → Prop
  | goesOn | breaks => True
  | xprt x madenow => XprtLive w'.heap x ∧ (madenow = true → XprtNew w.heap x)

/-- A new transport that is destroyed at once leaves nothing. -/
theorem free_malloc (heap : Heap (SimpleCell α)) (a : SimpleCell α) :
    ∃ heap', (heap.malloc a).2.free heap.brk = some heap' ∧ Kept heap heap' := by
  obtain ⟨heap', hFree, hKept, -⟩ :=
    (kept_malloc heap a).free (read_brk heap) (read_malloc_brk heap a)
  exact ⟨heap', hFree, hKept⟩

theorem makeXprt_spec (round : RegRound) (w : SimpleWorld α ρ π) :
    ∃ o w', makeXprt round w = some (o, w') ∧ Keeps w w' ∧ o.Usable w w' := by
  unfold makeXprt
  rcases round.tliCreate with - | sockinfo
  · exact ⟨.goesOn, w, rfl, ⟨Kept.refl _, rfl⟩, trivial⟩
  · obtain ⟨heap₁, hDestroy, hKept⟩ := free_malloc w.heap (.xprt round.ncNetid)
    rcases sockinfo with - | si
    · refine ⟨.goesOn, { w with heap := heap₁ }, ?_, ⟨hKept, rfl⟩, trivial⟩
      simp only [malloc_fst, hDestroy, Option.bind_eq_bind, Option.bind_some]
    · simp only [malloc_fst]
      split
      · refine ⟨.goesOn, { w with heap := heap₁ }, ?_, ⟨hKept, rfl⟩, trivial⟩
        rw [hDestroy]
        rfl
      · split
        · refine ⟨.breaks, { w with heap := heap₁ }, ?_, ⟨hKept, rfl⟩, trivial⟩
          rw [hDestroy]
          rfl
        · have hXprt := kept_malloc w.heap (.xprt round.ncNetid)
          have hRead := read_malloc_brk w.heap (.xprt round.ncNetid)
          generalize hHeap : (w.heap.malloc (.xprt round.ncNetid)).2 = heap₂ at *
          generalize hCell : SimpleCell.xdrbuf (rpcGetTSizeDef si.siProto) none [] = cell
          have hBrk : heap₂.brk = w.heap.brk + 1 := by
            rw [← hHeap, brk_malloc]
          split
          · obtain ⟨heap₃, hFree, hKept₃, -⟩ :=
              (kept_malloc heap₂ cell).free (read_brk heap₂) (read_malloc_brk heap₂ cell)
            obtain ⟨heap₄, hDestroy', hKept₄, -⟩ :=
              (hXprt.trans hKept₃).free (read_brk w.heap) (hKept₃ _ _ hRead)
            refine ⟨.breaks, { w with heap := heap₄ }, ?_, ⟨hKept₄, rfl⟩, trivial⟩
            simp only [hFree, hDestroy', Option.bind_eq_bind, Option.bind_some]
          · have hNetid := kept_malloc (heap₂.malloc cell).2 (.netid round.ncNetid)
            refine ⟨.xprt _ true, _, rfl, ⟨?_, rfl⟩, ⟨?_, ?_, ?_⟩, fun _ => ⟨?_, ?_, ?_⟩⟩
            · exact (hXprt.trans (kept_malloc heap₂ cell)).trans hNetid
            · exact ⟨_, hNetid _ _ (kept_malloc heap₂ cell _ _ hRead)⟩
            · exact ⟨_, read_malloc_brk _ _⟩
            · refine ⟨none, [], hNetid _ _ ?_⟩
              rw [show SimpleCell.xdrbuf _ none [] = cell from hCell]
              exact read_malloc_brk heap₂ cell
            · exact read_brk w.heap
            · apply read_of_brk_le
              show w.heap.brk ≤ (heap₂.malloc cell).2.brk
              rw [brk_malloc, hBrk]
              omega
            · apply read_of_brk_le
              show w.heap.brk ≤ heap₂.brk
              omega

/-- What is undone leaves what was there before the round. -/
theorem undo_spec {w₀ : SimpleWorld α ρ π} {x : SimpleXprt} {madenow : Bool} (h : Keeps w₀ w)
    (hLive : XprtLive w.heap x) (hNew : madenow = true → XprtNew w₀.heap x) :
    ∃ w', undo x madenow w = some w' ∧ Keeps w₀ w' := by
  unfold undo
  split
  · next hMade =>
      obtain ⟨hXprtNew, hNetidNew, hBufNew⟩ := hNew hMade
      obtain ⟨⟨s, hXprt⟩, ⟨t, hNetid⟩, args, refers, hBuf⟩ := hLive
      -- The three cells hold different things.
      have hBufXprt : x.xdrbuf ≠ x.svcxprt := by
        intro hSame
        rw [hSame, hXprt] at hBuf
        cases hBuf
      have hNetidXprt : x.netid ≠ x.svcxprt := by
        intro hSame
        rw [hSame, hXprt] at hNetid
        cases hNetid
      have hNetidBuf : x.netid ≠ x.xdrbuf := by
        intro hSame
        rw [hSame, hBuf] at hNetid
        cases hNetid
      obtain ⟨heap₁, hFree₁, hKept₁, hFreed₁⟩ := h.heap.free hXprtNew hXprt
      have hBuf₁ : heap₁.read x.xdrbuf = _ := (hFreed₁.read _).trans (if_neg hBufXprt)
      obtain ⟨heap₂, hFree₂, hKept₂, hFreed₂⟩ := hKept₁.free hBufNew (hBuf₁.trans hBuf)
      have hNetid₂ : heap₂.read x.netid = some (.netid t) := by
        rw [hFreed₂.read, if_neg hNetidBuf, hFreed₁.read, if_neg hNetidXprt, hNetid]
      obtain ⟨heap₃, hFree₃, hKept₃, -⟩ := hKept₂.free hNetidNew hNetid₂
      refine ⟨{ w with heap := heap₃ }, ?_, hKept₃, h.proglst⟩
      simp only [hFree₁, hFree₂, hFree₃, Option.bind_eq_bind, Option.bind_some]
  · exact ⟨w, rfl, h⟩

/-- What a call leaves of the world: what was live, and its entries in front of those that were
there. -/
def Adds (c : RpcRegCall α ρ π) (w w' : SimpleWorld α ρ π) : Prop :=
  Kept w.heap w'.heap ∧ ∃ xs : List SimpleXprt, w'.proglst = xs.map (entry c) ++ w.proglst ∧
    ∀ x ∈ xs, XprtLive w'.heap x

theorem Keeps.adds {w' : SimpleWorld α ρ π} (h : Keeps w w') : Adds c w w' :=
  ⟨h.heap, [], h.proglst, nofun⟩

theorem Adds.trans {w₁ w' : SimpleWorld α ρ π} (h : Adds c w w₁) (h' : Adds c w₁ w') :
    Adds c w w' := by
  obtain ⟨hKept, xs, hList, hLive⟩ := h
  obtain ⟨hKept', ys, hList', hLive'⟩ := h'
  refine ⟨hKept.trans hKept', ys ++ xs, ?_, fun x hMem => ?_⟩
  · rw [hList', hList, List.map_append, List.append_assoc]
  · rcases List.mem_append.mp hMem with hMem | hMem
    · exact hLive' x hMem
    · exact (hLive x hMem).kept hKept'

theorem Adds.sound {w' : SimpleWorld α ρ π} (h : Adds c w w') (hSound : w.Sound) : w'.Sound := by
  obtain ⟨hKept, xs, hList, hLive⟩ := h
  intro pl hMem
  rw [hList] at hMem
  rcases List.mem_append.mp hMem with hNew | hOld
  · obtain ⟨x, hx, rfl⟩ := List.mem_map.mp hNew
    exact hLive x hx
  · exact (hSound pl hOld).kept hKept

/-- The entries are searched while the heap has grown. -/
theorem search_grown {w₀ : SimpleWorld α ρ π} (hSound : w₀.Sound) (h : Keeps w₀ w)
    (test : Proglst α ρ π → Bool) (netid : CString) :
    ∃ found, search test netid w.heap w.proglst = some found := by
  rw [h.proglst]
  exact ⟨_, search_eq fun pl hMem => (hSound pl hMem).kept h.heap⟩

theorem record_spec {w₀ : SimpleWorld α ρ π} {x : SimpleXprt} {madenow : Bool} (hSound : w₀.Sound)
    (h : Keeps w₀ w) (hLive : XprtLive w.heap x) (hNew : madenow = true → XprtNew w₀.heap x) :
    ∃ e w', record c round x madenow w = some (e, w') ∧ Adds c w₀ w' := by
  obtain ⟨netid, hNetid⟩ := hLive.netidAt
  obtain ⟨s, hXpNetid⟩ := hLive.xpNetidAt
  obtain ⟨found, hFound⟩ :=
    search_grown hSound h (fun pl => pl.pPrognum = c.prognum ∧ pl.pVersnum = c.versnum) netid
  simp only [record, hNetid, hFound, hXpNetid, Option.bind_eq_bind, Option.bind_some]
  generalize svcReg (regCall c round s found.isSome) w.svcHead = r
  have hKeeps : Keeps w₀ { w with svcHead := r.2.2 } := ⟨h.heap, h.proglst⟩
  obtain ⟨w₁, hUndo, hKeeps₁⟩ := undo_spec hKeeps hLive hNew
  split
  · exact ⟨.goesOn, w₁, by rw [hUndo]; rfl, hKeeps₁.adds⟩
  · split
    · exact ⟨.breaks, w₁, by rw [hUndo]; rfl, hKeeps₁.adds⟩
    · refine ⟨.done, _, rfl, h.heap, [x], ?_, List.forall_mem_singleton.mpr hLive⟩
      show entry c x :: w.proglst = _
      rw [h.proglst]
      rfl

theorem regRound_spec (hSound : w.Sound) :
    ∃ e w', regRound c round w = some (e, w') ∧ Adds c w w' := by
  have hSearch : search (fun _ => true) round.ncNetid w.heap w.proglst = _ := search_eq hSound
  cases hFind : w.proglst.find? fun pl =>
    true && decide (netidAt w.heap pl.pNetid = some round.ncNetid) with
  | some pl =>
      rw [hFind] at hSearch
      obtain ⟨e, w', hRun, hAdds⟩ : ∃ e w', record c round (xprtOf pl) false w = some (e, w') ∧
          Adds c w w' :=
        record_spec hSound ⟨Kept.refl _, rfl⟩ (hSound pl (List.mem_of_find?_eq_some hFind)) nofun
      refine ⟨e, w', ?_, hAdds⟩
      simp only [regRound, obtainXprt, hSearch, Option.bind_eq_bind, Option.bind_some]
      exact hRun
  | none =>
      rw [hFind] at hSearch
      obtain ⟨o, w₁, hMake, hKeeps, hUsable⟩ := makeXprt_spec round w
      simp only [regRound, obtainXprt, hSearch, hMake, Option.bind_eq_bind, Option.bind_some]
      rcases o with - | - | ⟨x, madenow⟩
      · exact ⟨.goesOn, w₁, rfl, hKeeps.adds⟩
      · exact ⟨.breaks, w₁, rfl, hKeeps.adds⟩
      · exact record_spec hSound hKeeps hUsable.1 hUsable.2

theorem regLoop_spec (rounds : List RegRound) : ∀ (done : Bool) (w : SimpleWorld α ρ π), w.Sound →
    ∃ r w', regLoop c rounds done w = some (r, w') ∧ Adds c w w' := by
  induction rounds with
  | nil => exact fun done w _ => ⟨done, w, rfl, (Keeps.mk (Kept.refl _) rfl).adds⟩
  | cons round rest ih =>
      intro done w hSound
      obtain ⟨e, w₁, hRound, hAdds⟩ : ∃ e w₁, regRound c round w = some (e, w₁) ∧ Adds c w w₁ :=
        regRound_spec hSound
      simp only [regLoop, hRound, Option.bind_eq_bind, Option.bind_some]
      rcases e with - | - | -
      · obtain ⟨r, w', hRest, hAdds'⟩ := ih done w₁ (hAdds.sound hSound)
        exact ⟨r, w', hRest, hAdds.trans hAdds'⟩
      · exact ⟨done, w₁, rfl, hAdds⟩
      · obtain ⟨r, w', hRest, hAdds'⟩ := ih true w₁ (hAdds.sound hSound)
        exact ⟨r, w', hRest, hAdds.trans hAdds'⟩

theorem rpcReg_spec (c : RpcRegCall α ρ π) (hSound : w.Sound) :
    ∃ r w', rpcReg c w = some (r, w') ∧ Adds c w w' := by
  unfold rpcReg
  have hNone : Adds c w w := (Keeps.mk (Kept.refl _) rfl).adds
  split
  · exact ⟨-1, w, rfl, hNone⟩
  · split
    · exact ⟨-1, w, rfl, hNone⟩
    · next rounds _ =>
        obtain ⟨r, w', hRun, hAdds⟩ := regLoop_spec (c := c) rounds false w hSound
        exact ⟨_, w', by rw [hRun]; rfl, hAdds⟩

end Register

/-! ### The latest registration -/

section Found

variable {w w' : SimpleWorld α ρ π} {c : RpcRegCall α ρ π} {rqst : SimpleReq ρ π}

/-- The entry that `universal` finds. -/
def found (rqst : SimpleReq ρ π) (w : SimpleWorld α ρ π) : Option (Proglst α ρ π) :=
  w.proglst.find? fun pl =>
    isFor rqst pl && decide (netidAt w.heap pl.pNetid = some rqst.xpNetid)

/-- A call that records an entry for the request has its entry found from then on. -/
theorem Adds.found_of_records {r : Int} (h : Adds c w w') (hRun : rpcReg c w = some (r, w'))
    (hRecords : Records rqst c w) : ∃ x, w'.found rqst = some (entry c x) := by
  obtain ⟨r', w'', new, hRun', hNew, pl, hMem, hFor, hNetid⟩ := hRecords
  obtain ⟨-, xs, hList, -⟩ := h
  rw [hRun] at hRun'
  cases hRun'
  obtain rfl : new = xs.map (entry c) := List.append_cancel_right (hNew.symm.trans hList)
  have hSome : ((xs.map (entry c)).find? fun pl =>
      isFor rqst pl && decide (netidAt w'.heap pl.pNetid = some rqst.xpNetid)).isSome := by
    rw [List.find?_isSome]
    exact ⟨pl, hMem, by rw [hFor, hNetid, Bool.true_and, decide_eq_true rfl]⟩
  obtain ⟨pl', hFound⟩ := Option.isSome_iff_exists.mp hSome
  obtain ⟨x, -, rfl⟩ := List.mem_map.mp (List.mem_of_find?_eq_some hFound)
  refine ⟨x, ?_⟩
  rw [found, hList, List.find?_append, hFound, Option.some_or]

/-- Another call leaves what is found. -/
theorem Adds.found_of_not_records {r : Int} (h : Adds c w w') (hRun : rpcReg c w = some (r, w'))
    (hSound : w.Sound) (hRecords : ¬ Records rqst c w) : w'.found rqst = w.found rqst := by
  obtain ⟨hKept, xs, hList, -⟩ := h
  have hNone : ((xs.map (entry c)).find? fun pl =>
      isFor rqst pl && decide (netidAt w'.heap pl.pNetid = some rqst.xpNetid)) = none := by
    rw [List.find?_eq_none]
    intro pl hMem hBoth
    rw [Bool.and_eq_true, decide_eq_true_eq] at hBoth
    exact hRecords ⟨r, w', _, hRun, hList, pl, hMem, hBoth.1, hBoth.2⟩
  rw [found, hList, List.find?_append, hNone, Option.none_or]
  apply List.find?_congr
  intro pl hMem
  rw [show netidAt w'.heap pl.pNetid = netidAt w.heap pl.pNetid from
    (hSound pl hMem).netidAt_kept hKept]

/-- After any calls, the entry of the latest one is found. -/
theorem latest_spec (rqst : SimpleReq ρ π) (calls : List (RpcRegCall α ρ π)) :
    ∀ w : SimpleWorld α ρ π, w.Sound → ∃ latest w', rpcRegs w calls = some w' ∧
      Latest rqst w calls latest ∧ w'.Sound ∧
      match latest with
      | some c => ∃ x, w'.found rqst = some (entry c x)
      | none => w'.found rqst = w.found rqst := by
  induction calls with
  | nil => exact fun w hSound => ⟨none, w, rfl, .nil w, hSound, rfl⟩
  | cons c rest ih =>
      intro w hSound
      obtain ⟨r, w₁, hRun, hAdds⟩ := rpcReg_spec c hSound
      obtain ⟨latest, w', hRest, hLatest, hSound', hFound⟩ := ih w₁ (hAdds.sound hSound)
      have hCalls : rpcRegs w (c :: rest) = some w' := by
        rw [rpcRegs, Runs.run, List.foldlM_cons, hRun]
        exact hRest
      cases latest with
      | some c' => exact ⟨some c', w', hCalls, .later hRun hLatest, hSound', hFound⟩
      | none =>
          by_cases hRecords : Records rqst c w
          · refine ⟨some c, w', hCalls, .here hRun hLatest hRecords, hSound', ?_⟩
            obtain ⟨x, hHere⟩ := hAdds.found_of_records hRun hRecords
            exact ⟨x, hFound.trans hHere⟩
          · refine ⟨none, w', hCalls, .skip hRun hLatest hRecords, hSound', ?_⟩
            exact hFound.trans (hAdds.found_of_not_records hRun hSound hRecords)

end Found

/-! ### A request -/

section Serve

variable {heap heap' : Heap (SimpleCell α)} {x y : SimpleXprt} {c : RpcRegCall α ρ π}
  {rqst : SimpleReq ρ π}

/-- Of what was there, only the contents of a buffer have changed. -/
structure Rebuffered (x : SimpleXprt) (heap heap' : Heap (SimpleCell α)) : Prop where
  xdrbuf : ∃ args refers, heap'.read x.xdrbuf = some (.xdrbuf x.recvsz args refers)
  kept : ∀ p a, p ≠ x.xdrbuf → heap.read p = some a → heap'.read p = some a

theorem Rebuffered.live (h : Rebuffered x heap heap') (hLive : XprtLive heap x)
    (hLive' : XprtLive heap y) : XprtLive heap' y := by
  obtain ⟨args, refers, hBuf⟩ := hLive.xdrbuf
  obtain ⟨⟨s, hXprt⟩, ⟨t, hNetid⟩, args', refers', hBuf'⟩ := hLive'
  refine ⟨⟨s, h.kept _ _ ?_ hXprt⟩, ⟨t, h.kept _ _ ?_ hNetid⟩, ?_⟩
  · intro hSame
    rw [hSame, hBuf] at hXprt
    cases hXprt
  · intro hSame
    rw [hSame, hBuf] at hNetid
    cases hNetid
  · by_cases hSame : y.xdrbuf = x.xdrbuf
    · rw [hSame, hBuf] at hBuf'
      have hSize := (SimpleCell.xdrbuf.inj (Option.some.inj hBuf')).1
      rw [hSame, ← hSize]
      exact h.xdrbuf
    · exact ⟨args', refers', h.kept _ _ hSame hBuf'⟩

/-- The buffer and the blocks after decoding. -/
structure Decoded (x : SimpleXprt) (args : Option α) (blocks : Nat)
    (heap heap' : Heap (SimpleCell α)) : Prop where
  buf : heap'.read x.xdrbuf = some (.xdrbuf x.recvsz args (List.range' heap.brk blocks))
  read : ∀ p, p ≠ x.xdrbuf →
    heap'.read p = if p ∈ List.range' heap.brk blocks then some .block else heap.read p

/-- The arguments are decoded into a clean buffer. -/
theorem svcGetargs_spec (inproc : List UInt8 → DecodedArgs α) (body : List UInt8)
    (hLive : XprtLive heap x) : ∃ heap₁ heap', memsetBuf x.xdrbuf x.recvsz heap = some heap₁ ∧
      svcGetargs inproc body x.xdrbuf heap₁ = some ((inproc body).args, heap') ∧
      Decoded x (inproc body).args (inproc body).blocks heap heap' := by
  obtain ⟨args, refers, hBuf⟩ := hLive.xdrbuf
  obtain ⟨heap₁, hClear, hCleared⟩ := store_of_read hBuf (.xdrbuf x.recvsz none [])
  have hBuf₁ : heap₁.read x.xdrbuf = some (.xdrbuf x.recvsz none []) := by
    rw [hCleared.read, if_pos rfl]
  have hRefers : (heap₁.mallocs .block (inproc body).blocks).1 =
      List.range' heap.brk (inproc body).blocks := by
    rw [mallocs_fst, hCleared.brk]
  have hOld : x.xdrbuf ∉ List.range' heap.brk (inproc body).blocks := by
    intro hMem
    exact absurd (lt_brk_of_read hBuf) (Nat.not_lt.mpr (List.mem_range'_1.mp hMem).1)
  have hBuf₂ : (heap₁.mallocs .block (inproc body).blocks).2.read x.xdrbuf =
      some (.xdrbuf x.recvsz none []) := by
    rw [read_mallocs, hRefers, if_neg hOld, hBuf₁]
  obtain ⟨heap', hStore, hStored⟩ := store_of_read hBuf₂
    (.xdrbuf x.recvsz (inproc body).args (List.range' heap.brk (inproc body).blocks))
  refine ⟨heap₁, heap', ?_, ?_, ?_, ?_⟩
  · simp only [memsetBuf, bufAt, hBuf, Option.bind_eq_bind, Option.bind_some, if_true]
    exact hClear
  · simp only [svcGetargs, bufAt, hBuf₂, hRefers, Option.bind_eq_bind, Option.bind_some, hStore]
  · rw [hStored.read, if_pos rfl]
  · intro p hp
    rw [hStored.read, if_neg hp, read_mallocs, hRefers, hCleared.read, if_neg hp]

variable {args : Option α} {blocks : Nat}

theorem Decoded.rebuffered (h : Decoded x args blocks heap heap') : Rebuffered x heap heap' := by
  refine ⟨⟨_, _, h.buf⟩, fun p a hp hRead => ?_⟩
  rw [h.read p hp, if_neg, hRead]
  intro hMem
  exact absurd (lt_brk_of_read hRead) (Nat.not_lt.mpr (List.mem_range'_1.mp hMem).1)

/-- What has been decoded is left behind, unless nothing was allocated for it. -/
theorem Decoded.released_iff (h : Decoded x args blocks heap heap') (hLive : XprtLive heap x) :
    Released heap heap' ↔ blocks = 0 := by
  obtain ⟨args', refers, hBuf⟩ := hLive.xdrbuf
  have hOld := lt_brk_of_read hBuf
  constructor
  · intro hReleased
    by_contra hSome
    have hMem : heap.brk ∈ List.range' heap.brk blocks := List.mem_range'_1.mpr (by omega)
    have hNone := hReleased heap.brk (Nat.le_refl _)
    rw [h.read _ (Nat.ne_of_gt hOld), if_pos hMem] at hNone
    cases hNone
  · rintro rfl p hLe
    rw [h.read p (by omega), if_neg (by simp), read_of_brk_le hLe]

theorem Decoded.svcFreeargs (h : Decoded x args blocks heap heap') (hLive : XprtLive heap x) :
    ∃ heap'', SimpleWorld.svcFreeargs x.xdrbuf heap' = some heap'' ∧ Rebuffered x heap heap'' ∧
      Released heap heap'' := by
  obtain ⟨args', refers, hBuf⟩ := hLive.xdrbuf
  have hNew : ∀ p ∈ List.range' heap.brk blocks, heap.brk ≤ p ∧ p ≠ x.xdrbuf := by
    intro p hMem
    have hLe := (List.mem_range'_1.mp hMem).1
    exact ⟨hLe, Nat.ne_of_gt ((lt_brk_of_read hBuf).trans_le hLe)⟩
  obtain ⟨heap₁, hFrees, hFreed⟩ := frees_eq (h := heap') List.nodup_range' fun p hMem => by
    rw [h.read p (hNew p hMem).2, if_pos hMem]
    rfl
  have hBuf₁ : heap₁.read x.xdrbuf =
      some (.xdrbuf x.recvsz args (List.range' heap.brk blocks)) := by
    rw [hFreed, if_neg fun hMem => (hNew _ hMem).2 rfl, h.buf]
  obtain ⟨heap'', hStore, hStored⟩ := store_of_read hBuf₁ (.xdrbuf x.recvsz none [])
  have hRead : ∀ p, p ≠ x.xdrbuf → heap''.read p = heap.read p := by
    intro p hp
    rw [hStored.read, if_neg hp, hFreed, h.read p hp]
    split
    · next hMem => exact (read_of_brk_le (hNew p hMem).1).symm
    · rfl
  refine ⟨heap'', ?_, ⟨⟨none, [], ?_⟩, fun p a hp hHeld => ?_⟩, fun p hLe => ?_⟩
  · simp only [SimpleWorld.svcFreeargs, bufAt, h.buf, hFrees, Option.bind_eq_bind, Option.bind_some]
    exact hStore
  · rw [hStored.read, if_pos rfl]
  · rw [hRead p hp, hHeld]
  · rw [hRead p (Nat.ne_of_gt ((lt_brk_of_read hBuf).trans_le hLe)), read_of_brk_le hLe]

/-- A request for which there is an entry. -/
theorem serve_spec (hLive : XprtLive heap x) (hProc : rqst.rqProc ≠ 0) :
    ∃ out heap', serve (entry c x) rqst heap = some (out, heap') ∧ Rebuffered x heap heap' ∧
      (Answers rqst (some c) out ∧ Released heap heap' ↔ AnswersWhen rqst (some c)) := by
  obtain ⟨heap₁, heap₂, hClear, hDecode, hDecoded⟩ := svcGetargs_spec c.inproc rqst.body hLive
  have hReleased := hDecoded.released_iff hLive
  simp only [serve, entry, hClear, hDecode, Option.bind_eq_bind, Option.bind_some, Answers,
    AnswersWhen, if_neg hProc]
  rcases hDec : c.inproc rqst.body with ⟨- | args, blocks⟩
  · rw [hDec] at hReleased hDecoded
    refine ⟨_, heap₂, rfl, hDecoded.rebuffered, ?_⟩
    rw [hReleased]
    cases rqst.sends .decode with
    | false => simp
    | true => simp
  · rw [hDec] at hReleased hDecoded
    simp only
    by_cases hNull : (c.progname args).isNone ∧ c.outproc.isVoid = false
    · refine ⟨_, heap₂, if_pos hNull, hDecoded.rebuffered, ?_⟩
      rw [hReleased]
      simp [hNull, Option.isNone_iff_eq_none.mp hNull.1]
    · have hResult : ¬ (c.progname args = none ∧ c.outproc.isVoid = false) := by
        rwa [Option.isNone_iff_eq_none] at hNull
      by_cases hSends : rqst.sends (.results c.outproc (c.progname args)) = true
      · obtain ⟨heap₃, hFree, hRebuffered, hGone⟩ := hDecoded.svcFreeargs hLive
        refine ⟨⟨[(c.progname, args)], [.results c.outproc (c.progname args)]⟩, heap₃,
          (if_neg hNull).trans ((if_pos hSends).trans ?_), hRebuffered, ?_⟩
        · rw [hFree]
          rfl
        · rw [if_neg hNull]
          simp [hGone, hSends]
      · refine ⟨_, heap₂, (if_neg hNull).trans (if_neg hSends), hDecoded.rebuffered, ?_⟩
        rw [if_neg hNull]
        simp [hResult, hSends]

/-- A request after any registrations. -/
theorem universal_spec {w : SimpleWorld α ρ π} {latest : Option (RpcRegCall α ρ π)}
    (hSound : w.Sound) (hFound : ∀ c, latest = some c → ∃ x, w.found rqst = some (entry c x))
    (hNone : latest = none → w.found rqst = none) :
    ∃ out heap', universal rqst w = some (out, heap') ∧ Sound { w with heap := heap' } ∧
      (Answers rqst latest out ∧ Released w.heap heap' ↔ AnswersWhen rqst latest) := by
  have hNothing : Released w.heap w.heap := fun p hLe => read_of_brk_le hLe
  by_cases hProc : rqst.rqProc = 0
  · refine ⟨_, w.heap, if_pos hProc, hSound, ?_⟩
    simp only [Answers, AnswersWhen, if_pos hProc, and_iff_left hNothing]
    cases rqst.sends (.results .xdrVoid none) with
    | false => simp
    | true => simp
  · have hSearch : search (isFor rqst) rqst.xpNetid w.heap w.proglst = _ := search_eq hSound
    rw [show w.proglst.find? _ = w.found rqst from rfl] at hSearch
    simp only [universal, if_neg hProc, hSearch, Option.bind_eq_bind, Option.bind_some]
    cases latest with
    | none =>
        rw [hNone rfl]
        refine ⟨⟨[], []⟩, w.heap, rfl, hSound, ?_⟩
        simp only [Answers, AnswersWhen, if_neg hProc, Handled.mk.injEq, reduceCtorEq, and_false,
          false_and]
    | some c =>
        obtain ⟨x, hEntry⟩ := hFound c rfl
        have hLive : XprtLive w.heap x := hSound _ (List.mem_of_find?_eq_some hEntry)
        obtain ⟨out, heap', hServe, hRebuffered, hIff⟩ := serve_spec (c := c) hLive hProc
        rw [hEntry]
        exact ⟨out, heap', hServe, fun pl hMem => hRebuffered.live hLive (hSound pl hMem), hIff⟩

end Serve

/-- After any sequence of `rpc_reg`, whatever fails, no entry refers to anything that was destroyed
or freed. A request is answered as it should be, and leaves nothing of its arguments, just when a
registered procedure is called, the reply can be sent, and nothing had been allocated for arguments
that could not be decoded or have no result. -/
theorem simple_answers_iff (svcHead : List (SvcCallout SimpleDispatch))
    (calls : List (RpcRegCall α ρ π)) (rqst : SimpleReq ρ π) :
    ∃ w latest out heap', rpcRegs (start svcHead) calls = some w ∧ w.Sound ∧
      Latest rqst (start svcHead) calls latest ∧
      universal rqst w = some (out, heap') ∧ Sound { w with heap := heap' } ∧
      (Answers rqst latest out ∧ Released w.heap heap' ↔ AnswersWhen rqst latest) := by
  obtain ⟨latest, w, hCalls, hLatest, hSound, hFound⟩ :=
    latest_spec rqst calls (start svcHead) (List.forall_mem_nil _)
  have hSome : ∀ c, latest = some c → ∃ x, w.found rqst = some (entry c x) := by
    rintro c rfl
    exact hFound
  have hNone : latest = none → w.found rqst = none := by
    rintro rfl
    exact hFound
  obtain ⟨out, heap', hUniversal, hSound', hIff⟩ := universal_spec hSound hSome hNone
  exact ⟨w, latest, out, heap', hCalls, hSound, hLatest, hUniversal, hSound', hIff⟩

/-- A program with one procedure, which has neither arguments nor a result. -/
def oneProc : RpcRegCall Unit Unit Unit where
  prognum := 0x20000001
  versnum := 1
  procnum := 1
  progname := fun _ => none
  inproc := fun _ => ⟨some (), 0⟩
  outproc := .xdrVoid
  setconf := some [{
    ncNetid := CString.ascii "tcp"
    tliCreate := some (some ⟨afInet, ipprotoTcp, .stream⟩)
    xdrbufAlloc := true
    netidDup := true
    plAlloc := true
    regDup := true
    regAlloc := true
    rpcbSet := true }]

/-- A call of another procedure of the program. -/
def otherProc : SimpleReq Unit Unit where
  rqProg := 0x20000001
  rqVers := 1
  rqProc := 2
  xpNetid := CString.ascii "tcp"
  body := []
  sends := fun _ => true

/-- The world after the registration. -/
def oneProcWorld : SimpleWorld Unit Unit Unit where
  heap := ⟨[some (.xprt (CString.ascii "tcp")), some (.xdrbuf 65536 none []),
    some (.netid (CString.ascii "tcp"))]⟩
  svcHead := [⟨0x20000001, 1, some (CString.ascii "tcp"), .universal⟩]
  proglst := [entry oneProc ⟨0, 2, 1, 65536⟩]

theorem rpcReg_oneProc : rpcReg oneProc (start []) = some (0, oneProcWorld) := rfl

/-- A call of a procedure that the program does not have is passed to `universal`, and is not
answered. -/
theorem not_simple_answers : ¬ ∀ (svcHead : List (SvcCallout SimpleDispatch))
    (calls : List (RpcRegCall Unit Unit Unit)) (rqst : SimpleReq Unit Unit)
    (w : SimpleWorld Unit Unit Unit) (latest : Option (RpcRegCall Unit Unit Unit)),
    rpcRegs (start svcHead) calls = some w →
    serviceOf rqst.rqProg rqst.rqVers w.svcHead = .dispatch .universal →
    Latest rqst (start svcHead) calls latest →
    ∃ out heap', universal rqst w = some (out, heap') ∧ Answers rqst latest out ∧
      Released w.heap heap' := by
  intro h
  have hNot : ¬ Records otherProc oneProc (start []) := by
    rintro ⟨r, w', new, hRun, hNew, pl, hMem, hFor, -⟩
    rw [rpcReg_oneProc] at hRun
    cases hRun
    have hEntries : [entry oneProc ⟨0, 2, 1, 65536⟩] = new := hNew.trans (List.append_nil new)
    rw [← hEntries, List.mem_singleton] at hMem
    rw [hMem] at hFor
    cases hFor
  have hLatest : Latest otherProc (start []) [oneProc] none :=
    .skip rpcReg_oneProc (.nil oneProcWorld) hNot
  obtain ⟨out, heap', hRun, hAnswers, -⟩ :=
    h [] [oneProc] otherProc oneProcWorld none rfl rfl hLatest
  have hNothing : universal otherProc oneProcWorld = some (⟨[], []⟩, oneProcWorld.heap) := rfl
  rw [hNothing] at hRun
  cases hRun
  cases hAnswers

end SimpleWorld
end OncRpc
