import OncRpc.Rpcbind.Callit

/-! The range of versions that `find_versions` reports. The loop takes a lowest version of 0 for
one that it has not set yet, so that it starts again behind an entry of version 0. -/
namespace OncRpc.Registry

/-- The versions of the entries that are not passed over, in the order of the list. -/
def versions (prog : BitVec 32) (netid : CString) (st : Registry) : List (BitVec 32) :=
  (st.listRbl.filter fun rbl => !decide (Passed prog netid rbl)).map Rpcb.rVers

/-- The lowest and the highest of some versions, or 0 if there are none. -/
def Range (versions : List (BitVec 32)) (range : BitVec 32 × BitVec 32) : Prop :=
  if versions = [] then range = (0, 0)
  else range.1 ∈ versions ∧ range.2 ∈ versions ∧ ∀ v ∈ versions, range.1 ≤ v ∧ v ≤ range.2

/-- No version is 0, or the last is, and then none is above all of those that lie next to it,
with no other 0 among them. -/
def RangeFound (versions : List (BitVec 32)) : Prop :=
  0 ∈ versions → ∃ front segment, versions = front ++ segment ++ [0] ∧ 0 ∉ segment ∧
    ∀ v ∈ front, v = 0 ∨ ∃ w ∈ segment, v ≤ w

/-- What the loop makes of a version. -/
def widen (range : BitVec 32 × BitVec 32) (vers : BitVec 32) : BitVec 32 × BitVec 32 :=
  if range.1 = 0 then (vers, vers)
  else if vers < range.1 then (vers, range.2)
  else if vers > range.2 then (range.1, vers)
  else range

theorem findVersionsFrom_eq (prog : BitVec 32) (netid : CString) (range : BitVec 32 × BitVec 32)
    (list : List Rpcb) :
    findVersionsFrom prog netid range.1 range.2 list =
      ((list.filter fun rbl => !decide (Passed prog netid rbl)).map Rpcb.rVers).foldl
        widen range := by
  induction list generalizing range with
  | nil => rfl
  | cons rbl rest ih =>
      rw [findVersionsFrom]
      split
      · rw [ih]
        simp [*]
      · rename_i hMatch
        simp only [List.filter_cons, hMatch, decide_false, Bool.not_false, if_true,
          List.map_cons, List.foldl_cons]
        rw [← ih]
        unfold widen
        split_ifs <;> rfl

variable {versions front segment : List (BitVec 32)} {range : BitVec 32 × BitVec 32}
  {vers : BitVec 32}

theorem range_nil : Range [] (0, 0) := rfl

theorem range_iff (h : versions ≠ []) :
    Range versions range ↔ range.1 ∈ versions ∧ range.2 ∈ versions ∧
      ∀ v ∈ versions, range.1 ≤ v ∧ v ≤ range.2 := by
  rw [Range, if_neg h]

theorem range_singleton (vers : BitVec 32) : Range [vers] (vers, vers) := by
  rw [range_iff (List.cons_ne_nil _ _)]
  simp

/-- A version that is met when the lowest one is set widens the range. -/
theorem Range.widen (h : Range versions range) (hSome : versions ≠ []) (hSet : range.1 ≠ 0)
    (vers : BitVec 32) :
    Range (versions ++ [vers]) (widen range vers) := by
  obtain ⟨hLow, hHigh, hAll⟩ := (range_iff hSome).mp h
  have hOrder : range.1 ≤ range.2 := (hAll _ hLow).2
  rw [range_iff (by simp)]
  simp only [List.mem_append, List.mem_singleton, or_imp, forall_and, forall_eq]
  unfold Registry.widen
  rw [if_neg hSet]
  split_ifs with hBelow hAbove
  · refine ⟨Or.inr rfl, Or.inl hHigh, ⟨fun v hv => ?_, BitVec.le_refl _⟩,
      fun v hv => (hAll v hv).2, ?_⟩
    · exact BitVec.le_trans (BitVec.le_of_lt hBelow) (hAll v hv).1
    · exact BitVec.le_trans (BitVec.le_of_lt hBelow) hOrder
  · refine ⟨Or.inl hLow, Or.inr rfl, ⟨fun v hv => (hAll v hv).1, BitVec.not_lt.mp hBelow⟩,
      fun v hv => ?_, BitVec.le_refl _⟩
    exact BitVec.le_trans (hAll v hv).2 (BitVec.le_of_lt hAbove)
  · exact ⟨Or.inl hLow, Or.inl hHigh, ⟨fun v hv => (hAll v hv).1, BitVec.not_lt.mp hBelow⟩,
      fun v hv => (hAll v hv).2, BitVec.not_lt.mp hAbove⟩

/-- Versions that are not 0 are taken into the range one after the other. -/
theorem Range.foldl (h : Range versions range) (hSome : versions ≠ []) (hSet : range.1 ≠ 0)
    (hSegment : 0 ∉ segment) :
    Range (versions ++ segment) (segment.foldl Registry.widen range) := by
  induction segment generalizing versions range with
  | nil => rwa [List.append_nil]
  | cons vers segment ih =>
      obtain ⟨hHead, hTail⟩ := not_or.mp (mt List.mem_cons.mpr hSegment)
      have hWidened := h.widen hSome hSet vers
      have hStillSet : (Registry.widen range vers).1 ≠ 0 := by
        unfold Registry.widen
        rw [if_neg hSet]
        split_ifs
        · exact Ne.symm hHead
        · exact hSet
        · exact hSet
      simpa using ih hWidened (by simp) hStillSet hTail

/-- The loop starts again when the lowest version is 0. -/
theorem range_foldl_zero (hZero : range.1 = 0) (hSome : segment ≠ []) (hSegment : 0 ∉ segment) :
    Range segment (segment.foldl Registry.widen range) := by
  cases segment with
  | nil => exact absurd rfl hSome
  | cons vers segment =>
      obtain ⟨hHead, hTail⟩ := not_or.mp (mt List.mem_cons.mpr hSegment)
      have hStart : Registry.widen range vers = (vers, vers) := if_pos hZero
      rw [List.foldl_cons, hStart]
      exact (range_singleton vers).foldl (List.cons_ne_nil _ _) (Ne.symm hHead) hTail

/-- The versions behind the last 0. -/
theorem exists_segment (versions : List (BitVec 32)) :
    ∃ front segment, versions = front ++ segment ∧ 0 ∉ segment ∧
      (front = [] ∨ ∃ before, front = before ++ [0]) := by
  induction versions using List.reverseRecOn with
  | nil => exact ⟨[], [], rfl, List.not_mem_nil, Or.inl rfl⟩
  | append_singleton versions vers ih =>
      obtain ⟨front, segment, rfl, hSegment, hFront⟩ := ih
      by_cases hZero : vers = 0
      · exact ⟨front ++ segment ++ [vers], [], by simp, List.not_mem_nil,
          Or.inr ⟨front ++ segment, by rw [hZero]⟩⟩
      · refine ⟨front, segment ++ [vers], by simp, ?_, hFront⟩
        simpa using ⟨hSegment, Ne.symm hZero⟩

/-- The lowest version is 0 at the start, and behind a 0. -/
theorem foldl_widen_front (h : front = [] ∨ ∃ before, front = before ++ [0]) :
    (front.foldl widen (0, 0)).1 = 0 := by
  rcases h with rfl | ⟨before, rfl⟩
  · rfl
  · rw [List.foldl_append, List.foldl_cons, List.foldl_nil]
    unfold widen
    split_ifs with hSet hBelow hAbove
    · rfl
    · rfl
    · exact absurd ((BitVec.pos_iff_ne_zero _).mpr hSet) hBelow
    · exact absurd ((BitVec.pos_iff_ne_zero _).mpr hSet) hBelow

/-- Behind a 0 the highest version is the one of the segment that the 0 ends, or 0 if there are
no versions in it. -/
theorem foldl_widen_zero (hFront : front = [] ∨ ∃ before, front = before ++ [0])
    (hSegment : 0 ∉ segment) :
    ∃ high, (front ++ segment ++ [0]).foldl widen (0, 0) = (0, high) ∧
      high ∈ segment ++ [0] ∧ ∀ v, v ≤ high ↔ v = 0 ∨ ∃ w ∈ segment, v ≤ w := by
  have hStart := foldl_widen_front hFront
  rw [List.foldl_append, List.foldl_append]
  simp only [List.foldl_cons, List.foldl_nil]
  by_cases hNone : segment = []
  · subst hNone
    refine ⟨0, if_pos hStart, by simp, fun v => ?_⟩
    simp [BitVec.le_zero_iff]
  · have hRange := range_foldl_zero hStart hNone hSegment
    revert hRange
    generalize segment.foldl widen (front.foldl widen (0, 0)) = range
    intro hRange
    obtain ⟨hLow, hHigh, hAll⟩ := (range_iff hNone).mp hRange
    have hSet : range.1 ≠ 0 := fun hZero => hSegment (hZero ▸ hLow)
    refine ⟨range.2, ?_, List.mem_append_left _ hHigh,
      fun v => ⟨fun hv => Or.inr ⟨_, hHigh, hv⟩, ?_⟩⟩
    · have hBelow : 0 < range.1 := (BitVec.pos_iff_ne_zero _).mpr hSet
      rw [widen, if_neg hSet, if_pos hBelow]
    · rintro (rfl | ⟨w, hw, hv⟩)
      · exact Nat.zero_le _
      · exact BitVec.le_trans hv (hAll w hw).2

/-- The segment before the last 0 is the longest without a 0. -/
theorem mem_segment {front' segment' : List (BitVec 32)}
    (hFront : front = [] ∨ ∃ before, front = before ++ [0]) (hSegment' : 0 ∉ segment')
    (h : front ++ segment = front' ++ segment') {v : BitVec 32} (hMem : v ∈ segment') :
    v ∈ segment := by
  rcases List.append_eq_append_iff.mp h with ⟨common, hFront', hSame⟩ | ⟨common, hFront', hSame⟩
  · rw [hSame]
    exact List.mem_append_right _ hMem
  · rcases List.eq_nil_or_concat common with rfl | ⟨rest, last, rfl⟩
    · rwa [hSame] at hMem
    · have hLast : last = 0 := by
        rcases hFront with rfl | ⟨before, rfl⟩
        · simp at hFront'
        · have hEnds := congrArg List.getLast? hFront'
          simpa using hEnds.symm
      rw [hSame] at hSegment'
      exact absurd (by simp [hLast]) hSegment'

theorem range_foldl_iff (versions : List (BitVec 32)) :
    Range versions (versions.foldl widen (0, 0)) ↔ RangeFound versions := by
  by_cases hZero : 0 ∈ versions
  · obtain ⟨front, segment, rfl, hSegment, hFront⟩ := exists_segment versions
    by_cases hNone : segment = []
    · -- the last version is 0: what counts is the segment before it
      subst hNone
      obtain ⟨before, rfl⟩ := hFront.resolve_left fun hNil => by simp [hNil] at hZero
      obtain ⟨front, segment, rfl, hSegment, hFront⟩ := exists_segment before
      obtain ⟨high, hFold, hHigh, hBelow⟩ := foldl_widen_zero hFront hSegment
      rw [List.append_nil, hFold, range_iff (by simp)]
      constructor
      · rintro ⟨-, -, hAll⟩ -
        refine ⟨front, segment, rfl, hSegment, fun v hv => (hBelow v).mp (hAll v ?_).2⟩
        simp [hv]
      · intro hFound
        obtain ⟨front', segment', hSplit, hSegment', hAll⟩ := hFound (by simp)
        have hSame := List.append_cancel_right hSplit
        have hAbove : ∀ v ∈ front' ++ segment' ++ [0], v ≤ high := by
          intro v hv
          rw [hBelow]
          simp only [List.mem_append, List.mem_singleton] at hv
          rcases hv with (hv | hv) | hv
          · refine (hAll v hv).imp id ?_
            rintro ⟨w, hw, hLe⟩
            exact ⟨w, mem_segment hFront hSegment' hSame hw, hLe⟩
          · exact Or.inr ⟨v, mem_segment hFront hSegment' hSame hv, BitVec.le_refl _⟩
          · exact Or.inl hv
        refine ⟨by simp, ?_, fun v hv => ⟨Nat.zero_le _, hAbove v (hSplit ▸ hv)⟩⟩
        exact List.mem_append.mpr ((List.mem_append.mp hHigh).imp (List.mem_append_right _) id)
    · -- the last version is not 0: the loop has forgotten the 0
      refine iff_of_false ?_ ?_
      · rw [List.foldl_append, range_iff (by simp [hNone])]
        have hRange := range_foldl_zero (foldl_widen_front hFront) hNone hSegment
        obtain ⟨hLow, -, -⟩ := (range_iff hNone).mp hRange
        rintro ⟨-, -, hAll⟩
        have hLowZero := BitVec.le_zero_iff.mp (hAll 0 hZero).1
        rw [hLowZero] at hLow
        exact hSegment hLow
      · intro hFound
        obtain ⟨front', segment', hSplit, -, -⟩ := hFound hZero
        have hEnds := congrArg List.getLast? hSplit
        rw [List.getLast?_append_of_ne_nil _ hNone, List.getLast?_append_of_ne_nil _ (by simp),
          List.getLast?_singleton] at hEnds
        exact hSegment (List.mem_of_getLast? hEnds)
  · refine iff_of_true ?_ fun h => absurd h hZero
    by_cases hNone : versions = []
    · rw [hNone]
      exact range_nil
    · exact range_foldl_zero rfl hNone hZero

/-- `find_versions` reports the range of the versions, as far as the loop does not start again
too late. -/
theorem findVersions_range_iff (prog : BitVec 32) (netid : CString) (st : Registry) :
    Range (st.versions prog netid) (st.findVersions prog netid) ↔
      RangeFound (st.versions prog netid) := by
  have hLoop := findVersionsFrom_eq prog netid (0, 0) st.listRbl
  rw [findVersions, hLoop]
  exact range_foldl_iff _

/-- Three versions of one program, the first one not the lowest. -/
def threeVersions : Registry where
  listRbl := [3, 0, 5].map fun vers =>
    { rProg := 100007, rVers := vers, rNetid := CString.ascii "udp", rAddr := [], rOwner := [] }
  listPml := []
  udptrans := CString.ascii "udp"
  tcptrans := CString.ascii "tcp"

/-- The version 0 and the version 3 are forgotten. -/
theorem not_range_threeVersions :
    threeVersions.findVersions 100007 (CString.ascii "udp") = (5, 5) ∧
      ¬ Range (threeVersions.versions 100007 (CString.ascii "udp"))
        (threeVersions.findVersions 100007 (CString.ascii "udp")) := by
  have hFound : threeVersions.findVersions 100007 (CString.ascii "udp") = (5, 5) := by
    decide
  have hVersions : threeVersions.versions 100007 (CString.ascii "udp") = [3, 0, 5] := by
    decide
  refine ⟨hFound, ?_⟩
  rw [hFound, hVersions, range_iff (List.cons_ne_nil _ _)]
  rintro ⟨-, -, hAll⟩
  have hLowest := (hAll 3 List.mem_cons_self).1
  exact absurd hLowest (by decide)

end OncRpc.Registry
