import Mathlib.Data.List.Nodup
import Mathlib.Data.List.Rotate

/-! Singly linked chains in a heap, addressed by the places that hold their links, and
rings that are written round and round. The names of chains and of nodes are arbitrary. -/
namespace Chain

/-- A place that holds a link: the head of a chain, or the link in a node. -/
inductive Slot (κ ν : Type*) where
  | head (k : κ)
  | next (v : ν)
  deriving DecidableEq

variable {κ ν : Type*}

/-- From `slot` the links lead through exactly the nodes `vs` and end. -/
def Linked (link : Slot κ ν → Option ν) : Slot κ ν → List ν → Prop
  | slot, [] => link slot = none
  | slot, v :: vs => link slot = some v ∧ Linked link (.next v) vs

/-- Follow the links until one of them is `victim` or null. -/
def find [DecidableEq ν] (link : Slot κ ν → Option ν) (victim : ν) :
    Nat → Slot κ ν → Option (Slot κ ν)
  | 0, _ => none
  | fuel + 1, slot =>
      match link slot with
      | none => some slot
      | some v => if v = victim then some slot else find link victim fuel (.next v)

/-- Follow the links until they reach a node that is wanted. -/
def search (next : ν → Option ν) (wanted : ν → Bool) : Nat → Option ν → Option (Option ν)
  | _, none => some none
  | 0, some _ => none
  | fuel + 1, some v => if wanted v then some (some v) else search next wanted fuel (next v)

/-- The place of the link behind `vs`, on a chain that starts with them. -/
def slotAfter : Slot κ ν → List ν → Slot κ ν
  | slot, [] => slot
  | _, v :: vs => slotAfter (.next v) vs

variable {link link' : Slot κ ν → Option ν} {slot : Slot κ ν} {vs pre post : List ν} {v : ν}

/-- A chain is where its links are, and the place it starts from does not matter. -/
theorem Linked.congr {slot' : Slot κ ν} (h : Linked link slot vs) (hSlot : link' slot' = link slot)
    (hNext : ∀ v ∈ vs, link' (.next v) = link (.next v)) : Linked link' slot' vs := by
  induction vs generalizing slot slot' with
  | nil => exact hSlot.trans h
  | cons v vs ih =>
      obtain ⟨hHead, hRest⟩ := h
      have hTail := ih hRest (hNext v List.mem_cons_self)
        fun w hw => hNext w (List.mem_cons_of_mem v hw)
      exact ⟨hSlot.trans hHead, hTail⟩

/-- The place behind some nodes is where it was, or in one of them. -/
theorem slotAfter_cases (slot : Slot κ ν) (vs : List ν) :
    slotAfter slot vs = slot ∨ ∃ v ∈ vs, slotAfter slot vs = .next v := by
  induction vs generalizing slot with
  | nil => exact Or.inl rfl
  | cons v vs ih =>
      rcases ih (.next v) with hSame | ⟨w, hw, hLast⟩
      · exact Or.inr ⟨v, List.mem_cons_self, hSame⟩
      · exact Or.inr ⟨w, List.mem_cons_of_mem v hw, hLast⟩

theorem Linked.link_slotAfter (h : Linked link slot (pre ++ v :: post)) :
    link (slotAfter slot pre) = some v := by
  induction pre generalizing slot with
  | nil => exact h.1
  | cons u pre ih => exact ih h.2

/-- The node is found at the place behind those before it. -/
theorem find_slotAfter [DecidableEq ν] {fuel : Nat} (h : Linked link slot (pre ++ v :: post))
    (hNew : v ∉ pre) (hFuel : pre.length < fuel) :
    find link v fuel slot = some (slotAfter slot pre) := by
  induction pre generalizing slot fuel with
  | nil =>
      obtain ⟨fuel, rfl⟩ := Nat.exists_eq_succ_of_ne_zero (Nat.ne_of_gt hFuel)
      simp only [find, h.1, if_true, slotAfter]
  | cons u pre ih =>
      obtain ⟨fuel, rfl⟩ := Nat.exists_eq_succ_of_ne_zero (Nat.ne_of_gt (Nat.zero_lt_of_lt hFuel))
      obtain ⟨hHead, hRest⟩ := h
      have hNe : ¬ u = v := fun hSame => hNew (hSame ▸ List.mem_cons_self)
      have hLater : v ∉ pre := fun hMem => hNew (List.mem_cons_of_mem u hMem)
      have hNext := ih hRest hLater (Nat.lt_of_succ_lt_succ hFuel)
      simp only [find, hHead, if_neg hNe, hNext, slotAfter]

/-- Following a chain meets its first wanted node, if there is one. -/
theorem search_eq {next : ν → Option ν} {wanted : ν → Bool} {fuel : Nat}
    (hNext : ∀ v, link (.next v) = next v) (h : Linked link slot vs) (hFuel : vs.length ≤ fuel) :
    search next wanted fuel (link slot) = some (vs.find? wanted) := by
  induction vs generalizing slot fuel with
  | nil =>
      rw [show link slot = none from h]
      cases fuel <;> rfl
  | cons v vs ih =>
      obtain ⟨hHead, hRest⟩ := h
      obtain ⟨fuel, rfl⟩ := Nat.exists_eq_succ_of_ne_zero (Nat.ne_of_gt (Nat.zero_lt_of_lt hFuel))
      have hLater := ih hRest (Nat.le_of_succ_le_succ hFuel)
      rw [hNext] at hLater
      rw [hHead, search, List.find?_cons]
      cases wanted v with
      | true => rfl
      | false => exact hLater

section Update

variable [DecidableEq κ] [DecidableEq ν]

/-- Writing the link of a node over the link to it takes the node off the chain. -/
theorem Linked.unlink (h : Linked link slot (pre ++ v :: post))
    (hNodup : (pre ++ v :: post).Nodup) (hSlot : ∀ w ∈ pre ++ v :: post, slot ≠ .next w) :
    Linked (Function.update link (slotAfter slot pre) (link (.next v))) slot (pre ++ post) := by
  induction pre generalizing slot with
  | nil =>
      obtain ⟨-, hRest⟩ := h
      have hOther : ∀ w ∈ post, Function.update link slot (link (.next v)) (.next w) =
          link (.next w) := fun w hw =>
        Function.update_of_ne (hSlot w (List.mem_cons_of_mem v hw)).symm _ _
      show Linked (Function.update link slot (link (.next v))) slot post
      cases post with
      | nil =>
          show Function.update link slot (link (.next v)) slot = none
          rw [Function.update_self]
          exact hRest
      | cons w post =>
          obtain ⟨hNext, hTail⟩ := hRest
          refine ⟨by rw [Function.update_self, hNext], hTail.congr (hOther w List.mem_cons_self) ?_⟩
          exact fun u hu => hOther u (List.mem_cons_of_mem w hu)
  | cons u pre ih =>
      obtain ⟨hHead, hRest⟩ := h
      obtain ⟨hNew, hNodup'⟩ := List.nodup_cons.mp hNodup
      have hApart : ∀ w ∈ pre ++ v :: post, (Slot.next u : Slot κ ν) ≠ .next w := by
        rintro w hw ⟨rfl⟩
        exact hNew hw
      have hTail := ih hRest hNodup' hApart
      refine ⟨?_, hTail⟩
      rw [← hHead]
      apply Function.update_of_ne
      rcases slotAfter_cases (.next u) pre with hSame | ⟨w, hw, hLast⟩
      · rw [slotAfter, hSame]
        exact hSlot u List.mem_cons_self
      · rw [slotAfter, hLast]
        exact hSlot w (List.mem_cons_of_mem u (List.mem_append_left _ hw))

/-- A change at a place that a chain does not use leaves the chain as it is. -/
theorem Linked.update_of_ne {place : Slot κ ν} {p : Option ν} (h : Linked link slot vs)
    (hSlot : slot ≠ place) (hNext : ∀ w ∈ vs, Slot.next w ≠ place) :
    Linked (Function.update link place p) slot vs :=
  h.congr (Function.update_of_ne hSlot _ _) fun w hw => Function.update_of_ne (hNext w hw) _ _

end Update

section Ring

variable {α : Type*}

/-- Writing under the hand and moving it on puts the new cell last. -/
theorem rotate_set_succ {ring : List α} {hand : Nat} (x : α) (h : hand < ring.length) :
    (ring.set hand x).rotate ((hand + 1) % ring.length) = (ring.rotate hand).tail ++ [x] := by
  have hRotate : ring.rotate hand = ring.drop hand ++ ring.take hand :=
    List.rotate_eq_drop_append_take (le_of_lt h)
  have hDrop : (ring.drop hand).tail = ring.drop (hand + 1) := by rw [List.tail_drop]
  have hNonempty : ring.drop hand ≠ [] := by
    intro hNil
    rw [List.drop_eq_nil_iff] at hNil
    omega
  have hSet : ring.set hand x = (ring.take hand ++ [x]) ++ ring.drop (hand + 1) := by
    rw [List.set_eq_take_append_cons_drop, if_pos h, List.append_assoc, List.singleton_append]
  have hLen : (ring.take hand ++ [x]).length = hand + 1 := by
    rw [List.length_append, List.length_take_of_le (le_of_lt h), List.length_singleton]
  rw [hRotate, List.tail_append_of_ne_nil hNonempty, hDrop, hSet]
  rcases Nat.lt_or_ge (hand + 1) ring.length with hLt | hGe
  · rw [Nat.mod_eq_of_lt hLt, List.rotate_eq_drop_append_take (by simp; omega),
      List.drop_left' hLen, List.take_left' hLen, List.append_assoc]
  · have hEnd : hand + 1 = ring.length := by omega
    rw [hEnd, Nat.mod_self, List.rotate_zero, List.drop_length, List.append_nil, List.nil_append]

end Ring
end Chain
