import Mathlib.Data.List.Nodup
import Mathlib.Logic.Function.Basic

/-! Lists in which every entry has a key of its own, as finite maps from the keys. -/
namespace OncRpc.Keyed

variable {α κ : Type} [DecidableEq κ] {key : α → κ} {l : List α}

/-- The first entry with a key. -/
def lookup (key : α → κ) (l : List α) (k : κ) : Option α := l.find? fun e => decide (key e = k)

/-- No two entries have the same key. -/
def Distinct (key : α → κ) (l : List α) : Prop := (l.map key).Nodup

theorem lookup_eq_none {k : κ} : lookup key l k = none ↔ ∀ e ∈ l, key e ≠ k := by
  simp [lookup]

theorem mem_of_lookup {k : κ} {e : α} (h : lookup key l k = some e) : e ∈ l ∧ key e = k := by
  have hKey := List.find?_some h
  rw [decide_eq_true_eq] at hKey
  exact ⟨List.mem_of_find?_eq_some h, hKey⟩

/-- An entry is the one that its key leads to. -/
theorem Distinct.lookup_eq_some (h : Distinct key l) {k : κ} {e : α} :
    lookup key l k = some e ↔ e ∈ l ∧ key e = k := by
  refine ⟨mem_of_lookup, ?_⟩
  rintro ⟨hMem, rfl⟩
  cases hFound : lookup key l (key e) with
  | none => exact absurd rfl (lookup_eq_none.mp hFound e hMem)
  | some e' =>
      obtain ⟨hMem', hKey⟩ := mem_of_lookup hFound
      rw [List.inj_on_of_nodup_map h hMem' hMem hKey]

theorem Distinct.append (h : Distinct key l) {e : α} (hNew : lookup key l (key e) = none) :
    Distinct key (l ++ [e]) := by
  have hFresh := lookup_eq_none.mp hNew
  rw [Distinct, List.map_append, List.map_singleton, List.nodup_append]
  refine ⟨h, List.nodup_singleton _, ?_⟩
  intro k hk k' hk' hSame
  obtain ⟨e', he', rfl⟩ := List.mem_map.mp hk
  exact hFresh e' he' (hSame.trans (List.mem_singleton.mp hk'))

/-- A new entry at the end is what its key leads to, and nothing else changes. -/
theorem lookup_append {e : α} (hNew : lookup key l (key e) = none) :
    lookup key (l ++ [e]) = Function.update (lookup key l) (key e) (some e) := by
  funext k
  rw [lookup, List.find?_append]
  by_cases hSame : k = key e
  · subst hSame
    rw [Function.update_self, show l.find? (fun e' => decide (key e' = key e)) = none from hNew]
    simp
  · rw [Function.update_of_ne hSame]
    simp [lookup, Ne.symm hSame]

/-- A new entry at the front is what its key leads to, and nothing else changes. -/
theorem lookup_cons (e : α) (l : List α) :
    lookup key (e :: l) = Function.update (lookup key l) (key e) (some e) := by
  funext k
  by_cases hSame : k = key e
  · subst hSame
    simp [lookup]
  · rw [Function.update_of_ne hSame]
    simp [lookup, Ne.symm hSame]

theorem Distinct.cons (h : Distinct key l) {e : α} (hNew : lookup key l (key e) = none) :
    Distinct key (e :: l) := by
  have hFresh := lookup_eq_none.mp hNew
  rw [Distinct, List.map_cons, List.nodup_cons]
  refine ⟨?_, h⟩
  intro hMem
  obtain ⟨e', he', hSame⟩ := List.mem_map.mp hMem
  exact hFresh e' he' hSame

omit [DecidableEq κ] in
/-- The first entry that is tested for is taken out, and no other. -/
theorem Distinct.eraseP_eq_filter_iff (h : Distinct key l) {k : κ} {test own : α → Bool}
    (hKey : ∀ e, own e = true → key e = k) (hTest : ∀ e, own e = true → test e = true) :
    l.eraseP test = l.filter (fun e => !own e) ↔ ∀ e, l.find? test = some e → own e = true := by
  have hUnique : ∀ e ∈ l, ∀ e' ∈ l, own e = true → own e' = true → e = e' :=
    fun e he e' he' hOwn hOwn' =>
      List.inj_on_of_nodup_map h he he' ((hKey e hOwn).trans (hKey e' hOwn').symm)
  rcases List.exists_or_eq_self_of_eraseP test l with
    hSelf | ⟨e, pre, post, hPre, hTested, hl, hErased⟩
  · have hNone := List.eraseP_eq_self_iff.mp hSelf
    constructor
    · intro _ e hFound
      exact absurd (List.find?_some hFound) (hNone e (List.mem_of_find?_eq_some hFound))
    · intro _
      rw [hSelf, eq_comm, List.filter_eq_self]
      intro e hMem
      cases hOwn : own e with
      | false => rfl
      | true => exact absurd (hTest e hOwn) (hNone e hMem)
  · have hFound : l.find? test = some e := by
      rw [List.find?_eq_some_iff_append]
      refine ⟨hTested, pre, post, hl, fun b hMem => ?_⟩
      simpa using hPre b hMem
    have hApart : e ∉ pre ++ post := by
      have hNodup : (pre ++ e :: post).Nodup := hl ▸ h.of_map key
      exact (List.nodup_cons.mp (List.nodup_middle.mp hNodup)).1
    rw [hErased, hFound]
    constructor
    · intro hFilter e' hSame
      obtain rfl := Option.some.inj hSame
      by_contra hOther
      apply hApart
      rw [hFilter, List.mem_filter]
      exact ⟨List.mem_of_find?_eq_some hFound, by simpa using hOther⟩
    · intro hOwn
      have hMine := hOwn e rfl
      have hKeep : (pre ++ post).filter (fun e => !own e) = pre ++ post := by
        rw [List.filter_eq_self]
        intro b hMem
        cases hb : own b with
        | false => rfl
        | true =>
            have hIn : b ∈ l := by
              rw [hl]
              exact List.perm_middle.mem_iff.mpr (List.mem_cons_of_mem e hMem)
            have hSame := hUnique b hIn e (List.mem_of_find?_eq_some hFound) hb hMine
            exact absurd (hSame ▸ hMem) hApart
      rw [hl, List.filter_append, List.filter_cons_of_neg (by simp [hMine]), ← List.filter_append,
        hKeep]

/-- The list with the first entry of a key changed, if there is one. -/
def alter (key : α → κ) (k : κ) (f : α → α) : List α → Option (List α)
  | [] => none
  | e :: rest =>
      if key e = k then some (f e :: rest) else (alter key k f rest).map fun rest => e :: rest

section Alter

variable {k : κ} {f : α → α} {altered : List α}

theorem alter_eq_none : alter key k f l = none ↔ lookup key l k = none := by
  induction l with
  | nil => simp [alter, lookup]
  | cons e rest ih =>
      rw [alter]
      split
      · simp [lookup, *]
      · rename_i hOther
        rw [Option.map_eq_none_iff, ih]
        simp [lookup, hOther]

/-- A change that leaves the key alone leaves the keys alone. -/
theorem map_key_alter (hKey : ∀ e, key (f e) = key e) (h : alter key k f l = some altered) :
    altered.map key = l.map key := by
  induction l generalizing altered with
  | nil => cases h
  | cons e rest ih =>
      rw [alter] at h
      split at h
      · cases h
        simp [hKey]
      · obtain ⟨tail, hTail, rfl⟩ := Option.map_eq_some_iff.mp h
        simp [ih hTail]

theorem Distinct.alter (hDistinct : Distinct key l) (hKey : ∀ e, key (f e) = key e)
    (h : alter key k f l = some altered) : Distinct key altered := by
  rw [Distinct, map_key_alter hKey h]
  exact hDistinct

/-- What the key leads to is changed, and nothing else. -/
theorem lookup_alter (hKey : ∀ e, key (f e) = key e) (h : alter key k f l = some altered) :
    lookup key altered = Function.update (lookup key l) k ((lookup key l k).map f) := by
  induction l generalizing altered with
  | nil => cases h
  | cons e rest ih =>
      rw [Keyed.alter] at h
      split at h
      · rename_i hHere
        cases h
        rw [lookup_cons, lookup_cons, hKey, hHere, Function.update_self, Function.update_idem]
        rfl
      · rename_i hOther
        obtain ⟨tail, hTail, rfl⟩ := Option.map_eq_some_iff.mp h
        rw [lookup_cons, lookup_cons, ih hTail, Function.update_comm hOther,
          Function.update_of_ne (Ne.symm hOther)]

end Alter

end OncRpc.Keyed
