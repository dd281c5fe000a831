import Mathlib.Data.List.DropRight
import OncRpc.Base.OrderedMap

/-! `SimpleConfig`: the configuration of a service, as it is read from a file of sections and keys
and asked for. -/
namespace OncRpc.Service

/-- A `std::string`. -/
abbrev Text := List Char

namespace SimpleConfig

/-- What `trim` takes off. -/
def isBlank (c : Char) : Bool :=
  c == ' ' || c == '\t' || c == '\n' || c == '\r' || c == Char.ofNat 12 || c == Char.ofNat 11

def ltrim (s : Text) : Text := s.dropWhile isBlank

def rtrim (s : Text) : Text := s.rdropWhile isBlank

def trim (s : Text) : Text := ltrim (rtrim s)

/-- `iless::Normalise`. -/
def normalise (ch : Char) : Char :=
  if 'A' ≤ ch ∧ ch ≤ 'Z' then Char.ofNat (ch.toNat + 32)
  else if ch = '/' then '\\' else ch

/-- `iless::Strcasecmp`. A text ends at a NUL. -/
def strcasecmp : Text → Text → Int
  | [], [] => 0
  | [], r :: _ => -((normalise r).toNat : Int)
  | l :: _, [] => (normalise l).toNat
  | l :: ls, r :: rs =>
      if (normalise l).toNat ≠ 0 ∧ normalise l = normalise r then strcasecmp ls rs
      else (normalise l).toNat - (normalise r).toNat

/-- What a name is compared by. -/
def foldName (s : Text) : List Char := (s.takeWhile fun c => c != Char.ofNat 0).map normalise

theorem normalise_toNat (c : Char) :
    (normalise c).toNat = if 'A' ≤ c ∧ c ≤ 'Z' then c.toNat + 32
      else if c = '/' then 92 else c.toNat := by
  unfold normalise
  split
  · next hUpper =>
      have hLt : c.toNat ≤ 90 := hUpper.2
      have hValid : (c.toNat + 32).isValidChar := Or.inl (by omega)
      rw [Char.ofNat, dif_pos hValid]
      rfl
  · split <;> rfl

theorem normalise_eq_zero (c : Char) : (normalise c).toNat = 0 ↔ c = Char.ofNat 0 := by
  rw [normalise_toNat, ← Char.toNat_inj (c := c) (d := Char.ofNat 0)]
  have hZero : (Char.ofNat 0).toNat = 0 := rfl
  rw [hZero]
  split
  · next hUpper =>
      have hLe : 65 ≤ c.toNat := hUpper.1
      omega
  · split
    · next hSlash => exact iff_of_false (by decide) (by rw [hSlash]; decide)
    · exact Iff.rfl

/-- Two names that compare as equal are spelled the same, up to what is normalised and to a NUL. -/
theorem folds_strcasecmp : OrderedMap.Folds strcasecmp foldName := by
  intro l r
  induction l generalizing r with
  | nil =>
      cases r with
      | nil => exact iff_of_true rfl rfl
      | cons c r =>
          rw [strcasecmp, Int.neg_eq_zero, Int.natCast_eq_zero, normalise_eq_zero]
          by_cases hNul : c = Char.ofNat 0 <;> simp [foldName, hNul]
  | cons d l ih =>
      cases r with
      | nil =>
          rw [strcasecmp, Int.natCast_eq_zero, normalise_eq_zero]
          by_cases hNul : d = Char.ofNat 0 <;> simp [foldName, hNul]
      | cons c r =>
          have hNul := normalise_eq_zero d
          have hNul' := normalise_eq_zero c
          unfold strcasecmp
          split
          · next hSame =>
              have hd : d ≠ Char.ofNat 0 := fun h => hSame.1 (hNul.mpr h)
              have hc : c ≠ Char.ofNat 0 := fun h => hSame.1 (hSame.2 ▸ hNul'.mpr h)
              rw [ih r]
              simp [foldName, hd, hc, hSame.2]
          · next hOther =>
              by_cases hd : d = Char.ofNat 0
              · by_cases hc : c = Char.ofNat 0
                · refine iff_of_true ?_ (by simp [foldName, hd, hc])
                  rw [hNul.mpr hd, hNul'.mpr hc]
                  rfl
                · have hPos : (normalise c).toNat ≠ 0 := fun h => hc (hNul'.mp h)
                  refine iff_of_false (by rw [hNul.mpr hd]; omega) (by simp [foldName, hd, hc])
              · have hPos : (normalise d).toNat ≠ 0 := fun h => hd (hNul.mp h)
                have hApart : normalise d ≠ normalise c := fun h => hOther ⟨hPos, h⟩
                refine iff_of_false ?_ ?_
                · intro hZero
                  exact hApart (Char.toNat_inj.mp (by omega))
                · by_cases hc : c = Char.ofNat 0 <;> simp [foldName, hd, hc, hApart]

end SimpleConfig

open SimpleConfig

/-- `values_t`. -/
structure ConfigValues where
  collection : List (Text × Text)
  elements : List (Text × Text)
  deriving DecidableEq, Repr

/-- The sections, in order, with the values of each. -/
structure SimpleConfig where
  sections : List (Text × ConfigValues)
  deriving DecidableEq, Repr

/-- A configuration that is being loaded, with the name of the section at hand. -/
structure ConfigLoad where
  config : SimpleConfig
  current : Text
  deriving DecidableEq, Repr

namespace ConfigValues

def insert (v : ConfigValues) (key value : Text) : ConfigValues where
  collection := OrderedMap.insert strcasecmp v.collection key value
  elements := v.elements ++ [(key, value)]

end ConfigValues

namespace SimpleConfig

def empty : SimpleConfig := ⟨[]⟩

/-- `FetchSection`. -/
def fetchSection (c : SimpleConfig) (section' : Text) : ConfigLoad where
  config := ⟨OrderedMap.insert strcasecmp c.sections section' ⟨[], []⟩⟩
  current := section'

end SimpleConfig

namespace ConfigLoad

/-- `values->insert`. -/
def insert (s : ConfigLoad) (key value : Text) : ConfigLoad :=
  { s with config := ⟨OrderedMap.modify strcasecmp s.config.sections s.current
      fun v => v.insert key value⟩ }

/-- The end of the loop over the lines: `key [= value]`. -/
def loadKey (s : ConfigLoad) (line : Text) : ConfigLoad :=
  match line.findIdx? fun c => c == ' ' || c == '=' with
  | none => if ltrim line = [] then s else s.insert (ltrim line) []
  | some eq =>
      if (line)[eq]? = some ' ' then if ltrim line = [] then s else s.insert (ltrim line) []
      else
        let key := trim (line.take eq)
        let value := (line.drop (eq + 1)).take (line.length - 1)
        if key = [] then s else s.insert key (ltrim value)

/-- The body of the loop over the lines. There is no outcome where it throws. -/
def loadLine (s : ConfigLoad) (line : Text) : Option ConfigLoad :=
  let line := rtrim (line.takeWhile fun c => c != '#')
  match line with
  | [] => some s
  | '[' :: _ =>
      if line.getLast? ≠ some ']' then none
      else some (s.config.fetchSection (trim ((line.drop 1).take (line.length - 2))))
  | _ => some (s.loadKey line)

end ConfigLoad

namespace SimpleConfig

/-- `std::getline`, until there is nothing more, with what there is of a line. -/
def getlines : Text → Text → List Text
  | acc, [] => if acc = [] then [] else [acc]
  | acc, c :: rest => if c = '\n' then acc :: getlines [] rest else getlines (acc ++ [c]) rest

/-- `Load`: the error, if there is one, and what there is then. The file has a text, or there is an
error to open it. -/
def load (c : SimpleConfig) (file : Except Text Text) : Option Text × SimpleConfig :=
  match file with
  | .error e => (some e, c)
  | .ok input =>
      match (getlines [] input).foldlM ConfigLoad.loadLine (c.fetchSection []) with
      | some s => (none, s.config)
      | none => (some "section format error".toList, empty)

/-- What a key of a section leads to. -/
def value? (c : SimpleConfig) (section' key : Text) : Option Text := do
  let values ← OrderedMap.find strcasecmp c.sections section'
  OrderedMap.find strcasecmp values.collection key

/-- `GetValue`. -/
def getValue (c : SimpleConfig) (section' key default' : Text) : Text :=
  (c.value? section' key).getD default'

end SimpleConfig

/-! ### What keys lead to -/

/-- No two sections, and no two keys of one, have the same name. -/
structure SimpleConfig.Inv (c : SimpleConfig) : Prop where
  sections : OrderedMap.Distinct foldName c.sections
  keys : ∀ e ∈ c.sections, OrderedMap.Distinct foldName e.2.collection

/-- The section at hand is there. -/
structure ConfigLoad.Inv (s : ConfigLoad) : Prop where
  config : s.config.Inv
  current : (OrderedMap.find strcasecmp s.config.sections s.current).isSome = true

namespace SimpleConfig

theorem inv_empty : empty.Inv := ⟨OrderedMap.distinct_nil, nofun⟩

/-- Two names are the same. -/
def SameName (s t : Text) : Prop := strcasecmp s t = 0

instance (s t : Text) : Decidable (SameName s t) := inferInstanceAs (Decidable (_ = _))

theorem sameName_iff {s t : Text} : SameName s t ↔ foldName s = foldName t := folds_strcasecmp s t

variable {c : SimpleConfig}

theorem Inv.fetchSection (h : c.Inv) (section' : Text) : (c.fetchSection section').Inv where
  config := by
    refine ⟨h.sections.insert folds_strcasecmp _ _, fun e he => ?_⟩
    change e ∈ OrderedMap.insert strcasecmp c.sections section' ⟨[], []⟩ at he
    unfold OrderedMap.insert at he
    split at he
    · exact h.keys e he
    · rcases (List.mem_orderedInsert _).mp he with rfl | hOld
      · exact OrderedMap.distinct_nil
      · exact h.keys e hOld
  current := by
    show (OrderedMap.find strcasecmp (OrderedMap.insert strcasecmp _ _ _) section').isSome = true
    rw [h.sections.find_insert folds_strcasecmp, if_pos rfl, Option.isSome_or]
    exact Bool.or_true _

/-- A section that is fetched has no keys, or had them before. -/
theorem Inv.value?_fetchSection (h : c.Inv) (name section' key : Text) :
    (c.fetchSection name).config.value? section' key = c.value? section' key := by
  show (OrderedMap.find strcasecmp (OrderedMap.insert strcasecmp _ _ _) section').bind _ = _
  rw [h.sections.find_insert folds_strcasecmp, value?]
  cases OrderedMap.find strcasecmp c.sections section' with
  | some v => rfl
  | none =>
      rw [Option.none_or]
      split <;> rfl

end SimpleConfig

namespace ConfigLoad

variable {s : ConfigLoad}

theorem Inv.insert (h : s.Inv) (key value : Text) : (s.insert key value).Inv where
  config := by
    refine ⟨h.config.sections.modify s.current fun v => v.insert key value, fun e he => ?_⟩
    obtain ⟨e', he', rfl⟩ := List.mem_map.mp he
    dsimp only
    split
    · exact (h.config.keys e' he').insert folds_strcasecmp key value
    · exact h.config.keys e' he'
  current := by
    show (OrderedMap.find strcasecmp (OrderedMap.modify strcasecmp s.config.sections s.current
      fun v => v.insert key value) s.current).isSome = true
    rw [OrderedMap.find_modify folds_strcasecmp, if_pos rfl, Option.isSome_map]
    exact h.current

/-- A key that is inserted leads to its value, unless it was there. -/
theorem Inv.value?_insert (h : s.Inv) (key value section' key' : Text) :
    (s.insert key value).config.value? section' key' =
      (s.config.value? section' key').or
        (if SameName s.current section' ∧ SameName key key' then some value else none) := by
  show (OrderedMap.find strcasecmp (OrderedMap.modify strcasecmp s.config.sections s.current
    fun v => v.insert key value) section').bind _ = _
  rw [OrderedMap.find_modify folds_strcasecmp, value?]
  simp only [sameName_iff]
  by_cases hHere : foldName s.current = foldName section'
  · have hFind : ∃ v, OrderedMap.find strcasecmp s.config.sections section' = some v := by
      obtain ⟨v, hv⟩ := Option.isSome_iff_exists.mp h.current
      obtain ⟨k, hMem, hSame⟩ := OrderedMap.mem_of_find folds_strcasecmp hv
      exact ⟨v, (h.config.sections.find_eq_some folds_strcasecmp).mpr
        ⟨k, hMem, hSame.trans hHere⟩⟩
    obtain ⟨v, hv⟩ := hFind
    obtain ⟨k, hMem, -⟩ := OrderedMap.mem_of_find folds_strcasecmp hv
    rw [if_pos hHere, hv]
    show OrderedMap.find strcasecmp (OrderedMap.insert strcasecmp _ _ _) key' = _
    rw [(h.config.keys _ hMem).find_insert folds_strcasecmp]
    simp only [hHere, true_and]
    rfl
  · rw [if_neg hHere, if_neg (fun hBoth => hHere hBoth.1), Option.or_none]
    rfl

end ConfigLoad

end OncRpc.Service
