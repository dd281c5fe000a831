import OncRpc.Service.SimpleConfig

/-! `GetKeys` of a configuration, and when it lists the keys of a section. -/
namespace OncRpc.Service.SimpleConfig

/-- The configuration after files were loaded, one after another. -/
def loads (files : List (Except Text Text)) : SimpleConfig :=
  files.foldl (fun c file => (c.load file).2) empty

/-- The loop of `GetKeys`, with the two positions that it has. There is no outcome where a position
leaves the collection. -/
def getKeysFrom (collection : List (Text × Text)) (vit vend : Nat) (keys : List Text) :
    Option (List Text) :=
  if vit = vend then some keys
  else
    match collection[vit]? with
    | none => none
    | some e =>
        if vend < collection.length then getKeysFrom collection vit (vend + 1) (keys ++ [e.1])
        else none
termination_by collection.length - vend

/-- What the three overloads of `GetKeys` do with the name of a section: the result, and the keys
that there were with those that are appended. -/
def getKeysOf (c : SimpleConfig) (section' : Text) (keys : List Text) : Option (Bool × List Text) :=
  match OrderedMap.find strcasecmp c.sections section' with
  | none => some (false, keys)
  | some values =>
      (getKeysFrom values.collection 0 values.collection.length keys).map fun keys => (true, keys)

/-- Of a `std::string`. -/
def getKeys (c : SimpleConfig) (section' : Text) (keys : List Text) : Option (Bool × List Text) :=
  c.getKeysOf section' keys

/-- Of a `string_view`. -/
def getKeysView (c : SimpleConfig) (data : Text) (length : Nat) (keys : List Text) :
    Option (Bool × List Text) := c.getKeysOf (data.take length) keys

/-- Of a `const char *`. -/
def getKeysPtr (c : SimpleConfig) (section' : Option Text) (keys : List Text) :
    Option (Bool × List Text) := c.getKeysOf (section'.getD []) keys

/-- `HasSection`. -/
def hasSection (c : SimpleConfig) (section' : Text) : Bool :=
  (OrderedMap.find strcasecmp c.sections section').isSome

/-- Keys are appended, those that lead to a value, each of them once, and the result is whether the
section is there. -/
def KeysRight (c : SimpleConfig) (section' : Text) (keys : List Text)
    (outcome : Option (Bool × List Text)) : Prop :=
  ∃ new, outcome = some (c.hasSection section', keys ++ new) ∧ (new.map foldName).Nodup ∧
    ∀ key, (∃ key' ∈ new, SameName key' key) ↔ (c.value? section' key).isSome = true

variable {c : SimpleConfig} {section' : Text}

/-- The end of the collection is moved in the first round, out of it. -/
theorem getKeysFrom_eq (collection : List (Text × Text)) (keys : List Text) :
    getKeysFrom collection 0 collection.length keys =
      if collection = [] then some keys else none := by
  cases collection with
  | nil =>
      rw [getKeysFrom]
      rfl
  | cons e rest =>
      have hNe : ¬ 0 = (e :: rest).length := nofun
      rw [getKeysFrom, if_neg hNe]
      simp

/-- A section without keys leads to nothing. -/
theorem forall_value?_eq_none_iff :
    (∀ key, c.value? section' key = none) ↔
      ∀ values, OrderedMap.find strcasecmp c.sections section' = some values →
        values.collection = [] := by
  unfold value?
  cases OrderedMap.find strcasecmp c.sections section' with
  | none => exact iff_of_true (fun _ => rfl) nofun
  | some values =>
      constructor
      · intro hNone values' hSame
        cases hSame
        cases hKeys : values.collection with
        | nil => rfl
        | cons e rest =>
            have hFirst := hNone e.1
            rw [Option.bind_eq_bind, Option.bind_some, hKeys,
              OrderedMap.find_eq_none folds_strcasecmp] at hFirst
            exact absurd rfl (hFirst e List.mem_cons_self)
      · intro hNil key
        rw [Option.bind_eq_bind, Option.bind_some, hNil values rfl]
        rfl

/-- `GetKeys` is right for sections without keys only. -/
theorem keysRight_iff (keys : List Text) :
    KeysRight c section' keys (c.getKeysOf section' keys) ↔
      ∀ key, c.value? section' key = none := by
  have hNothing : (∀ key, c.value? section' key = none) →
      ∀ key, (∃ key' ∈ ([] : List Text), SameName key' key) ↔
        (c.value? section' key).isSome = true := by
    intro hNone key
    rw [hNone]
    exact iff_of_false (fun ⟨_, hMem, _⟩ => nomatch hMem) nofun
  rw [forall_value?_eq_none_iff] at hNothing ⊢
  unfold getKeysOf KeysRight hasSection
  cases hFind : OrderedMap.find strcasecmp c.sections section' with
  | none =>
      refine iff_of_true ⟨[], by rw [List.append_nil]; rfl, List.nodup_nil, hNothing ?_⟩ nofun
      rw [hFind]
      exact nofun
  | some values =>
      dsimp only
      rw [getKeysFrom_eq]
      constructor
      · rintro ⟨new, hOutcome, -⟩ values' hSame
        cases hSame
        by_contra hKeys
        rw [if_neg hKeys] at hOutcome
        cases hOutcome
      · intro hNil
        have hKeys := hNil values rfl
        refine ⟨[], by rw [if_pos hKeys, List.append_nil]; rfl, List.nodup_nil, hNothing ?_⟩
        rw [hFind]
        exact hNil

/-- After any files, all of `GetKeys` is right for sections without keys only. -/
theorem getKeys_right_iff (files : List (Except Text Text)) (keys : List Text) :
    (∀ section', KeysRight (loads files) section' keys ((loads files).getKeys section' keys) ↔
        ∀ key, (loads files).value? section' key = none) ∧
      (∀ data length, KeysRight (loads files) (data.take length) keys
          ((loads files).getKeysView data length keys) ↔
        ∀ key, (loads files).value? (data.take length) key = none) ∧
      ∀ section', KeysRight (loads files) (section'.getD []) keys
          ((loads files).getKeysPtr section' keys) ↔
        ∀ key, (loads files).value? (section'.getD []) key = none :=
  ⟨fun _ => keysRight_iff keys, fun _ _ => keysRight_iff keys, fun _ => keysRight_iff keys⟩

/-- A file with one key. -/
theorem not_getKeys_right :
    ¬ ∀ (files : List (Except Text Text)) (section' : Text) (keys : List Text),
      KeysRight (loads files) section' keys ((loads files).getKeys section' keys) := by
  intro h
  have hNone := (keysRight_iff []).mp (h [.ok ['k']] [] []) ['k']
  have hSome : (loads [.ok ['k']]).value? [] ['k'] = some [] := by decide
  rw [hSome] at hNone
  cases hNone

end OncRpc.Service.SimpleConfig
