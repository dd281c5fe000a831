import OncRpc.Service.SimpleConfig

/-! What a configuration text says, line by line, and when that is what is loaded of it. -/
namespace OncRpc.Service

open SimpleConfig

/-- A line without its comment. -/
inductive ConfigLine where
  | blank (space : Text)
  | header (name space : Text)
  | alone (lead key trail : Text)
  | assign (lead key mid value : Text)
  deriving DecidableEq, Repr

namespace ConfigLine

def text : ConfigLine → Text
  | .blank space => space
  | .header name space => '[' :: (name ++ ']' :: space)
  | .alone lead key trail => lead ++ (key ++ trail)
  | .assign lead key mid value => lead ++ (key ++ (mid ++ '=' :: value))

/-- White space within a line. -/
def IsSpace (s : Text) : Prop := ∀ c ∈ s, isBlank c = true ∧ c ≠ '\n'

/-- A key, behind some white space. A line that begins with a bracket is a header. -/
structure IsKey (lead key : Text) : Prop where
  space : IsSpace lead
  ne_nil : key ≠ []
  chars : ∀ c ∈ key, isBlank c = false ∧ c ≠ '#' ∧ c ≠ '='
  notHeader : lead = [] → key.head? ≠ some '['

def WellFormed : ConfigLine → Prop
  | .blank space => IsSpace space
  | .header name space => (∀ c ∈ name, c ≠ '#' ∧ c ≠ '\n') ∧ IsSpace space
  | .alone lead key trail => IsKey lead key ∧ IsSpace trail
  | .assign lead key mid value =>
      IsKey lead key ∧ IsSpace mid ∧ ∀ c ∈ value, c ≠ '#' ∧ c ≠ '=' ∧ c ≠ '\n'

/-- No blank stands before the `=`. -/
def Plain : ConfigLine → Prop
  | .assign lead _ mid _ => ' ' ∉ lead ∧ ' ' ∉ mid
  | _ => True

instance : DecidablePred Plain := fun l => by
  cases l <;> unfold Plain <;> infer_instance

end ConfigLine

/-- A line of a text, which may end with a comment. -/
structure CommentedLine where
  line : ConfigLine
  comment : Option Text
  wellFormed : line.WellFormed
  within : ∀ c ∈ comment.getD [], c ≠ '\n'

namespace CommentedLine

def text (l : CommentedLine) : Text := l.line.text ++ l.comment.elim [] fun c => '#' :: c

end CommentedLine

/-- A text of such lines, of which the last one may go without its line end. -/
def configText (lines : List CommentedLine) (ended : Bool) : Text :=
  match lines with
  | [] => []
  | [l] => l.text ++ if ended then ['\n'] else []
  | l :: l' :: rest => l.text ++ '\n' :: configText (l' :: rest) ended

/-- The keys and values of the lines, with their sections. -/
def entriesFrom : Text → List ConfigLine → List (Text × Text × Text)
  | _, [] => []
  | section', .blank _ :: rest => entriesFrom section' rest
  | _, .header name _ :: rest => entriesFrom (trim name) rest
  | section', .alone _ key _ :: rest => (section', key, []) :: entriesFrom section' rest
  | section', .assign _ key _ value :: rest =>
      (section', key, trim value) :: entriesFrom section' rest

/-- The value of the first line with a key in the sections of a name. -/
def firstValue (entries : List (Text × Text × Text)) (section' key : Text) : Option Text :=
  (entries.find? fun e => decide (SameName e.1 section' ∧ SameName e.2.1 key)).map fun e => e.2.2

/-- The text is loaded, and what is got of it is what it says. -/
def LoadedRight (lines : List CommentedLine) (ended : Bool) : Prop :=
  ∃ c, SimpleConfig.empty.load (.ok (configText lines ended)) = (none, c) ∧
    ∀ section' key default', c.getValue section' key default' =
      (firstValue (entriesFrom [] (lines.map CommentedLine.line)) section' key).getD default'

/-! ### Trimming -/

theorem rtrim_append_space {s t : Text} (h : ∀ c ∈ t, isBlank c = true) :
    rtrim (s ++ t) = rtrim s := by
  induction t using List.reverseRecOn with
  | nil => rw [List.append_nil]
  | append_singleton t c ih =>
      rw [rtrim, ← List.append_assoc, List.rdropWhile_concat_pos _ _ _ (h c (by simp))]
      exact ih fun d hd => h d (List.mem_append_left _ hd)

theorem rtrim_append_cons (s t : Text) {c : Char} (h : isBlank c = false) :
    rtrim (s ++ c :: t) = s ++ c :: rtrim t := by
  induction t using List.reverseRecOn with
  | nil => exact List.rdropWhile_concat_neg _ _ _ (by rw [h]; exact nofun)
  | append_singleton t d ih =>
      rw [← List.cons_append, ← List.append_assoc, rtrim, List.rdropWhile_concat, rtrim,
        List.rdropWhile_concat]
      split
      · exact ih
      · simp

theorem ltrim_append_space {s t : Text} (h : ∀ c ∈ s, isBlank c = true) :
    ltrim (s ++ t) = ltrim t := List.dropWhile_append_of_pos h

theorem ltrim_cons {c : Char} (h : isBlank c = false) (t : Text) : ltrim (c :: t) = c :: t :=
  List.dropWhile_cons_of_neg (by rw [h]; exact nofun)

namespace ConfigLine

variable {lead key : Text}

theorem IsSpace.blank {s : Text} (h : IsSpace s) : ∀ c ∈ s, isBlank c = true :=
  fun c hc => (h c hc).1

theorem IsSpace.ne {s : Text} (h : IsSpace s) : ∀ c ∈ s, c ≠ '#' ∧ c ≠ '=' ∧ c ≠ '[' := by
  intro c hc
  have hBlank := h.blank c hc
  refine ⟨?_, ?_, ?_⟩ <;> rintro rfl <;> cases hBlank

/-- A key is its own when it is trimmed, with white space around it. -/
theorem IsKey.trim_eq (h : IsKey lead key) {trail : Text} (hTrail : ∀ c ∈ trail, isBlank c = true) :
    rtrim (lead ++ (key ++ trail)) = lead ++ key ∧ ltrim (lead ++ key) = key := by
  constructor
  · rw [← List.append_assoc, rtrim_append_space hTrail]
    obtain ⟨init, last, rfl⟩ := List.eq_nil_or_concat key |>.resolve_left h.ne_nil
    rw [List.concat_eq_append, ← List.append_assoc,
      rtrim_append_cons _ _ (h.chars last (by simp)).1]
    rfl
  · rw [ltrim_append_space h.space.blank]
    cases key with
    | nil => exact absurd rfl h.ne_nil
    | cons c key => exact ltrim_cons (h.chars c List.mem_cons_self).1 key

end ConfigLine

/-! ### What a line does -/

/-- The key that is stored for a line with a blank before the `=`. -/
def ConfigLine.misread (lead key mid value : Text) : Text :=
  ltrim (rtrim (lead ++ (key ++ (mid ++ '=' :: value))))

namespace ConfigLoad

variable (s : ConfigLoad)

/-- What a line comes to. -/
def after : ConfigLine → ConfigLoad
  | .blank _ => s
  | .header name _ => s.config.fetchSection (trim name)
  | .alone _ key _ => s.insert key []
  | .assign lead key mid value =>
      if ' ' ∉ lead ∧ ' ' ∉ mid then s.insert key (trim value)
      else s.insert (ConfigLine.misread lead key mid value) []

variable {line : Text}

theorem loadKey_of_blank (h : line.findIdx? (fun c => c == ' ' || c == '=') = none ∨
      ∃ eq, line.findIdx? (fun c => c == ' ' || c == '=') = some eq ∧ (line)[eq]? = some ' ')
    (hKey : ltrim line ≠ []) : s.loadKey line = s.insert (ltrim line) [] := by
  unfold loadKey
  rcases h with hNone | ⟨eq, hSome, hBlank⟩
  · rw [hNone]
    exact if_neg hKey
  · rw [hSome]
    exact (if_pos hBlank).trans (if_neg hKey)

/-- Without `=`, all of a line is the key. -/
theorem loadKey_alone (h : '=' ∉ line) (hKey : ltrim line ≠ []) :
    s.loadKey line = s.insert (ltrim line) [] := by
  refine s.loadKey_of_blank ?_ hKey
  cases hFind : line.findIdx? (fun c => c == ' ' || c == '=') with
  | none => exact Or.inl rfl
  | some eq =>
      obtain ⟨hLt, hIs, -⟩ := List.findIdx?_eq_some_iff_getElem.mp hFind
      refine Or.inr ⟨eq, rfl, ?_⟩
      rw [Bool.or_eq_true, beq_iff_eq, beq_iff_eq] at hIs
      rw [List.getElem?_eq_getElem hLt]
      rcases hIs with hBlank | hEq
      · rw [hBlank]
      · exact absurd (hEq ▸ List.getElem_mem hLt) h

/-- With a blank before the `=` it is too. -/
theorem loadKey_misread {a r : Text} (hEq : '=' ∉ a) (hBlank : ' ' ∈ a)
    (hKey : ltrim (a ++ '=' :: r) ≠ []) :
    s.loadKey (a ++ '=' :: r) = s.insert (ltrim (a ++ '=' :: r)) [] := by
  refine s.loadKey_of_blank (Or.inr ?_) hKey
  have hSome : (a.findIdx? fun c => c == ' ' || c == '=').isSome = true := by
    rw [List.findIdx?_isSome, List.any_eq_true]
    exact ⟨' ', hBlank, rfl⟩
  obtain ⟨eq, hFind⟩ := Option.isSome_iff_exists.mp hSome
  obtain ⟨hLt, hIs, -⟩ := List.findIdx?_eq_some_iff_getElem.mp hFind
  refine ⟨eq, by rw [List.findIdx?_append, hFind, Option.some_or], ?_⟩
  rw [List.getElem?_append_left hLt, List.getElem?_eq_getElem hLt]
  rw [Bool.or_eq_true, beq_iff_eq, beq_iff_eq] at hIs
  rcases hIs with hIs | hIs
  · rw [hIs]
  · exact absurd (hIs ▸ List.getElem_mem hLt) hEq

/-- Otherwise the key is before it and the value behind. -/
theorem loadKey_assign {a r : Text} (hEq : '=' ∉ a) (hBlank : ' ' ∉ a) (hKey : trim a ≠ []) :
    s.loadKey (a ++ '=' :: r) = s.insert (trim a) (ltrim r) := by
  have hFind : (a ++ '=' :: r).findIdx? (fun c => c == ' ' || c == '=') = some a.length := by
    have hNone : a.findIdx? (fun c => c == ' ' || c == '=') = none := by
      rw [List.findIdx?_eq_none_iff]
      intro c hc
      rw [Bool.or_eq_false_iff, beq_eq_false_iff_ne, beq_eq_false_iff_ne]
      exact ⟨fun h => hBlank (h ▸ hc), fun h => hEq (h ▸ hc)⟩
    rw [List.findIdx?_append, hNone, Option.none_or]
    simp [List.findIdx?_cons]
  have hAt : (a ++ '=' :: r)[a.length]? = some '=' := by simp
  have hValue : ((a ++ '=' :: r).drop (a.length + 1)).take ((a ++ '=' :: r).length - 1) = r := by
    rw [← List.drop_drop, List.drop_left, List.drop_one, List.tail_cons]
    apply List.take_of_length_le
    rw [List.length_append, List.length_cons]
    omega
  unfold loadKey
  rw [hFind]
  dsimp only
  rw [hAt, if_neg (by decide), List.take_left, if_neg hKey, hValue]

theorem loadLine_of_head (h : rtrim (line.takeWhile fun c => c != '#') ≠ [])
    (hHead : (rtrim (line.takeWhile fun c => c != '#')).head? ≠ some '[') :
    s.loadLine line = some (s.loadKey (rtrim (line.takeWhile fun c => c != '#'))) := by
  unfold loadLine
  dsimp only
  split
  · next hNil => exact absurd hNil h
  · next hLine => exact absurd (by rw [hLine]; rfl) hHead
  · rfl

end ConfigLoad

/-- No line of a text has a `#` or a line end within. -/
theorem ConfigLine.WellFormed.chars {l : ConfigLine} (h : l.WellFormed) :
    ∀ c ∈ l.text, c ≠ '#' ∧ c ≠ '\n' := by
  have hSpace : ∀ {s : Text}, IsSpace s → ∀ c ∈ s, c ≠ '#' ∧ c ≠ '\n' :=
    fun hs c hc => ⟨(hs.ne c hc).1, (hs c hc).2⟩
  have hKeys : ∀ {lead key : Text}, IsKey lead key → ∀ c ∈ key, c ≠ '#' ∧ c ≠ '\n' := by
    intro lead key hKey c hc
    refine ⟨(hKey.chars c hc).2.1, ?_⟩
    rintro rfl
    cases (hKey.chars _ hc).1
  intro c hc
  cases l with
  | blank space => exact hSpace h c hc
  | header name space =>
      simp only [text, List.mem_cons, List.mem_append] at hc
      rcases hc with rfl | hc | rfl | hc
      · decide
      · exact h.1 c hc
      · decide
      · exact hSpace h.2 c hc
  | alone lead key trail =>
      simp only [text, List.mem_append] at hc
      rcases hc with hc | hc | hc
      · exact hSpace h.1.space c hc
      · exact hKeys h.1 c hc
      · exact hSpace h.2 c hc
  | assign lead key mid value =>
      simp only [text, List.mem_cons, List.mem_append] at hc
      rcases hc with hc | hc | hc | rfl | hc
      · exact hSpace h.1.space c hc
      · exact hKeys h.1 c hc
      · exact hSpace h.2.1 c hc
      · decide
      · exact ⟨(h.2.2 c hc).1, (h.2.2 c hc).2.2⟩

/-- A comment is not looked at. -/
theorem CommentedLine.takeWhile_text (l : CommentedLine) :
    (l.text.takeWhile fun c => c != '#') = l.line.text := by
  have hAll : ∀ c ∈ l.line.text, (c != '#') = true :=
    fun c hc => bne_iff_ne.mpr (l.wellFormed.chars c hc).1
  rw [CommentedLine.text, List.takeWhile_append_of_pos hAll]
  cases l.comment with
  | none => exact List.append_nil _
  | some comment => exact List.append_nil _

namespace ConfigLine

variable {lead key mid : Text}

/-- Behind the `=` a line is trimmed, and before it there is none. -/
theorem rtrim_assign (lead key mid value : Text) : rtrim (lead ++ (key ++ (mid ++ '=' :: value))) =
    (lead ++ (key ++ mid)) ++ '=' :: rtrim value := by
  have h := rtrim_append_cons (lead ++ (key ++ mid)) value (show isBlank '=' = false from rfl)
  rw [← h]
  simp

theorem IsKey.not_mem (hKey : IsKey lead key) (hMid : IsSpace mid) :
    '=' ∉ lead ++ (key ++ mid) := by
  intro h
  simp only [List.mem_append] at h
  rcases h with h | h | h
  · exact (hKey.space.ne _ h).2.1 rfl
  · exact (hKey.chars _ h).2.2 rfl
  · exact (hMid.ne _ h).2.1 rfl

theorem IsKey.blank_mem (hKey : IsKey lead key) :
    ' ' ∈ lead ++ (key ++ mid) ↔ ¬ (' ' ∉ lead ∧ ' ' ∉ mid) := by
  have hNot : ' ' ∉ key := by
    intro h
    cases (hKey.chars _ h).1
  simp only [List.mem_append, hNot, false_or]
  tauto

/-- What is stored for a misread line has the `=` within. -/
theorem IsKey.misread_eq (hKey : IsKey lead key) (mid value : Text) :
    misread lead key mid value = key ++ (mid ++ '=' :: rtrim value) := by
  rw [misread, rtrim_assign, List.append_assoc, ltrim_append_space hKey.space.blank]
  obtain ⟨c, rest, rfl⟩ := List.exists_cons_of_ne_nil hKey.ne_nil
  rw [List.cons_append, List.cons_append, ltrim_cons (hKey.chars c List.mem_cons_self).1]
  simp

/-- A line with a key does not begin as a header does. -/
theorem IsKey.head (hKey : IsKey lead key) (t : Text) :
    lead ++ (key ++ t) ≠ [] ∧ (lead ++ (key ++ t)).head? ≠ some '[' := by
  obtain ⟨c, rest, rfl⟩ := List.exists_cons_of_ne_nil hKey.ne_nil
  cases lead with
  | nil => exact ⟨nofun, hKey.notHeader rfl⟩
  | cons d lead =>
      refine ⟨nofun, ?_⟩
      intro h
      exact (hKey.space.ne d List.mem_cons_self).2.2 (Option.some.inj h)

end ConfigLine

/-- A line of a text does what it comes to. -/
theorem ConfigLoad.loadLine_eq (s : ConfigLoad) (l : CommentedLine) :
    s.loadLine l.text = some (s.after l.line) := by
  have hLine := l.takeWhile_text
  have hForm := l.wellFormed
  cases hKind : l.line with
  | blank space =>
      rw [hKind] at hLine hForm
      have hNone : rtrim (ConfigLine.blank space).text = [] :=
        List.rdropWhile_eq_nil_iff.mpr hForm.blank
      unfold loadLine
      rw [hLine, hNone]
      rfl
  | header name space =>
      rw [hKind] at hLine hForm
      have hTrim : rtrim (ConfigLine.header name space).text = '[' :: (name ++ [']']) := by
        have hRest := rtrim_append_cons ('[' :: name) space (show isBlank ']' = false from rfl)
        rw [show rtrim space = [] from List.rdropWhile_eq_nil_iff.mpr hForm.2.blank] at hRest
        exact hRest
      unfold loadLine
      rw [hLine, hTrim]
      have hLast : ('[' :: (name ++ [']'])).getLast? = some ']' := by
        rw [← List.cons_append, List.getLast?_concat]
      have hName : (('[' :: (name ++ [']'])).drop 1).take (('[' :: (name ++ [']'])).length - 2) =
          name := by simp
      dsimp only
      rw [hLast, if_neg (fun h => h rfl), hName]
      rfl
  | alone lead key trail =>
      rw [hKind] at hLine hForm
      obtain ⟨hKey, hTrail⟩ := hForm
      obtain ⟨hTrim, hIs⟩ := hKey.trim_eq hTrail.blank
      rw [← show (ConfigLine.alone lead key trail).text = lead ++ (key ++ trail) from rfl,
        ← hLine] at hTrim
      obtain ⟨hSome, hHead⟩ := hKey.head []
      rw [List.append_nil] at hSome hHead
      rw [loadLine_of_head s (by rw [hTrim]; exact hSome) (by rw [hTrim]; exact hHead), hTrim,
        loadKey_alone, hIs]
      · rfl
      · have hNot := hKey.not_mem (show ConfigLine.IsSpace [] from nofun)
        rwa [List.append_nil] at hNot
      · rw [hIs]
        exact hKey.ne_nil
  | assign lead key mid value =>
      rw [hKind] at hLine hForm
      obtain ⟨hKey, hMid, hValue⟩ := hForm
      have hTrim := ConfigLine.rtrim_assign lead key mid value
      have hMisread := hKey.misread_eq mid value
      rw [ConfigLine.misread, hTrim] at hMisread
      rw [← show (ConfigLine.assign lead key mid value).text =
        lead ++ (key ++ (mid ++ '=' :: value)) from rfl, ← hLine] at hTrim
      obtain ⟨hSome, hHead⟩ := hKey.head (mid ++ '=' :: rtrim value)
      have hSplit : lead ++ (key ++ mid) ++ '=' :: rtrim value =
          lead ++ (key ++ (mid ++ '=' :: rtrim value)) := by simp
      rw [loadLine_of_head s (by rw [hTrim, hSplit]; exact hSome)
        (by rw [hTrim, hSplit]; exact hHead), hTrim]
      unfold after
      dsimp only
      by_cases hPlain : ' ' ∉ lead ∧ ' ' ∉ mid
      · obtain ⟨hBoth, hIs⟩ := hKey.trim_eq hMid.blank
        have hTrimmed : trim (lead ++ (key ++ mid)) = key := by rw [trim, hBoth, hIs]
        rw [loadKey_assign s (hKey.not_mem hMid), hTrimmed]
        · exact (congrArg some (if_pos hPlain)).symm
        · exact fun h => hKey.blank_mem.mp h hPlain
        · rw [hTrimmed]
          exact hKey.ne_nil
      · rw [loadKey_misread s (hKey.not_mem hMid) (hKey.blank_mem.mpr hPlain)]
        · rw [if_neg hPlain, ConfigLine.misread, ConfigLine.rtrim_assign]
        · rw [hMisread]
          simp

/-! ### What a text comes to -/

/-- What is inserted for the lines, with their sections. -/
def loadedFrom : Text → List ConfigLine → List (Text × Text × Text)
  | _, [] => []
  | section', .blank _ :: rest => loadedFrom section' rest
  | _, .header name _ :: rest => loadedFrom (trim name) rest
  | section', .alone _ key _ :: rest => (section', key, []) :: loadedFrom section' rest
  | section', .assign lead key mid value :: rest =>
      (if ' ' ∉ lead ∧ ' ' ∉ mid then (section', key, trim value)
        else (section', ConfigLine.misread lead key mid value, [])) :: loadedFrom section' rest

theorem firstValue_cons (e : Text × Text × Text) (es : List (Text × Text × Text))
    (section' key : Text) :
    firstValue (e :: es) section' key =
      (if SameName e.1 section' ∧ SameName e.2.1 key then some e.2.2 else none).or
        (firstValue es section' key) := by
  unfold firstValue
  rw [List.find?_cons]
  by_cases hIs : SameName e.1 section' ∧ SameName e.2.1 key
  · rw [if_pos hIs, decide_eq_true hIs]
    rfl
  · rw [if_neg hIs, decide_eq_false hIs, Option.none_or]

/-- The lines of a text, one after another. -/
theorem ConfigLoad.Inv.after_lines {s : ConfigLoad} (h : s.Inv) (lines : List ConfigLine) :
    ∀ section' key, (lines.foldl ConfigLoad.after s).config.value? section' key =
      (s.config.value? section' key).or (firstValue (loadedFrom s.current lines) section' key) := by
  induction lines generalizing s with
  | nil =>
      intro section' key
      exact (Option.or_none).symm
  | cons l lines ih =>
      intro section' key
      rw [List.foldl_cons]
      have hInsert : ∀ k v,
          (lines.foldl ConfigLoad.after (s.insert k v)).config.value? section' key =
            (s.config.value? section' key).or
              (firstValue ((s.current, k, v) :: loadedFrom s.current lines) section' key) := by
        intro k v
        rw [ih (h.insert k v), h.value?_insert, firstValue_cons, Option.or_assoc]
        rfl
      cases l with
      | blank space => exact ih h section' key
      | header name space =>
          have hNext := ih (h.config.fetchSection (trim name)) section' key
          rw [h.config.value?_fetchSection] at hNext
          exact hNext
      | alone lead k trail => exact hInsert k []
      | assign lead k mid v =>
          unfold ConfigLoad.after loadedFrom
          dsimp only
          split
          · exact hInsert k (trim v)
          · exact hInsert _ []

theorem getlines_append {t : Text} (h : ∀ c ∈ t, c ≠ '\n') (acc rest : Text) :
    getlines acc (t ++ '\n' :: rest) = (acc ++ t) :: getlines [] rest := by
  induction t generalizing acc with
  | nil =>
      rw [List.append_nil]
      exact if_pos rfl
  | cons c t ih =>
      rw [List.cons_append, getlines, if_neg (h c List.mem_cons_self),
        ih fun d hd => h d (List.mem_cons_of_mem c hd)]
      simp

theorem getlines_end {t : Text} (h : ∀ c ∈ t, c ≠ '\n') (acc : Text) :
    getlines acc t = if acc ++ t = [] then [] else [acc ++ t] := by
  induction t generalizing acc with
  | nil =>
      rw [List.append_nil]
      rfl
  | cons c t ih =>
      rw [getlines, if_neg (h c List.mem_cons_self),
        ih fun d hd => h d (List.mem_cons_of_mem c hd)]
      simp

theorem CommentedLine.text_chars (l : CommentedLine) : ∀ c ∈ l.text, c ≠ '\n' := by
  intro c hc
  rcases List.mem_append.mp hc with hc | hc
  · exact (l.wellFormed.chars c hc).2
  · have hWithin := l.within
    cases hComment : l.comment with
    | none =>
        rw [hComment] at hc
        cases hc
    | some comment =>
        rw [hComment] at hc hWithin
        rcases List.mem_cons.mp hc with rfl | hc
        · decide
        · exact hWithin c hc

/-- A text is loaded line by line. An empty last line without an end is no line, nor does it do
anything. -/
theorem foldlM_getlines (lines : List CommentedLine) (ended : Bool) (s : ConfigLoad) :
    (getlines [] (configText lines ended)).foldlM ConfigLoad.loadLine s =
      some ((lines.map CommentedLine.line).foldl ConfigLoad.after s) := by
  induction lines generalizing s with
  | nil => rfl
  | cons l lines ih =>
      have hLine := s.loadLine_eq l
      have hChars := l.text_chars
      cases lines with
      | nil =>
          cases ended with
          | true =>
              rw [configText, if_pos rfl, getlines_append hChars]
              rw [List.nil_append, List.foldlM_cons, hLine]
              rfl
          | false =>
              rw [configText, if_neg Bool.false_ne_true, List.append_nil, getlines_end hChars]
              rw [List.nil_append]
              split
              · next hEmpty =>
                  rw [hEmpty] at hLine
                  exact hLine
              · rw [List.foldlM_cons, hLine]
                rfl
      | cons l' lines =>
          rw [configText, getlines_append hChars, List.nil_append, List.foldlM_cons, hLine]
          exact ih _

/-- What keys lead to when a text is loaded. -/
theorem load_configText (lines : List CommentedLine) (ended : Bool) :
    ∃ c, SimpleConfig.empty.load (.ok (configText lines ended)) = (none, c) ∧
      ∀ section' key, c.value? section' key =
        firstValue (loadedFrom [] (lines.map CommentedLine.line)) section' key := by
  have hStart := SimpleConfig.inv_empty.fetchSection []
  refine ⟨_, by rw [SimpleConfig.load, foldlM_getlines], fun section' key => ?_⟩
  rw [hStart.after_lines, SimpleConfig.inv_empty.value?_fetchSection]
  exact Option.none_or

/-- A text is loaded as it should be when what is inserted is what it says. -/
theorem loadedRight_iff_forall (lines : List CommentedLine) (ended : Bool) :
    LoadedRight lines ended ↔ ∀ section' key,
      firstValue (loadedFrom [] (lines.map CommentedLine.line)) section' key =
        firstValue (entriesFrom [] (lines.map CommentedLine.line)) section' key := by
  obtain ⟨c, hLoad, hValue⟩ := load_configText lines ended
  constructor
  · rintro ⟨c', hLoad', hRight⟩ section' key
    rw [hLoad] at hLoad'
    obtain rfl := (Prod.mk.inj hLoad').2
    have hGot := hRight section' key
    simp only [SimpleConfig.getValue, hValue] at hGot
    revert hGot
    generalize firstValue (loadedFrom _ _) section' key = got
    generalize firstValue (entriesFrom _ _) section' key = said
    intro hGot
    cases got with
    | none =>
        cases said with
        | none => rfl
        | some v => exact absurd (hGot ('x' :: v)) (List.cons_ne_self 'x' v)
    | some v =>
        cases said with
        | none => exact absurd (hGot ('x' :: v)).symm (List.cons_ne_self 'x' v)
        | some v' => exact congrArg some (hGot [])
  · intro hSame
    refine ⟨c, hLoad, fun section' key default' => ?_⟩
    rw [SimpleConfig.getValue, hValue, hSame]

/-- Lines without a blank before the `=` are inserted as they are. -/
theorem loadedFrom_eq {lines : List ConfigLine} (h : ∀ l ∈ lines, l.Plain) (section' : Text) :
    loadedFrom section' lines = entriesFrom section' lines := by
  induction lines generalizing section' with
  | nil => rfl
  | cons l lines ih =>
      have hRest := ih fun l hl => h l (List.mem_cons_of_mem _ hl)
      have hPlain := h l List.mem_cons_self
      cases l with
      | blank space => exact hRest section'
      | header name space => exact hRest (trim name)
      | alone lead key trail =>
          rw [loadedFrom, entriesFrom, hRest]
      | assign lead key mid value =>
          have hNone : ' ' ∉ lead ∧ ' ' ∉ mid := hPlain
          rw [loadedFrom, entriesFrom, hRest, if_pos hNone]

/-- A misread line is inserted under a key that has the `=` within. -/
theorem exists_loadedFrom {lines : List ConfigLine} {lead key mid value : Text}
    (h : ConfigLine.assign lead key mid value ∈ lines) (hBlank : ¬ (' ' ∉ lead ∧ ' ' ∉ mid))
    (section' : Text) :
    ∃ name, (name, ConfigLine.misread lead key mid value, []) ∈ loadedFrom section' lines := by
  induction lines generalizing section' with
  | nil => cases h
  | cons l lines ih =>
      rcases List.mem_cons.mp h with rfl | hLater
      · refine ⟨section', ?_⟩
        rw [loadedFrom, if_neg hBlank]
        exact List.mem_cons_self
      · cases l with
        | blank space => exact ih hLater section'
        | header name space => exact ih hLater (trim name)
        | alone lead' key' trail =>
            obtain ⟨name, hMem⟩ := ih hLater section'
            exact ⟨name, List.mem_cons_of_mem _ hMem⟩
        | assign lead' key' mid' value' =>
            obtain ⟨name, hMem⟩ := ih hLater section'
            exact ⟨name, List.mem_cons_of_mem _ hMem⟩

theorem isSome_firstValue {entries : List (Text × Text × Text)} {section' key value : Text}
    (h : (section', key, value) ∈ entries) : (firstValue entries section' key).isSome = true := by
  rw [firstValue, Option.isSome_map, List.find?_isSome]
  refine ⟨_, h, decide_eq_true ⟨?_, ?_⟩⟩
  · exact sameName_iff.mpr rfl
  · exact sameName_iff.mpr rfl

/-- Of the keys that a text says, none has an `=`. -/
theorem entriesFrom_keys {lines : List ConfigLine} (h : ∀ l ∈ lines, l.WellFormed)
    (section' : Text) : ∀ e ∈ entriesFrom section' lines, '=' ∉ e.2.1 := by
  induction lines generalizing section' with
  | nil =>
      intro e he
      cases he
  | cons l lines ih =>
      have hRest := ih fun l hl => h l (List.mem_cons_of_mem _ hl)
      have hLine := h l List.mem_cons_self
      have hKeys : ∀ {lead key : Text}, ConfigLine.IsKey lead key → '=' ∉ key :=
        fun hKey hMem => (hKey.chars _ hMem).2.2 rfl
      cases l with
      | blank space => exact hRest section'
      | header name space => exact hRest (trim name)
      | alone lead key trail =>
          exact List.forall_mem_cons.mpr ⟨hKeys hLine.1, hRest section'⟩
      | assign lead key mid value =>
          exact List.forall_mem_cons.mpr ⟨hKeys hLine.1, hRest section'⟩

theorem normalise_eq_equals (c : Char) : normalise c = '=' ↔ c = '=' := by
  rw [← Char.toNat_inj, normalise_toNat, ← Char.toNat_inj (c := c) (d := '=')]
  have hEquals : '='.toNat = 61 := rfl
  rw [hEquals]
  split
  · next hUpper =>
      have hLe : 65 ≤ c.toNat := hUpper.1
      omega
  · split
    · next hSlash => exact iff_of_false (by decide) (by rw [hSlash]; decide)
    · exact Iff.rfl

/-- A name with an `=` before any NUL is not the same as one without. -/
theorem not_sameName {s t : Text} (hs : '=' ∉ s) (ht : '=' ∈ t) (hNul : Char.ofNat 0 ∉ t) :
    ¬ SameName s t := by
  rw [sameName_iff]
  intro hSame
  have hAll : (t.takeWhile fun c => c != Char.ofNat 0) = t := by
    rw [List.takeWhile_eq_self_iff]
    intro c hc
    rw [bne_iff_ne]
    rintro rfl
    exact hNul hc
  have hMem : '=' ∈ foldName t := by
    rw [foldName, hAll]
    exact List.mem_map.mpr ⟨'=', ht, rfl⟩
  rw [← hSame, foldName] at hMem
  obtain ⟨c, hc, hIs⟩ := List.mem_map.mp hMem
  rw [normalise_eq_equals] at hIs
  exact hs (hIs ▸ (List.takeWhile_subset _ hc))

/-- A text without a blank before an `=` is loaded as it should be, and one with such a blank, if
its keys are without a NUL, is not. -/
theorem loadedRight_iff (lines : List CommentedLine) (ended : Bool) :
    ((∀ l ∈ lines, l.line.Plain) → LoadedRight lines ended) ∧
      ((∀ l ∈ lines, Char.ofNat 0 ∉ l.line.text) → LoadedRight lines ended →
        ∀ l ∈ lines, l.line.Plain) := by
  rw [loadedRight_iff_forall]
  constructor
  · intro hPlain section' key
    rw [loadedFrom_eq]
    intro l hl
    obtain ⟨l', hl', rfl⟩ := List.mem_map.mp hl
    exact hPlain l' hl'
  · intro hNul hSame l hl
    have hForm := l.wellFormed
    have hText := hNul l hl
    have hMem : l.line ∈ lines.map CommentedLine.line := List.mem_map_of_mem hl
    cases hKind : l.line with
    | blank space => trivial
    | header name space => trivial
    | alone lead key trail => trivial
    | assign lead key mid value =>
        rw [hKind] at hForm hText hMem
        by_contra hBlank
        obtain ⟨name, hLoaded⟩ := exists_loadedFrom hMem hBlank []
        have hSome := isSome_firstValue hLoaded
        rw [hSame, firstValue, Option.isSome_map, List.find?_isSome] at hSome
        obtain ⟨e, he, hIs⟩ := hSome
        have hForms : ∀ l ∈ lines.map CommentedLine.line, l.WellFormed := by
          intro l hl
          obtain ⟨l', -, rfl⟩ := List.mem_map.mp hl
          exact l'.wellFormed
        have hMisread := hForm.1.misread_eq mid value
        refine not_sameName (entriesFrom_keys hForms [] e he) ?_ ?_ (of_decide_eq_true hIs).2
        · rw [hMisread]
          simp
        · rw [hMisread]
          intro hIn
          apply hText
          simp only [ConfigLine.text, List.mem_append, List.mem_cons] at hIn ⊢
          rcases hIn with hIn | hIn | hIn | hIn
          · exact Or.inr (Or.inl hIn)
          · exact Or.inr (Or.inr (Or.inl hIn))
          · exact Or.inr (Or.inr (Or.inr (Or.inl hIn)))
          · exact Or.inr (Or.inr (Or.inr (Or.inr ((List.rdropWhile_prefix _ _).subset hIn))))

/-- `k = v`, with a blank before the `=`. -/
theorem not_loadedRight :
    ¬ ∀ (lines : List CommentedLine) (ended : Bool), LoadedRight lines ended := by
  intro h
  have hKey : ConfigLine.IsKey [] ['k'] :=
    ⟨nofun, by decide, List.forall_mem_singleton.mpr (by decide), fun _ => by decide⟩
  have hForm : (ConfigLine.assign [] ['k'] [' '] [' ', 'v']).WellFormed :=
    ⟨hKey, List.forall_mem_singleton.mpr (by decide),
      List.forall_mem_cons.mpr ⟨by decide, List.forall_mem_singleton.mpr (by decide)⟩⟩
  have hSame : firstValue (loadedFrom [] [.assign [] ['k'] [' '] [' ', 'v']]) [] ['k'] =
      firstValue (entriesFrom [] [.assign [] ['k'] [' '] [' ', 'v']]) [] ['k'] :=
    (loadedRight_iff_forall [⟨_, none, hForm, nofun⟩] true).mp (h _ true) [] ['k']
  exact absurd hSame (by decide)

end OncRpc.Service
