import Mathlib.Logic.Function.Basic

/-! Named files to which texts are appended, and a journal of what has become of them. -/
namespace Journal

variable {ν β γ : Type*}

/-- The files there are. -/
abbrev Files (ν γ : Type*) := ν → Option (List γ)

inductive Note (ν β : Type*)
  | opened (name : ν)
  | wrote (name : ν) (text : List β)
  | removed (name : ν)
  | purged (name : ν)

/-- The text that was written, if any. -/
def Note.text : Note ν β → Option (List β)
  | .wrote _ text => some text
  | _ => none

/-- The texts in the order in which they were written. -/
def texts (journal : List (Note ν β)) : List (List β) := journal.filterMap Note.text

theorem texts_concat (journal : List (Note ν β)) (note : Note ν β) :
    texts (journal ++ [note]) = texts journal ++ note.text.toList := by
  rw [texts, List.filterMap_append]
  cases note <;> rfl

/-- What is in a file, if it is there. -/
def contents (files : Files ν γ) (name : ν) : List γ := (files name).getD []

variable [DecidableEq ν] (encode : β → List γ)

/-- A text is appended whole, as it is encoded. -/
def Note.apply (files : Files ν γ) : Note ν β → Files ν γ
  | .opened name => Function.update files name (some (contents files name))
  | .wrote name text =>
      Function.update files name (some (contents files name ++ text.flatMap encode))
  | .removed name => Function.update files name none
  | .purged name => Function.update files name none

/-- The files after all that is in a journal. -/
def replay (files : Files ν γ) (journal : List (Note ν β)) : Files ν γ :=
  journal.foldl (Note.apply encode) files

/-- No file was removed that held anything when it was. -/
def RemovedEmpty : Files ν γ → List (Note ν β) → Prop
  | _, [] => True
  | files, note :: journal =>
      (∀ name, note = .removed name → contents files name = []) ∧
        RemovedEmpty (note.apply encode files) journal

variable {encode} {files : Files ν γ} {journal : List (Note ν β)} {note : Note ν β}

theorem replay_concat : replay encode files (journal ++ [note]) =
    note.apply encode (replay encode files journal) := by
  rw [replay, List.foldl_append]
  rfl

theorem removedEmpty_concat :
    RemovedEmpty encode files (journal ++ [note]) ↔ RemovedEmpty encode files journal ∧
      ∀ name, note = .removed name → contents (replay encode files journal) name = [] := by
  induction journal generalizing files with
  | nil => exact ⟨fun h => ⟨trivial, h.1⟩, fun h => ⟨h.2, trivial⟩⟩
  | cons first rest ih =>
      rw [List.cons_append, RemovedEmpty, RemovedEmpty, ih, and_assoc]
      rfl

theorem contents_update_self (files : Files ν γ) (name : ν) (text : List γ) :
    contents (Function.update files name (some text)) name = text := by
  rw [contents, Function.update_self, Option.getD_some]

end Journal
