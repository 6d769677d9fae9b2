import Inventory.Model.Templates

/-!
# What a statement built as text means

The four templates, read by the tokenizer of the database. They mean what they
say exactly for texts without quotes and backslashes, and no page builds another
INSERT as text.
-/

namespace Inventory

open Lib Php Sql

/-- **A statement built from text means what its template says just when no text in it holds a
quote or a backslash, but for a backslash before `%` or `_`.** The pages send no other INSERTs built
as text. -/
theorem statements_read_iff_clean (username assetId : Bytes) (ids : Value) (new_id : Int)
    (f : Bytes → Bytes) :
    (Reads (logInsert username (editedAction assetId)) logTable logCols
        [username, editedAction assetId] ↔ clean username = true ∧ clean assetId = true) ∧
    (Reads (logInsert username (deletedAction (ids.elems.map Value.toText))) logTable logCols
        [username, deletedAction (ids.elems.map Value.toText)] ↔
      clean username = true ∧ ∀ v ∈ ids.elems, clean v.toText = true) ∧
    (Reads (logInsert username (addedAction new_id)) logTable logCols
        [username, addedAction new_id] ↔ clean username = true) ∧
    (Reads (addInsert f) (str "assets") addFields (addFields.map f) ↔
        ∀ c ∈ addFields, clean (f c) = true) ∧
    ∀ (sha256 : Bytes → Bytes) (q : Request) (s : Session),
      (handle sha256 q s).Emits fun st => ∀ sql, st = .query sql → Template sql := by
  refine ⟨?_, ?_, ?_, addInsert_reads f, handle_queries⟩
  · rw [logInsert_reads, clean_editedAction]
  · rw [logInsert_reads, clean_deletedAction, List.all_map, List.all_eq_true]
    rfl
  · rw [logInsert_reads, clean_addedAction]
    simp

set_option maxRecDepth 20000 in
/-- An id with a quote ends the action literal early. -/
theorem quoted_id_is_not_read :
    ¬ Reads (logInsert (str "admin") (editedAction (str "1'"))) logTable logCols
      [str "admin", editedAction (str "1'")] := by
  decide

end Inventory
