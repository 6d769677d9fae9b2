import Mathlib.Data.Fintype.Card
import Inventory.Model.Export
import Inventory.Model.Sample

/-!
# Reading the spreadsheet back

A row of the spreadsheet has a cell for each of the 22 columns under 21
headings, so no pairing of columns and headings reads it back.
-/

namespace Inventory

open Lib Php Html

/-- Every column has a heading of its own, and every asset, in order, the column's value in the
cell under it. -/
def ReadsBack (sv : Server) (html : Bytes) (rows : List Asset) : Prop :=
  ∃ (head : List Bytes) (data : List (List Bytes)) (place : Column → Fin head.length),
    readTable html = head :: data ∧ Function.Injective place ∧
      data.map (fun cells c => cells[(place c).val]?) =
        rows.map fun a c => some ((a.fetch sv c).getD [])

/-- Too few headings for the columns. -/
theorem not_readsBack_exportHtml (sv : Server) (rows : List Asset) :
    ¬ ReadsBack sv (exportHtml sv rows) rows := by
  rintro ⟨head, data, place, ht, hp, -⟩
  rw [readTable_exportHtml] at ht
  obtain ⟨rfl, -⟩ := List.cons.inj ht
  have hcard := Fintype.card_le_of_injective place hp
  rw [Fintype.card_fin] at hcard
  revert hcard
  decide

section
variable {I : Type} {sha256 : Bytes → Bytes} {sv : Server}

theorem export_excel_answer {c : PageState I} {i : I} (hu : (c.sess i).user ≠ none) (b : Body)
    (env : Nat → Env) :
    c.answer (inventory sha256 sv) i ⟨.export_excel, b⟩ env = .export_excel c.db.assets.rows := by
  show ((export_excel (c.sess i)).run (exec sv) env c.db).1.2 = _
  unfold export_excel
  split
  · next h => exact absurd h hu
  · rfl

/-- **The spreadsheet is never read back**, whatever assets a logged-in user exports. -/
theorem export_never_reads_back {c : PageState I} {i : I} (hu : (c.sess i).user ≠ none) (b : Body)
    (env : Nat → Env) :
    ¬ ReadsBack sv ((c.answer (inventory sha256 sv) i ⟨.export_excel, b⟩ env).exported sv)
      c.db.assets.rows := by
  rw [export_excel_answer hu]
  exact not_readsBack_exportHtml sv _

end

theorem export_never_reads_back_sample :
    ¬ ReadsBack .canonical (((loggedIn sample).answer (inventory zeroHash .canonical) 0
      ⟨.export_excel, .get⟩ fun _ => .at 100).exported .canonical) sample.assets.rows :=
  export_never_reads_back (by decide) .get _

/-- The export of the two assets of the sample. -/
theorem export_of_sample_not_read : ¬ ∀ (d : Db) (env : Nat → Env),
    ReadsBack .canonical (((loggedIn d).answer (inventory zeroHash .canonical) 0
      ⟨.export_excel, .get⟩ env).exported .canonical) d.assets.rows :=
  fun h => not_readsBack_exportHtml .canonical _ (h sample fun _ => .at 100)

end Inventory
