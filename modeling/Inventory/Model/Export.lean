import Inventory.Html.Table
import Inventory.Model.Pages

/-!
# The spreadsheet

What export_excel.php prints for the rows it selected: a hand-written row of
headings, and for each asset one cell for each column of the table. `memory` has
a cell and no heading (`headings_eq`).
-/

namespace Inventory

open Lib Php Html

/-- The columns of `SELECT * FROM assets`. -/
inductive Column where
  | id
  | col (c : Col)
  | timestamp
  deriving DecidableEq, Repr

def Column.all : List Column := .id :: (Col.all.map .col ++ [.timestamp])

theorem Column.mem_all (c : Column) : c ∈ all := by
  rcases c with _ | c | _
  · decide
  · exact List.mem_cons_of_mem _ (List.mem_append_left _ (List.mem_map_of_mem (Col.mem_all c)))
  · decide

instance : Fintype Column := ⟨⟨Column.all, by decide⟩, Column.mem_all⟩

/-- A field of a fetched row; NULL is `none`. -/
def Asset.fetch (sv : Server) (a : Asset) : Column → Option Bytes
  | .id => some (Bytes.intText a.id)
  | .col c => a.fields c
  | .timestamp => some (sv.stampText a.timestamp)

/-- The text a cell shows; `htmlspecialchars` of NULL is empty. -/
def Asset.shown (sv : Server) (a : Asset) (c : Column) : Bytes :=
  htmlspecialchars ((a.fetch sv c).getD [])

/-- The hand-written headings. -/
def headings : List Bytes :=
  [str "ID", str "Asset Tag", str "Tag Number", str "Brand Model", str "Serial Number",
    str "Type of OS", str "Processor", str "Type of Hard Disk", str "Size of Disk",
    str "Office Version", str "IP Address", str "Section", str "Type of User", str "User",
    str "Email Address", str "Email Password", str "Date Purchased", str "UPS",
    str "Recovery Type", str "Unit Type", str "Timestamp"]

def exportHead : Bytes :=
  str "<table border='1'>" ++ str "<tr>" ++
    headings.flatMap (cell (str "\n  <th>") (str "</th>")) ++ str "\n</tr>"

def exportHtml (sv : Server) (rows : List Asset) : Bytes :=
  exportHead ++ (rows.map fun a => Column.all.map (a.shown sv)).flatMap trRow ++ str "</table>"

/-- The body of a response of export_excel.php; a redirect has none. -/
def Response.exported (sv : Server) : Response → Bytes
  | .export_excel rows => exportHtml sv rows
  | _ => []

/-! ## Reading it back -/

/-- The label of a column on the pages. -/
def heading : Column → Bytes
  | .id => str "ID"
  | .col .asset_tag => str "Asset Tag"
  | .col .tag_number => str "Tag Number"
  | .col .brand_model => str "Brand Model"
  | .col .serial_number => str "Serial Number"
  | .col .type_os_type => str "Type of OS"
  | .col .processor => str "Processor"
  | .col .type_of_hard_disk => str "Type of Hard Disk"
  | .col .size_of_disk => str "Size of Disk"
  | .col .memory => str "Memory"
  | .col .office_version => str "Office Version"
  | .col .ip_address => str "IP Address"
  | .col .«section» => str "Section"
  | .col .type_of_user => str "Type of User"
  | .col .user => str "User"
  | .col .email_address => str "Email Address"
  | .col .email_password => str "Email Password"
  | .col .date_purchased => str "Date Purchased"
  | .col .ups => str "UPS"
  | .col .recovery_type => str "Recovery Type"
  | .col .unit_type => str "Unit Type"
  | .timestamp => str "Timestamp"

/-- The headings are those of every column but `memory`. -/
theorem headings_eq : headings = (Column.all.erase (.col .memory)).map heading := by decide

theorem heading_text (c : Column) : ∀ b ∈ heading c, b ≠ 60 := by
  have hall : ∀ h ∈ Column.all.map heading, h.all (fun b => b != 60) = true :=
    List.all_iff_forall_prop.mp (by decide)
  have hc := hall _ (List.mem_map_of_mem (Column.mem_all c))
  exact fun b hb => bne_iff_ne.mp (List.all_eq_true.mp hc b hb)

theorem readOn_exportHead : readOn Reader.feed (.data [], {}) exportHead = (.data [], ⟨[headings], [], none⟩) := by
  have hlt : ∀ x ∈ headings, ∀ b ∈ x, b ≠ 60 := by
    intro x hx
    rw [headings_eq] at hx
    obtain ⟨c, -, rfl⟩ := List.mem_map.mp hx
    exact heading_text c
  have hself : headings.map unescape = headings := by decide
  have ho : readOn Reader.feed (.data [], {}) (str "<table border='1'>" ++ str "<tr>") = (.data [], {}) := by rfl
  rw [exportHead, readOn_append, readOn_append, ho, readOn_cells opens_th closes_th hlt, hself]
  rfl

theorem mem_shown {sv : Server} {a : Asset} {c : Column} {b : UInt8} (h : b ∈ a.shown sv c) :
    b ≠ 60 := by
  unfold Asset.shown htmlspecialchars at h
  split at h
  · exact (mem_escape h).2.1
  · cases h

/-- A value as it is read back: NULL and what is not UTF-8 are empty. -/
def Asset.readBack (sv : Server) (a : Asset) (c : Column) : Bytes :=
  if Utf8.valid ((a.fetch sv c).getD []) then (a.fetch sv c).getD [] else []

theorem unescape_shown (sv : Server) (a : Asset) (c : Column) :
    unescape (a.shown sv c) = a.readBack sv c := by
  unfold Asset.shown Asset.readBack htmlspecialchars
  split
  · exact unescape_escape _
  · rfl

/-- **The spreadsheet is read as its headings and one row for each asset**, with a cell for each
column of the table. -/
theorem readTable_exportHtml (sv : Server) (rows : List Asset) :
    readTable (exportHtml sv rows) =
      headings :: rows.map fun a => Column.all.map (a.readBack sv) := by
  have hlt : ∀ xs ∈ rows.map fun a => Column.all.map (a.shown sv), ∀ x ∈ xs, ∀ b ∈ x, b ≠ 60 := by
    intro xs hxs x hx b hb
    obtain ⟨a, -, rfl⟩ := List.mem_map.mp hxs
    obtain ⟨c, -, rfl⟩ := List.mem_map.mp hx
    exact mem_shown hb
  have hend : ∀ r : List (List Bytes), (readOn Reader.feed (.data [], ⟨r, [], none⟩) (str "</table>")).2.rows = r :=
    fun _ => rfl
  rw [exportHtml, readTable, readOn_append, readOn_append, readOn_exportHead, readOn_trRows hlt,
    hend, List.map_map]
  have hcells : ∀ a : Asset, (Column.all.map (a.shown sv)).map unescape =
      Column.all.map (a.readBack sv) := fun a => by
    rw [List.map_map]
    exact List.map_congr_left fun c _ => unescape_shown sv a c
  show headings :: rows.map _ = _
  exact congrArg (headings :: ·) (List.map_congr_left fun a _ => hcells a)

end Inventory
