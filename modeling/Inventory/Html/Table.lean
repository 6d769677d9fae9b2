import Inventory.Html.Tokens

/-!
# Reading an HTML table

`readTable` gives the texts of the cells, row by row: a cell is what stands
between `<td>` and `</td>`, or `<th>` and `</th>`, unescaped, and `</tr>` ends a
row. Reading is a run over bytes (`readOn_append`), so a table is read cell by
cell.
-/

namespace Inventory.Html

/-- The rows read, the cells of the row being read, and the text of an open cell. -/
structure Reader where
  rows : List (List Bytes) := []
  row : List Bytes := []
  cell : Option Bytes := none
  deriving DecidableEq, Repr

def Reader.feed (r : Reader) : Token → Reader
  | .text t => { r with cell := r.cell.map (· ++ unescape t) }
  | .tag t =>
    if t.name = str "td" ∨ t.name = str "th" then { r with cell := some [] }
    else if t.name = str "/td" ∨ t.name = str "/th" then
      { r with row := r.row ++ r.cell.toList, cell := none }
    else if t.name = str "/tr" then ⟨r.rows ++ [r.row], [], none⟩
    else r

def readTable (x : Bytes) : List (List Bytes) := (readOn Reader.feed (.data [], {}) x).2.rows

/-- The text opens a cell. -/
def Opens (o : Bytes) : Prop :=
  ∀ rows row, readOn Reader.feed (.data [], ⟨rows, row, none⟩) o = (.data [], ⟨rows, row, some []⟩)

/-- The text closes a cell. -/
def Closes (c : Bytes) : Prop :=
  ∀ rows row x, readOn Reader.feed (.data x, ⟨rows, row, some []⟩) c =
    (.data [], ⟨rows, row ++ [unescape x], none⟩)

/-- The end tag of a cell, after the text of the cell. -/
theorem closes_of {c : Bytes} {t : Tag}
    (hr : ∀ x, run (.data x) c = (flush x ++ [.tag t], .data []))
    (ht : ∀ r : Reader, r.feed (.tag t) = { r with row := r.row ++ r.cell.toList, cell := none }) :
    Closes c := by
  intro rows row x
  have htext : (flush x).foldl Reader.feed ⟨rows, row, some []⟩ = ⟨rows, row, some (unescape x)⟩ := by
    by_cases hx : x = []
    · subst hx
      rfl
    · rw [flush, if_neg hx]
      rfl
  rw [readOn, hr, List.foldl_append, htext, List.foldl_cons, List.foldl_nil, ht]
  rfl

def cell (o c x : Bytes) : Bytes := o ++ x ++ c

section
variable {o c : Bytes}

theorem readOn_cell (ho : Opens o) (hc : Closes c) {x : Bytes} (h : ∀ b ∈ x, b ≠ 60)
    (rows : List (List Bytes)) (row : List Bytes) :
    readOn Reader.feed (.data [], ⟨rows, row, none⟩) (cell o c x) =
      (.data [], ⟨rows, row ++ [unescape x], none⟩) := by
  rw [cell, readOn_append, readOn_append, ho, readOn_text _ h, List.nil_append, hc]

theorem readOn_cells (ho : Opens o) (hc : Closes c) {xs : List Bytes}
    (h : ∀ x ∈ xs, ∀ b ∈ x, b ≠ 60) (rows : List (List Bytes)) (row : List Bytes) :
    readOn Reader.feed (.data [], ⟨rows, row, none⟩) (xs.flatMap (cell o c)) =
      (.data [], ⟨rows, row ++ xs.map unescape, none⟩) := by
  induction xs generalizing row with
  | nil => simp [readOn, run]
  | cons x xs ih =>
    rw [List.flatMap_cons, readOn_append, readOn_cell ho hc (h x List.mem_cons_self),
      ih fun y hy => h y (List.mem_cons_of_mem _ hy)]
    simp

end

theorem opens_td : Opens (str "<td>") := fun _ _ => rfl

theorem closes_td : Closes (str "</td>") := closes_of (fun _ => rfl) fun _ => rfl

theorem opens_th : Opens (str "\n  <th>") := fun _ _ => rfl

theorem closes_th : Closes (str "</th>") := closes_of (fun _ => rfl) fun _ => rfl

def trRow (xs : List Bytes) : Bytes :=
  str "<tr>" ++ xs.flatMap (cell (str "<td>") (str "</td>")) ++ str "</tr>"

theorem readOn_trRow {xs : List Bytes} (h : ∀ x ∈ xs, ∀ b ∈ x, b ≠ 60)
    (rows : List (List Bytes)) : readOn Reader.feed (.data [], ⟨rows, [], none⟩) (trRow xs) =
      (.data [], ⟨rows ++ [xs.map unescape], [], none⟩) := by
  have ho : readOn Reader.feed (.data [], ⟨rows, [], none⟩) (str "<tr>") = (.data [], ⟨rows, [], none⟩) := rfl
  rw [trRow, readOn_append, readOn_append, ho, readOn_cells opens_td closes_td h]
  rfl

/-- **The rows of a table are read back.** -/
theorem readOn_trRows {xss : List (List Bytes)} (h : ∀ xs ∈ xss, ∀ x ∈ xs, ∀ b ∈ x, b ≠ 60)
    (rows : List (List Bytes)) : readOn Reader.feed (.data [], ⟨rows, [], none⟩) (xss.flatMap trRow) =
      (.data [], ⟨rows ++ xss.map (List.map unescape), [], none⟩) := by
  induction xss generalizing rows with
  | nil => simp [readOn, run]
  | cons xs xss ih =>
    rw [List.flatMap_cons, readOn_append, readOn_trRow (h xs List.mem_cons_self),
      ih fun ys hy => h ys (List.mem_cons_of_mem _ hy)]
    simp

end Inventory.Html
