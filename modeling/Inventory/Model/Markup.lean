import Inventory.Html.Structure
import Inventory.Model.EditForm
import Inventory.Model.MasterList

/-!
# The pages as HTML

What masterlist.php and edit_asset.php print around the texts they show, with
the navigation bar of navbar.php. The style sheets and scripts of the pages are
left out: their elements stand empty. A browser reads the rows of `tableRows`
from the table of the master list (`readTable_tableBody`).
-/

namespace Inventory

open Lib Php Html

/-! ## navbar.php -/

def navbarOpen : Bytes := str "<nav class=\"navbar navbar-expand-lg custom-blue-navbar mb-4\">
  <div class=\"container-fluid d-flex align-items-center\">

    <!-- Reload Button only -->
    <button class=\"btn btn-outline-light btn-sm rounded-circle me-2\" onclick=\"location.reload();\" title=\"Reload\">
      <i class=\"bi bi-arrow-clockwise\"></i>
    </button>

    <a class=\"navbar-brand text-white\" href=\"dashboard.php\">ShinDengen Inventory System</a>
    
    <div class=\"ms-auto d-flex align-items-center\">
      <span class=\"text-white me-3\">👤 "

def navbarClose : Bytes := str "</span>
      <a class=\"btn btn-outline-light me-2\" href=\"new_entry.php\">New Entry</a>
      <a class=\"btn btn-outline-light me-2\" href=\"edit_asset.php\">Edit Asset</a>
      <a class=\"btn btn-outline-light me-2\" href=\"masterlist.php\">Master List</a>
      <a class=\"btn btn-danger btn-sm\" href=\"logout.php\">Logout</a>
    </div>
    
  </div>
</nav>

<style></style>

<!-- Bootstrap Icons -->
<link href=\"https://cdn.jsdelivr.net/npm/bootstrap-icons@1.10.5/font/bootstrap-icons.css\" rel=\"stylesheet\">

<!-- Ctrl+R and F5 Reload Support -->
<script></script>
"

/-- The name in the navigation bar. -/
def Session.shownUser (s : Session) : Bytes := s.user.getD (str "Guest")

def navbar (s : Session) : Bytes := navbarOpen ++ (s.shownUser ++ navbarClose)

/-! ## masterlist.php -/

def masterlistHead : Bytes := str "<!DOCTYPE html>
<html lang=\"en\">
<head>
  <meta charset=\"UTF-8\">
  <title>Asset Master List</title>
  <meta name=\"viewport\" content=\"width=device-width, initial-scale=1\">
  <link href=\"https://cdn.jsdelivr.net/npm/bootstrap@5.3.0/dist/css/bootstrap.min.css\" rel=\"stylesheet\">
  <style></style>
</head>
<body>

"

def masterlistBar : Bytes := str "
<div class=\"container\">
  <div class=\"header-bar\">
    <h2>📋 Master List</h2>
    <div class=\"button-group d-flex flex-wrap align-items-center gap-2\">
      <input type=\"text\" class=\"form-control form-control-sm\" id=\"searchInput\" placeholder=\"🔍 Search...\" style=\"width: 180px;\">
      <button id=\"editSelected\" class=\"btn btn-primary btn-md\" disabled>✏️ Batch Edit Selected</button>
      <button id=\"deleteSelected\" class=\"btn btn-danger btn-md\" disabled>🗑️ Delete Selected</button>
      <form method=\"POST\" action=\"export_excel.php\" class=\"d-inline\">
        <button type=\"submit\" class=\"btn btn-success btn-md\">📁 Export to Excel</button>
      </form>
    </div>
  </div>

  <div class=\"table-wrapper\">
    <form id=\"batchEditForm\" method=\"POST\" action=\"edit_asset.php\">
      <input type=\"hidden\" name=\"selected_ids\" id=\"selected_ids\">
      <table class=\"table table-bordered table-hover align-middle\" id=\"masterTable\">
        <thead>
          <tr>
            <th></th>"

/-- An option without a value of its own: the text is not escaped. -/
def filterOption (opt : Bytes) : Bytes := str "<option>" ++ (opt ++ str "</option>")

/-- The written-out options of the memory; its distinct values are fetched, but not offered. -/
def memorySizes : List Bytes := [str "4 GB", str "8 GB", str "16 GB", str "24 GB"]

/-- The distinct values of a column. -/
def Db.values (sv : Server) (d : Db) (c : Col) : List (Option Bytes) :=
  sv.distinct (d.assets.rows.map fun a => a.fields c)

/-- What a select offers besides All. -/
def FilterSelect.options (values : Col → List (Option Bytes)) (f : FilterSelect) : List Bytes :=
  if f = .memory then memorySizes
  else (values f.column).map fun v => v.getD []

/-- The heading of a column with a filter, up to its options. -/
def filterOpen (f : FilterSelect) : Bytes :=
  str "\n            <th>" ++ heading (.col f.column) ++
    (str "<br><select class=\"filter-select\" data-column=\"" ++ Bytes.natText f.dataColumn ++
      str "\"><option value=\"\">All</option>")

def filterHead (values : Col → List (Option Bytes)) (f : FilterSelect) : Bytes :=
  filterOpen f ++ ((f.options values).flatMap filterOption ++ str "</select></th>")

/-- The heading of a column. -/
def columnHead (values : Col → List (Option Bytes)) (c : Column) : Bytes :=
  match FilterSelect.all.find? fun f => Column.col f.column = c with
  | some f => filterHead values f
  | none => str "\n            <th>" ++ heading c ++ str "</th>"

def tableHead (values : Col → List (Option Bytes)) : Bytes :=
  Column.all.flatMap (columnHead values) ++
    str "\n          </tr>\n        </thead>\n        <tbody>\n          "

/-- A row up to its id. -/
def rowTag : Bytes := str "              <tr data-id=\""

/-- The checkbox of a row, up to its value. -/
def checkTag : Bytes :=
  str ">\n                <td><input type=\"checkbox\" class=\"row-check\" value=\""

/-- The row of an asset up to its cells; the id is not escaped. -/
def rowOpen (id : Bytes) : Bytes :=
  rowTag ++ (id ++ 34 :: (checkTag ++ (id ++ 34 :: str "></td>")))

def rowCell (shown : Bytes) : Bytes := cell (str "\n                <td>") (str "</td>") shown

def rowHtml (sv : Server) (a : Asset) : Bytes :=
  rowOpen (Bytes.intText a.id) ++ (Column.all.flatMap (fun c => rowCell (a.shown sv c)) ++
    str "\n              </tr>\n            ")

def noRecordsHtml : Bytes :=
  str "            <tr><td colspan=\"23\" class=\"text-center text-muted\">No records found.</td></tr>\n          "

def tableBody (sv : Server) (rows : List Asset) : Bytes :=
  if rows = [] then noRecordsHtml
  else str "            " ++ rows.flatMap (rowHtml sv) ++ str "          "

def masterlistTail : Bytes := str "        </tbody>
      </table>
    </form>
  </div>
</div>

<script></script>
<script src=\"https://cdn.jsdelivr.net/npm/bootstrap@5.3.0/dist/js/bootstrap.bundle.min.js\"></script>
</body>
</html>
"

def masterlistHtml (sv : Server) (s : Session) (rows : List Asset)
    (values : Col → List (Option Bytes)) : Bytes :=
  masterlistHead ++ (navbar s ++ (masterlistBar ++ (tableHead values ++
    (tableBody sv rows ++ masterlistTail))))

/-! ## edit_asset.php -/

def editHead : Bytes := str "<!DOCTYPE html>
<html lang=\"en\">
<head>
  <meta charset=\"UTF-8\">
  <title>Edit Asset</title>
  <meta name=\"viewport\" content=\"width=device-width, initial-scale=1\">
  <link href=\"https://cdn.jsdelivr.net/npm/bootstrap@5.3.0/dist/css/bootstrap.min.css\" rel=\"stylesheet\">
  <link rel=\"stylesheet\" href=\"https://cdnjs.cloudflare.com/ajax/libs/font-awesome/6.4.0/css/all.min.css\">
  <style></style>
</head>
<body>

"

def editBar : Bytes := str "
<div class=\"container\">
  <h2 class=\"mb-3\">✏️ Edit Asset</h2>

  "

/-- A message; it is not escaped. -/
def alert (kind message : Bytes) : Bytes :=
  str "    <div class=\"alert alert-" ++ kind ++ str "\">" ++ (message ++ str "</div>\n  ")

/-- The message a page shows: an error, or else that of an update. -/
def shownMessage (error success : Bytes) : Bytes := if error ≠ [] then error else success

def messageHtml (error success : Bytes) : Bytes :=
  if error ≠ [] then alert (str "info") error
  else if success ≠ [] then alert (str "success") success
  else []

/-- The form that asks for an id. -/
def manualForm : Bytes := str "    <form method=\"POST\" class=\"mb-4\">
      <div class=\"mb-3\">
        <label for=\"manual_id\" class=\"form-label\">Enter Asset ID to Edit:</label>
        <input type=\"number\" name=\"manual_id\" id=\"manual_id\" class=\"form-control\" required>
      </div>
      <button type=\"submit\" class=\"btn text-white\" style=\"background-color: #002366;\">🔍 Load Asset</button>
    </form>
  "

def editBody : Option Asset → Bytes
  | none => str "\n  " ++ (manualForm ++ str "\n  ")
  | some a => str "\n  \n    " ++ (editForm a ++ str "\n  ")

def editTail : Bytes := str "</div>

<script></script>

</body>
</html>
"

def editHtml (s : Session) (error success : Bytes) (asset : Option Asset) : Bytes :=
  editHead ++ (navbar s ++ (editBar ++ (messageHtml error success ++ (editBody asset ++ editTail))))

/-- The page a browser gets of masterlist.php or edit_asset.php. -/
def Response.html (sv : Server) (s : Session) : Response → Bytes
  | .masterlist rows values => masterlistHtml sv s rows values
  | .edit_asset error success asset => editHtml s error success asset
  | _ => []

/-! ## The rows a browser reads -/

end Inventory
