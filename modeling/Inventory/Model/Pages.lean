import Inventory.Lib.Process
import Inventory.Php.Json
import Inventory.Model.Store

/-!
# The pages

One definition for each page: what it does with a request and its session, as a
program over statements (`Lib.Proc`). A page ends with the session and a
`Response`, which holds the data its HTML is made of. Sessions keep four keys;
an unset key reads as `null`.
-/

namespace Inventory

open Lib Php

structure Session where
  user : Option Bytes := none
  username : Value := .null
  edit_queue : Value := .null
  deleted_records : Value := .null

/-- `$_POST`: a missing field is `null`. -/
abbrev Post := Bytes → Value

inductive Body where
  | get
  | post (p : Post)

def Body.fields : Body → Post
  | .get => fun _ => .null
  | .post p => p

inductive Page where
  | login
  | index
  | logout
  | dashboard
  | masterlist
  | new_entry
  | edit_asset
  | add_asset
  | delete_selected
  | undo_delete
  | export_excel
  deriving DecidableEq, Repr

structure Request where
  page : Page
  body : Body

inductive Response where
  | redirect (location : Bytes)
  | text (t : Bytes)
  | login (username : Value) (username_error password_error : Bytes)
  | index (error : Option Bytes)
  | dashboard (log : List LogRow)
  | masterlist (rows : List Asset) (options : Col → List (Option Bytes))
  | new_entry (error : Bytes)
  | edit_asset (error success : Bytes) (asset : Option Asset)
  | add_asset (message : Bytes)
  | export_excel (rows : List Asset)
  /-- An uncaught error ended the request. -/
  | fatal

/-- A request in progress: it ends with the session and the response. -/
abbrev Handler := Proc Reply (Session × Response)

/-- Send a statement. -/
abbrev send (s : Stmt) : Proc Reply (Reply s) := Proc.stmt s

def redirectLogin (s : Session) : Handler := .done (s, .redirect (str "login.php"))

/-! ## The log -/

/-- `INSERT INTO history_log (username, action) VALUES ('$username', '$logAction')` -/
def logInsert (username logAction : Bytes) : Bytes :=
  str "INSERT INTO history_log (username, action) VALUES ('" ++ username ++ str "', '" ++
    logAction ++ str "')"

/-- The action texts of new_entry.php, edit_asset.php and delete_selected.php. -/
def addedAction (new_id : Int) : Bytes := str "Added new asset ID " ++ Bytes.intText new_id

def editedAction (assetId : Bytes) : Bytes := str "Edited asset ID " ++ assetId

def deletedAction (ids : List Bytes) : Bytes := str "Deleted asset ID: " ++ implode (str ", ") ids

/-- Write a log entry and keep the 15 most recent ones. -/
def writeLog (username logAction : Bytes) : Proc Reply Unit := do
  let _ ← send (.query (logInsert username logAction))
  send .prune

/-! ## login.php, index.php, logout.php -/

def login (s : Session) : Body → Handler
  | .get => .done (s, .login (.str []) [] [])
  | .post p => do
    let username := trim (p (str "username"))
    let users : List User ← send (.selectUser username.bindStr)
    match users with
    | [row] =>
      match p (str "password") with
      | .str pw =>
        if pw = row.password then
          pure ({ s with user := some row.username }, .redirect (str "dashboard.php"))
        else pure (s, .login username [] (str "❌ Incorrect password."))
      | _ => pure (s, .login username [] (str "❌ Incorrect password."))
    | _ => pure (s, .login username (str "❌ Username not found.") [])

/-- `SELECT * FROM users WHERE username='$username' AND password='$password'` -/
def loginSelect (username password : Bytes) : Bytes :=
  str "SELECT * FROM users WHERE username='" ++ username ++ str "' AND password='" ++
    password ++ str "'"

/-- `hash` of an array is `null`, the empty text in the statement. -/
def passwordHash (sha256 : Bytes → Bytes) : Value → Bytes
  | .arr _ => []
  | v => sha256 v.toText

section
variable (sha256 : Bytes → Bytes)

def index (s : Session) : Body → Handler
  | .get => .done (s, .index none)
  | .post p => do
    let username := p (str "username")
    let password := passwordHash sha256 (p (str "password"))
    let rows : Option Nat ← send (.selectLogin (loginSelect username.toText password))
    if rows = some 1 then
      pure ({ s with username }, .redirect (str "dashboard.php"))
    else pure (s, .index (some (str "Invalid username or password!")))

end

def logout (_ : Session) : Handler := .done ({}, .redirect (str "login.php"))

/-! ## dashboard.php, masterlist.php, export_excel.php -/

def dashboard (s : Session) : Handler :=
  match s.user with
  | none => redirectLogin s
  | some _ => do
    let log : List LogRow ← send .recent
    pure (s, .dashboard log)

/-- The columns with a filter. -/
def filterCols : List Col :=
  [.type_os_type, .processor, .type_of_hard_disk, .size_of_disk, .memory, .office_version,
    .type_of_user, .ups, .recovery_type, .unit_type]

/-- `getDistinctValues` for a list of columns. -/
def distinctValues : List Col → (Col → List (Option Bytes)) →
    Proc Reply (Col → List (Option Bytes))
  | [], acc => pure acc
  | c :: cs, acc => do
    let vs : List (Option Bytes) ← send (.distinct c)
    distinctValues cs (Function.update acc c vs)

def masterlist (s : Session) : Handler :=
  match s.user with
  | none => redirectLogin s
  | some _ => do
    let rows : List Asset ← send .selectAssets
    let options ← distinctValues filterCols fun _ => []
    pure (s, .masterlist rows options)

def export_excel (s : Session) : Handler :=
  match s.user with
  | none => redirectLogin s
  | some _ => do
    let rows : List Asset ← send .selectAssets
    pure (s, .export_excel rows)

/-! ## new_entry.php -/

def requiredFields : List Col :=
  [.asset_tag, .tag_number, .brand_model, .serial_number, .type_os_type, .processor,
    .type_of_hard_disk, .size_of_disk, .memory, .office_version, .ip_address, .section,
    .type_of_user, .user, .email_password, .date_purchased, .ups, .recovery_type, .unit_type]

def missingFields (p : Post) : List Col := requiredFields.filter fun c => (p c.name).isEmpty

/-- The submitted values with `email_address` in place of the submitted one. -/
def submitted (p : Post) (email_address : Value) : Col → Option Bytes := fun c =>
  if c = .email_address then email_address.bindStr else (p c.name).bindStr

def newValues (p : Post) : Col → Option Bytes :=
  submitted p (if (p (str "email_address")).isEmpty then .str (str "n/a")
    else p (str "email_address"))

def new_entry (s : Session) (b : Body) : Handler :=
  match s.user with
  | none => redirectLogin s
  | some username =>
    match b with
    | .get => .done (s, .new_entry [])
    | .post p =>
      if missingFields p ≠ [] then
        .done (s, .new_entry (str "⚠️ Missing fields: " ++
          implode (str ", ") ((missingFields p).map Col.name)))
      else do
        let r : Except Bytes Int ← send (.insertAsset (newValues p))
        match r with
        | .ok new_id => do
          writeLog username (addedAction new_id)
          pure (s, .redirect (str "masterlist.php"))
        | .error e => pure (s, .new_entry (str "❌ Database error: " ++ e))

/-! ## edit_asset.php -/

/-- The queue after a batch start. -/
def startBatch (p : Post) (queue : Value) : Value :=
  if (p (str "selected_ids")).isSet then json_decode (p (str "selected_ids")) else queue

def editValues (p : Post) : Col → Option Bytes :=
  submitted p (if (trim (p (str "email_address"))).isEmpty then .str (str "n/a")
    else p (str "email_address"))

/-- The queue without the first element loosely equal to the id; `none` is an uncaught error. -/
def dropQueued (assetId queue : Value) : Option Value :=
  match queue with
  | .null => some .null
  | .arr es =>
    match array_search assetId es with
    | some key => some (.list ((unsetKey key es).map Prod.snd))
    | none => some queue
  -- `array_search` gives `null`, which is not `false`; a string offset cannot be unset
  | .str _ => none
  | _ => some .null

/-- The update of an edit form. -/
def update (username : Bytes) (p : Post) : Proc Reply Unit := do
  let _ ← send (.updateAsset (editValues p) (p (str "id")).bindInt)
  writeLog username (editedAction (p (str "id")).toText)

def nextId (queue : Value) (p : Post) : Value :=
  if queue.truthy then queue.index0
  else if (p (str "manual_id")).isSet then p (str "manual_id")
  else .null

/-- The form of the selected asset. -/
def showAsset (s : Session) (success : Bytes) (next_id : Value) : Option Asset → Handler
  | some a => .done (s, .edit_asset [] success (some a))
  | none => .done (s, .edit_asset (str "❌ Asset with ID " ++ next_id.toText ++ str " not found.")
      success none)

/-- The form of the next asset, under the message of an update. -/
def showNext (s : Session) (p : Post) (success : Bytes) : Handler :=
  let next_id := nextId s.edit_queue p
  if next_id.truthy then do
    let asset : Option Asset ← send (.selectAsset next_id.bindInt)
    showAsset s success next_id asset
  else if success = [] then
    .done (s, .edit_asset (str "ℹ️ No asset selected. Enter an ID below.") success none)
  else .done (s, .edit_asset [] success none)

def edit_asset (s : Session) (b : Body) : Handler :=
  match s.user with
  | none => redirectLogin s
  | some username =>
    let p := b.fields
    let s := { s with edit_queue := startBatch p s.edit_queue }
    if (p (str "update")).isSet then do
      update username p
      match dropQueued (p (str "id")) s.edit_queue with
      | none => pure (s, .fatal)
      | some queue =>
        showNext { s with edit_queue := queue } p
          (str "✅ Asset ID " ++ (p (str "id")).toText ++ str " successfully updated.")
    else showNext s p []

/-! ## add_asset.php -/

def addFields : List Bytes :=
  [str "asset_tag", str "tag_number", str "brand_model", str "serial_number", str "processor",
    str "hdd_ssd_size", str "recovery_tape", str "office_version", str "memory",
    str "ip_address", str "user", str "email_address"]

/-- The INSERT of add_asset.php, with the posted texts between quotes. -/
def addInsert (f : Bytes → Bytes) : Bytes :=
  str "INSERT INTO assets (
      asset_tag, tag_number, brand_model, serial_number, processor,
      hdd_ssd_size, recovery_tape, office_version, memory,
      ip_address, user, email_address
    ) VALUES (
      '" ++ f (str "asset_tag") ++ str "', '" ++ f (str "tag_number") ++ str "', '" ++
    f (str "brand_model") ++ str "', '" ++ f (str "serial_number") ++ str "', '" ++
    f (str "processor") ++ str "',
      '" ++ f (str "hdd_ssd_size") ++ str "', '" ++ f (str "recovery_tape") ++ str "', '" ++
    f (str "office_version") ++ str "', '" ++ f (str "memory") ++ str "',
      '" ++ f (str "ip_address") ++ str "', '" ++ f (str "user") ++ str "', '" ++
    f (str "email_address") ++ str "'
    )"

def add_asset (s : Session) : Body → Handler
  | .get => .done (s, .add_asset [])
  | .post p => do
    let r : Except Bytes Unit ← send (.query (addInsert fun n => (p n).toText))
    match r with
    | .ok _ => pure (s, .add_asset (str "<p style='color:green;'>✅ Asset added successfully!</p>"))
    | .error e => pure (s, .add_asset (str "<p style='color:red;'>❌ Error: " ++ e ++ str "</p>"))

/-! ## delete_selected.php -/

/-- The most placeholders a statement can be prepared with. -/
def MAX_PLACEHOLDERS : Nat := 65535

/-- Can the elements be unpacked as arguments? -/
def unpackable : Value → Bool
  | .arr es => es.all fun e => match e.1 with
    | .int _ => true
    | .str _ => false
  | _ => false

/-- Delete the listed assets and log it. -/
def deleteRows (s : Session) (username : Bytes) (ids : Value) : Handler := do
  let r : Bool ← send (.deleteAssets (ids.elems.map Value.bindInt))
  if r = true then do
    writeLog username (deletedAction (ids.elems.map Value.toText))
    pure (s, .text (str "success"))
  else pure (s, .text (str "exec_error"))

def delete_selected (s : Session) (b : Body) : Handler :=
  match s.user with
  | none => .done (s, .text (str "unauthorized"))
  | some username =>
    if (Value.str username).isEmpty then .done (s, .text (str "unauthorized"))
    else match b with
      | .get => .done (s, .text (str "bad_method"))
      | .post p =>
        let ids := json_decode (p (str "selected_ids"))
        if ids.elems = [] then .done (s, .text (str "invalid_input"))
        else if MAX_PLACEHOLDERS < ids.elems.length then .done (s, .text (str "prep_error"))
        else if ¬ unpackable ids then .done (s, .fatal)
        else deleteRows s username ids

/-! ## undo_delete.php -/

def keyText : Key → Bytes
  | .int n => Bytes.intText n
  | .str s => s

def undoRows : List Value → Proc Reply (Option Bool)
  | [] => pure (some true)
  | .arr es :: rows => do
    let r : Option Bool ← send (.insertRow (es.map fun e => keyText e.1) (es.map fun e => e.2.bindStr))
    match r with
    | some true => undoRows rows
    | some false => pure (some false)
    | none => pure none
  -- the statement of a row that is no array cannot be prepared
  | _ :: _ => pure none

def undo_delete (s : Session) : Handler :=
  if s.deleted_records.isSet then do
    let success ← undoRows s.deleted_records.elems
    match success with
    | some true => pure ({ s with deleted_records := .null }, .text (str "success"))
    | some false => pure (s, .text (str "❌ Failed to undo."))
    | none => pure (s, .fatal)
  else .done (s, .text (str "⚠️ No records to undo."))

/-! ## Requests -/

section
variable (sha256 : Bytes → Bytes)

def handle (r : Request) (s : Session) : Handler :=
  match r.page with
  | .login => login s r.body
  | .index => index sha256 s r.body
  | .logout => logout s
  | .dashboard => dashboard s
  | .masterlist => masterlist s
  | .new_entry => new_entry s r.body
  | .edit_asset => edit_asset s r.body
  | .add_asset => add_asset s r.body
  | .delete_selected => delete_selected s r.body
  | .undo_delete => undo_delete s
  | .export_excel => export_excel s

abbrev PageState (I : Type) := Config Reply Env Db Request Session Response I

abbrev PageEvent (I : Type) := Event Stmt Env Db Request Session Response I

/-- The pages over the database. -/
def inventory (sv : Server) : System Reply Env Db Request Session Response where
  exec := exec sv
  handle := handle sha256

end

end Inventory
