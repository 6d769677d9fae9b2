import Inventory.Model.Pages

/-!
# Statements and their parameters

The INSERT of new_entry.php and the UPDATE of edit_asset.php as they stand: the
text with its columns and placeholders, the type letters, and the arguments, in
the source's order. `insertValues_eq` and `updateValues_eq` say that position by
position each column is given the field of its own name.
-/

namespace Inventory

open Php Sql

def insertSql : Bytes :=
  str "INSERT INTO assets (\n      asset_tag, tag_number, brand_model, serial_number,\n" ++
    str "      type_os_type, processor, type_of_hard_disk, size_of_disk, memory,\n" ++
    str "      office_version, ip_address, section, type_of_user, user,\n" ++
    str "      email_address, email_password, date_purchased, ups,\n" ++
    str "      recovery_type, unit_type\n" ++
    str "    ) VALUES (?, ?, ?, ?, ?, ?, ?, ?, ?, ?, ?, ?, ?, ?, ?, ?, ?, ?, ?, ?)"

def insertTypes : Bytes := str "ssssssssssssssssssss"

def insertArgs (p : Post) (email_address : Value) : List Value :=
  [p (str "asset_tag"), p (str "tag_number"), p (str "brand_model"), p (str "serial_number"),
    p (str "type_os_type"), p (str "processor"), p (str "type_of_hard_disk"),
    p (str "size_of_disk"), p (str "memory"), p (str "office_version"), p (str "ip_address"),
    p (str "section"), p (str "type_of_user"), p (str "user"), email_address,
    p (str "email_password"), p (str "date_purchased"), p (str "ups"), p (str "recovery_type"),
    p (str "unit_type")]

def updateSql : Bytes :=
  str "UPDATE assets SET asset_tag=?, tag_number=?, brand_model=?, serial_number=?, " ++
    str "type_os_type=?, processor=?, type_of_hard_disk=?, size_of_disk=?, memory=?, " ++
    str "office_version=?, ip_address=?, section=?, type_of_user=?, user=?, " ++
    str "email_address=?, email_password=?, date_purchased=?, ups=?, recovery_type=?, " ++
    str "unit_type=?, timestamp=CURRENT_TIMESTAMP WHERE id=?"

def updateTypes : Bytes := str "ssssssssssssssssssssi"

def updateArgs (p : Post) (email_address : Value) : List Value :=
  [p (str "asset_tag"), p (str "tag_number"), p (str "brand_model"), p (str "serial_number"),
    p (str "type_os_type"), p (str "processor"), p (str "type_of_hard_disk"),
    p (str "size_of_disk"), p (str "memory"), p (str "office_version"), p (str "ip_address"),
    p (str "section"), p (str "type_of_user"), p (str "user"), email_address,
    p (str "email_password"), p (str "date_purchased"), p (str "ups"), p (str "recovery_type"),
    p (str "unit_type"), p (str "id")]

/-! ## Binding -/

/-- A bound parameter. -/
inductive Param where
  | text (v : Option Bytes)
  | int (v : Option Int)
  deriving DecidableEq, Repr

def Param.of (letter : UInt8) (v : Value) : Option Param :=
  if letter = 115 then some (.text v.bindStr)
  else if letter = 105 then some (.int v.bindInt)
  else none

/-- `bind_param`: as many letters as arguments. -/
def bind_param : Bytes → List Value → Option (List Param)
  | [], [] => some []
  | t :: ts, v :: vs => do
    let a ← Param.of t v
    let as ← bind_param ts vs
    pure (a :: as)
  | _, _ => none

/-- `?, ?, …)` at the end of the statement. -/
def readHoles : List Tok → Option Nat
  | .punct 63 :: .punct 44 :: ts => (readHoles ts).map (· + 1)
  | [.punct 63, .punct 41] => some 1
  | _ => none

/-- The table, the columns and the number of placeholders of an INSERT. -/
def readPrepared : List Tok → Option (Bytes × List Bytes × Nat)
  | .word i :: .word n :: .word t :: .punct 40 :: ts =>
    if i == str "INSERT" && n == str "INTO" then
      match readWords ts with
      | some (cols, .word v :: .punct 40 :: ts) =>
        if v == str "VALUES" then (readHoles ts).map fun k => (t, cols, k) else none
      | _ => none
    else none
  | _ => none

/-- `col=?, …` and what follows. -/
def readSets : List Tok → List Bytes × List Tok
  | .word w :: .punct 61 :: .punct 63 :: .punct 44 :: ts => (w :: (readSets ts).1, (readSets ts).2)
  | ts => ([], ts)

/-- The table and the columns of an UPDATE that sets the timestamp last, by id. -/
def readUpdate : List Tok → Option (Bytes × List Bytes)
  | .word u :: .word t :: .word s :: ts =>
    if u == str "UPDATE" && s == str "SET" then
      if (readSets ts).2 = [.word (str "timestamp"), .punct 61, .word (str "CURRENT_TIMESTAMP"),
          .word (str "WHERE"), .word (str "id"), .punct 61, .punct 63] then
        some (t, (readSets ts).1)
      else none
    else none
  | _ => none

/-- A parameter as a column is given it. -/
def Param.val : Param → Option Bytes
  | .text v => v
  | .int v => v.map Bytes.intText

/-- The value each column is given by its position. -/
def placed (cols : List Bytes) (ps : List Param) : Col → Option Bytes :=
  fun c => (given cols (ps.map Param.val) c.name).join

/-- What the INSERT gives each column; `none` if it is not executed. -/
def insertValues (p : Post) (email_address : Value) : Option (Col → Option Bytes) :=
  match (tokens insertSql).bind readPrepared, bind_param insertTypes (insertArgs p email_address) with
  | some (t, cols, n), some ps =>
    if t = str "assets" ∧ cols.length = n ∧ ps.length = n then some (placed cols ps) else none
  | _, _ => none

/-- What the UPDATE gives each column, and the id it is for. -/
def updateValues (p : Post) (email_address : Value) : Option ((Col → Option Bytes) × Option Int) :=
  match (tokens updateSql).bind readUpdate, bind_param updateTypes (updateArgs p email_address) with
  | some (t, cols), some ps =>
    match ps.getLast? with
    | some (.int id) =>
      if t = str "assets" ∧ ps.length = cols.length + 1 then some (placed cols ps.dropLast, id)
      else none
    | _ => none
  | _, _ => none

/-! ## The positions agree -/

theorem given_name {cs : List Col} (f : Col → Option Bytes) {c : Col} (h : c ∈ cs) :
    given (cs.map Col.name) (cs.map f) c.name = some (f c) := by
  induction cs with
  | nil => cases h
  | cons d cs ih =>
    unfold given
    rw [List.map_cons, List.map_cons, List.zip_cons_cons, List.find?_cons]
    by_cases hd : d = c
    · subst hd
      simp
    · have hne : (foldName d.name == foldName c.name) = false := by
        rw [foldName_name, foldName_name]
        simpa using fun he => hd (Col.name_injective he)
      simp only [hne]
      exact ih ((List.mem_cons.mp h).resolve_left (Ne.symm hd))

/-- The arguments are the fields in the order of the schema. -/
theorem bind_insertArgs (p : Post) (email_address : Value) :
    bind_param insertTypes (insertArgs p email_address) =
      some (Col.all.map fun c => .text (submitted p email_address c)) := by
  rfl

theorem bind_updateArgs (p : Post) (email_address : Value) :
    bind_param updateTypes (updateArgs p email_address) =
      some ((Col.all.map fun c => .text (submitted p email_address c)) ++
        [.int (p (str "id")).bindInt]) := by
  rfl

theorem placed_all (p : Post) (email_address : Value) :
    placed (Col.all.map Col.name) (Col.all.map fun c => .text (submitted p email_address c)) =
      submitted p email_address := by
  funext c
  have hvals : (Col.all.map fun c => Param.text (submitted p email_address c)).map Param.val =
      Col.all.map (submitted p email_address) := by
    rw [List.map_map]
    rfl
  rw [placed, hvals, given_name _ (Col.mem_all c)]
  rfl

set_option maxRecDepth 20000 in
theorem insertSql_reads : (tokens insertSql).bind readPrepared =
    some (str "assets", Col.all.map Col.name, 20) := by decide

set_option maxRecDepth 20000 in
theorem updateSql_reads : (tokens updateSql).bind readUpdate =
    some (str "assets", Col.all.map Col.name) := by decide

/-- **The INSERT gives each column the field of its name.** -/
theorem insertValues_eq (p : Post) (email_address : Value) :
    insertValues p email_address = some (submitted p email_address) := by
  unfold insertValues
  rw [insertSql_reads, bind_insertArgs]
  dsimp only
  rw [if_pos ⟨rfl, by decide, rfl⟩, placed_all]

/-- **The UPDATE gives each column the field of its name**, and is for the posted id. -/
theorem updateValues_eq (p : Post) (email_address : Value) :
    updateValues p email_address =
      some (submitted p email_address, (p (str "id")).bindInt) := by
  unfold updateValues
  rw [updateSql_reads, bind_updateArgs]
  dsimp only
  rw [List.getLast?_concat]
  dsimp only
  rw [if_pos ⟨rfl, rfl⟩, List.dropLast_concat, placed_all]

end Inventory
