import Inventory.Model.Schema
import Inventory.Sql.Insert

/-!
# The database

`Stmt` are the statements the pages send, `Reply` what the driver gives back
and `exec` their effect in strict mode. A statement that fails changes nothing.

What the source does not fix is a parameter: `Server` (conversions and the
collation), and, for each statement, `Env` (the clock, the order among equal
timestamps, an error message, and the outcome of a statement whose text is not
the one its template writes, which may depend on the whole database).
-/

namespace Inventory

open Lib

/-- The conversions of the database. -/
structure Server where
  castDate : Bytes → Option Bytes
  castDate_stored : ∀ s d, castDate s = some d → Date.isStored d = true
  /-- A date in its canonical form is stored as it is. -/
  castDate_self : ∀ s, Date.isStored s = true → castDate s = some s
  /-- A date of any other form is refused, or stored as the same date. -/
  castDate_date : ∀ s d, Date.isValid s = true → castDate s = some d → Date.parse d = Date.parse s
  /-- Strict mode refuses the empty text as a date. -/
  castDate_empty : castDate [] = none
  castInt : Bytes → Option Int
  castInt_range : ∀ s i, castInt s = some i → INT_MIN ≤ i ∧ i ≤ INT_MAX
  castInt_intText : ∀ i, INT_MIN ≤ i → i ≤ INT_MAX → castInt (Bytes.intText i) = some i
  castStamp : Bytes → Option Nat
  stampText : Nat → Bytes
  castStamp_stampText : ∀ n, castStamp (stampText n) = some n
  /-- Equality of texts under the collation. -/
  same : Bytes → Bytes → Bool
  same_refl : ∀ s, same s s = true
  same_symm : ∀ s t, same s t = true → same t s = true
  same_trans : ∀ s t u, same s t = true → same t u = true → same s u = true
  /-- One value of each class of equal ones, in order. -/
  distinct : List (Option Bytes) → List (Option Bytes)
  distinct_subset : ∀ l, ∀ v ∈ distinct l, v ∈ l

/-- What the database chooses at one statement. -/
structure Env where
  now : Nat
  order : RankBy LogRow.rank
  /-- The text of an error. -/
  message : Bytes
  /-- The rows of a log INSERT whose text is not one row of literals; `none` refuses it. -/
  rows : Option (List (Option Bytes × Option Bytes))
  /-- The number of rows a login query selects when its text is not the template's. -/
  matched : Db → Option Nat

inductive Stmt where
  /-- An INSERT built as text. -/
  | query (sql : Bytes)
  /-- `DELETE FROM history_log WHERE id NOT IN (… ORDER BY timestamp DESC LIMIT 15)` -/
  | prune
  /-- `SELECT * FROM history_log ORDER BY timestamp DESC LIMIT 5` -/
  | recent
  /-- `SELECT * FROM users WHERE username = ?` -/
  | selectUser (username : Option Bytes)
  /-- `SELECT * FROM users WHERE username='…' AND password='…'`, built as text -/
  | selectLogin (sql : Bytes)
  /-- `INSERT INTO assets (…) VALUES (?, …)` -/
  | insertAsset (vals : Col → Option Bytes)
  /-- `UPDATE assets SET …, timestamp=CURRENT_TIMESTAMP WHERE id=?` -/
  | updateAsset (vals : Col → Option Bytes) (id : Option Int)
  /-- `DELETE FROM assets WHERE id IN (?, …)` -/
  | deleteAssets (ids : List (Option Int))
  /-- `SELECT * FROM assets WHERE id = ?` -/
  | selectAsset (id : Option Int)
  /-- `SELECT * FROM assets ORDER BY id ASC` -/
  | selectAssets
  /-- `SELECT DISTINCT col FROM assets ORDER BY col ASC` -/
  | distinct (c : Col)
  /-- `INSERT INTO assets (cols) VALUES (?, …)` -/
  | insertRow (cols : List Bytes) (vals : List (Option Bytes))

def Reply : Stmt → Type
  | .query _ => Except Bytes Unit
  | .prune => Unit
  | .recent => List LogRow
  | .selectUser _ => List User
  | .selectLogin _ => Option Nat
  | .insertAsset _ => Except Bytes Int
  | .updateAsset _ _ => Bool
  | .deleteAssets _ => Bool
  | .selectAsset _ => Option Asset
  | .selectAssets => List Asset
  | .distinct _ => List (Option Bytes)
  -- `none` when the statement cannot be prepared
  | .insertRow _ _ => Option Bool

/-! ## Storing values -/

/-- A text in a column of `n` bytes; only spaces may be cut off. -/
def storeText (n : Nat) (s : Bytes) : Option Bytes :=
  if s.length ≤ n then some s
  else if (s.drop n).all (· == 32) then some (s.take n)
  else none

theorem storeText_of_le {n : Nat} {s : Bytes} (h : s.length ≤ n) : storeText n s = some s :=
  if_pos h

theorem prefix_of_storeText {n : Nat} {s t : Bytes} (h : storeText n s = some t) : t <+: s := by
  unfold storeText at h
  split at h
  · cases h
    exact List.prefix_refl _
  · split at h
    · cases h
      exact List.take_prefix _ _
    · cases h

theorem length_of_storeText {n : Nat} {s t : Bytes} (h : storeText n s = some t) :
    t.length ≤ n := by
  unfold storeText at h
  split at h
  · cases h
    assumption
  · split at h
    · cases h
      simp
    · cases h

namespace Server

variable (sv : Server)

def cast : ColType → Bytes → Option Bytes
  | .varchar n, s => storeText n s
  | .date, s => sv.castDate s

theorem cast_holds {t : ColType} {s v : Bytes} (h : sv.cast t s = some v) : t.Holds v := by
  cases t with
  | varchar n => exact length_of_storeText h
  | date => exact sv.castDate_stored s v h

/-- What a column can hold is stored as it is. -/
theorem cast_self {t : ColType} {s : Bytes} (h : t.Holds s) : sv.cast t s = some s := by
  cases t with
  | varchar n => exact storeText_of_le h
  | date => exact sv.castDate_self s h

/-- The value of a column for a given one; every column allows NULL. -/
def castCol (c : Col) : Option Bytes → Option (Option Bytes)
  | none => some none
  | some s => (sv.cast c.type s).map some

/-- The columns of a row for given values, if the row can store them all. -/
def castAll (vals : Col → Option Bytes) : Option Fields :=
  if h : ∀ c, (sv.castCol c (vals c)).isSome then
    some ⟨fun c => (sv.castCol c (vals c)).get (h c), fun c s hs => by
      obtain ⟨v, hv⟩ := Option.isSome_iff_exists.mp (h c)
      simp only [hv, Option.get_some] at hs
      subst hs
      cases hc : vals c with
      | none => simp [hc, castCol] at hv
      | some t =>
        simp only [hc, castCol, Option.map_eq_some_iff] at hv
        obtain ⟨u, hu, he⟩ := hv
        cases he
        exact sv.cast_holds hu⟩
  else none

theorem castAll_eq_some {vals : Col → Option Bytes} {f : Fields} :
    sv.castAll vals = some f ↔ ∀ c, sv.castCol c (vals c) = some (f c) := by
  unfold castAll
  constructor
  · intro h c
    split at h
    · cases h
      simp
    · cases h
  · intro h
    have hs : ∀ c, (sv.castCol c (vals c)).isSome := fun c => by simp [h c]
    rw [dif_pos hs]
    exact congrArg some (Fields.ext fun c => by simp [h c])

theorem castAll_eq_none {vals : Col → Option Bytes} :
    sv.castAll vals = none ↔ ∃ c, sv.castCol c (vals c) = none := by
  rw [← not_iff_not, not_exists, ← ne_eq, Option.ne_none_iff_exists']
  constructor
  · rintro ⟨f, hf⟩ c hc
    rw [sv.castAll_eq_some.mp hf c] at hc
    cases hc
  · intro h
    have hs : ∀ c, (sv.castCol c (vals c)).isSome := fun c =>
      Option.isSome_iff_ne_none.mpr (h c)
    unfold castAll
    rw [dif_pos hs]
    exact ⟨_, rfl⟩

end Server

/-! ## Statements on `history_log` -/

/-- Append rows under the next keys. -/
def appendLog (now : Nat) : List (Option Bytes × Option Bytes) → Table LogRow LogRow.id →
    Option (Table LogRow LogRow.id)
  | [], t => some t
  | (u, a) :: rs, t =>
    if t.next ≤ INT_MAX then appendLog now rs (t.insert ⟨t.next, u, a, some now⟩ rfl) else none

/-- The row of a log INSERT in the columns `username varchar(100)` and `action text`. -/
def logValues (row : List Sql.Literal) : Option (List (Option Bytes × Option Bytes)) :=
  match row with
  | [u, a] => do
    let u ← storeText 100 u.val
    let a ← storeText 65535 a.val
    pure [(some u, some a)]
  | _ => none

def logTable : Bytes := str "history_log"

def logCols : List Bytes := [str "username", str "action"]

/-- The rows an INSERT built as text adds to `history_log`. The other INSERT built as text names
columns that `assets` does not have and is refused. -/
def queryRows (e : Env) (sql : Bytes) : Option (List (Option Bytes × Option Bytes)) :=
  if Sql.target sql = some (logTable, logCols) then
    match Sql.parseInsert sql with
    | some i => logValues i.row
    | none => e.rows
  else none

/-! ## Statements on `assets` -/

/-- A row as an INSERT of given columns writes it, before the id is known. -/
structure NewRow where
  id : Option Int
  fields : Fields
  timestamp : Nat

def columnNames : List Bytes := str "id" :: (Col.all.map Col.name ++ [str "timestamp"])

/-- The name of a column without its letter case. -/
def foldName (name : Bytes) : Bytes := name.map Bytes.lower

theorem foldName_name (c : Col) : foldName c.name = c.name := by cases c <;> decide

/-- The value given for a column, if the column is named. -/
def given (cols : List Bytes) (vals : List (Option Bytes)) (name : Bytes) : Option (Option Bytes) :=
  ((cols.zip vals).find? fun p => foldName p.1 == foldName name).map Prod.snd

def Server.newRow (sv : Server) (now : Nat) (cols : List Bytes) (vals : List (Option Bytes)) :
    Option NewRow := do
  let id ← match given cols vals (str "id") with
    | some (some s) => (sv.castInt s).map some
    | _ => some none
  let stamp ← match given cols vals (str "timestamp") with
    | some (some s) => sv.castStamp s
    | some none => none
    | none => some now
  let fields ← sv.castAll fun c => (given cols vals c.name).join
  pure ⟨id, fields, stamp⟩

/-- Insert under the next key. -/
def insertNext (f : Fields) (stamp : Nat) (t : Table Asset Asset.id) :
    Option (Table Asset Asset.id) :=
  if h : t.next ≤ INT_MAX then
    some (t.insert ⟨t.next, by have := t.pos; unfold INT_MIN; omega, h, f, stamp⟩ rfl)
  else none

/-- Insert a row; without an id, or with id 0, under the next key. -/
def putRow (r : NewRow) (t : Table Asset Asset.id) : Option (Table Asset Asset.id) :=
  match r.id with
  | some i =>
    if i = 0 then insertNext r.fields r.timestamp t
    else if h : INT_MIN ≤ i ∧ i ≤ INT_MAX then t.put ⟨i, h.1, h.2, r.fields, r.timestamp⟩
    else none
  | none => insertNext r.fields r.timestamp t

/-- Can an INSERT of these columns be prepared? -/
def preparable (cols : List Bytes) (vals : List (Option Bytes)) : Bool :=
  cols.length == vals.length && decide (cols.map foldName).Nodup &&
    (cols.map foldName).all columnNames.contains

/-- Rewrite the columns of a row. -/
def setRow (r : Asset) (f : Fields) (now : Nat) (t : Table Asset Asset.id) : Table Asset Asset.id :=
  t.modify r.id (fun a => { a with fields := f, timestamp := now }) fun _ => rfl

def removeRows (ids : List (Option Int)) (t : Table Asset Asset.id) : Table Asset Asset.id :=
  t.filter fun a => !ids.contains (some a.id)

/-- The username and the password of a login query, when its text is the template's. -/
def readLogin (sql : Bytes) : Option (Bytes × Bytes) :=
  match Sql.tokens sql with
  | some [.word s, .punct 42, .word f, .word t, .word w, .word c, .punct 61, .lit _ u,
      .word a, .word p, .punct 61, .lit _ pw] =>
    if [s, f, t, w, c, a, p] == [str "SELECT", str "FROM", str "users", str "WHERE",
        str "username", str "AND", str "password"] then
      some (u, pw)
    else none
  | _ => none

/-- The number of users that such a query selects. -/
def loginMatches (sv : Server) (users : List User) (sql : Bytes) : Option Nat :=
  (readLogin sql).map fun x =>
    (users.filter fun r => sv.same r.username x.1 && sv.same r.password x.2).length

/-! ## Execution -/

/-- The effect of one statement, atomic and committed. -/
def exec (sv : Server) (e : Env) : (s : Stmt) → Db → Reply s × Db
  | .query sql, d =>
    match (queryRows e sql).bind fun rs => appendLog e.now rs d.log with
    | some log => (.ok (), { d with log })
    | none => (.error e.message, d)
  | .prune, d => ((), { d with log := d.log.keepTop e.order 15 })
  | .recent, d => ((e.order.sort d.log.rows).take 5, d)
  | .selectUser u, d =>
    (d.users.filter fun r => u.any (sv.same r.username), d)
  | .selectLogin sql, d => ((loginMatches sv d.users sql).or (e.matched d), d)
  | .insertAsset vals, d =>
    match (sv.castAll vals).bind fun f => insertNext f e.now d.assets with
    | some assets => (.ok d.assets.next, { d with assets })
    | none => (.error e.message, d)
  | .updateAsset vals id, d =>
    match id.bind d.asset with
    -- without a row to update no value is converted
    | none => (true, d)
    | some r =>
      match sv.castAll vals with
      | some f => (true, { d with assets := setRow r f e.now d.assets })
      | none => (false, d)
  | .deleteAssets ids, d =>
    (true, { d with assets := removeRows ids d.assets })
  | .selectAsset id, d => (id.bind d.asset, d)
  | .selectAssets, d => (d.assets.rows, d)
  | .distinct c, d => (sv.distinct (d.assets.rows.map fun a => a.fields c), d)
  | .insertRow cols vals, d =>
    if preparable cols vals then
      match (sv.newRow e.now cols vals).bind fun r => putRow r d.assets with
      | some assets => (some true, { d with assets })
      | none => (some false, d)
    else (none, d)

end Inventory
