import Mathlib.Data.Fintype.Pi
import Inventory.Lib.Date
import Inventory.Lib.Table

/-!
# The schema

The tables `assets`, `history_log` and `users`. An asset holds the columns a
form edits as a function of `Col`, with the proof that every value fits its
column; its id lies in the range of `int(11)`. A NULL is `none`.
-/

namespace Inventory

open Lib

/-- The columns of `assets` between `id` and `timestamp`. -/
inductive Col where
  | asset_tag
  | tag_number
  | brand_model
  | serial_number
  | type_os_type
  | processor
  | type_of_hard_disk
  | size_of_disk
  | memory
  | office_version
  | ip_address
  | «section»
  | type_of_user
  | user
  | email_address
  | email_password
  | date_purchased
  | ups
  | recovery_type
  | unit_type
  deriving DecidableEq, Repr

inductive ColType where
  | varchar (n : Nat)
  | date
  deriving DecidableEq, Repr

/-- The texts a column of the type can hold. -/
def ColType.Holds : ColType → Bytes → Prop
  | varchar n, s => s.length ≤ n
  | date, s => Date.isStored s = true

instance (t : ColType) (s : Bytes) : Decidable (t.Holds s) := by
  cases t <;> unfold ColType.Holds <;> infer_instance

namespace Col

/-- The columns in the order of the schema. -/
def all : List Col :=
  [asset_tag, tag_number, brand_model, serial_number, type_os_type, processor, type_of_hard_disk,
    size_of_disk, memory, office_version, ip_address, «section», type_of_user, user,
    email_address, email_password, date_purchased, ups, recovery_type, unit_type]

theorem mem_all (c : Col) : c ∈ all := by cases c <;> decide

instance : Fintype Col := ⟨⟨all, by decide⟩, mem_all⟩

def name : Col → Bytes
  | asset_tag => str "asset_tag"
  | tag_number => str "tag_number"
  | brand_model => str "brand_model"
  | serial_number => str "serial_number"
  | type_os_type => str "type_os_type"
  | processor => str "processor"
  | type_of_hard_disk => str "type_of_hard_disk"
  | size_of_disk => str "size_of_disk"
  | memory => str "memory"
  | office_version => str "office_version"
  | ip_address => str "ip_address"
  | «section» => str "section"
  | type_of_user => str "type_of_user"
  | user => str "user"
  | email_address => str "email_address"
  | email_password => str "email_password"
  | date_purchased => str "date_purchased"
  | ups => str "ups"
  | recovery_type => str "recovery_type"
  | unit_type => str "unit_type"

def type : Col → ColType
  | asset_tag => .varchar 255
  | tag_number => .varchar 255
  | brand_model => .varchar 255
  | serial_number => .varchar 255
  | type_os_type => .varchar 100
  | processor => .varchar 50
  | type_of_hard_disk => .varchar 50
  | size_of_disk => .varchar 50
  | memory => .varchar 50
  | office_version => .varchar 100
  | ip_address => .varchar 100
  | «section» => .varchar 100
  | type_of_user => .varchar 100
  | user => .varchar 100
  | email_address => .varchar 100
  | email_password => .varchar 100
  | date_purchased => .date
  | ups => .varchar 10
  | recovery_type => .varchar 50
  | unit_type => .varchar 50

theorem name_injective : Function.Injective name := by
  have h : ∀ a b : Col, a.name = b.name → a = b := by decide
  exact fun a b => h a b

end Col

/-! ## Assets -/

/-- The columns of a row, each holding what its type can. -/
structure Fields where
  val : Col → Option Bytes
  holds : ∀ c s, val c = some s → c.type.Holds s

@[ext]
theorem Fields.ext {f g : Fields} (h : ∀ c, f.val c = g.val c) : f = g := by
  obtain ⟨f, hf⟩ := f
  obtain ⟨g, hg⟩ := g
  obtain rfl : f = g := funext h
  rfl

instance : DecidableEq Fields := fun f g =>
  decidable_of_iff (f.val = g.val) ⟨fun h => Fields.ext fun c => congrFun h c, congrArg _⟩

instance : CoeFun Fields fun _ => Col → Option Bytes := ⟨Fields.val⟩

def INT_MIN : Int := -2147483648
def INT_MAX : Int := 2147483647

structure Asset where
  id : Int
  idMin : INT_MIN ≤ id
  idMax : id ≤ INT_MAX
  fields : Fields
  timestamp : Nat
  deriving DecidableEq

/-! ## The log and the users -/

structure LogRow where
  id : Int
  username : Option Bytes
  action : Option Bytes
  timestamp : Option Nat
  deriving DecidableEq, Repr

/-- The place of a row under ORDER BY timestamp; NULL is the lowest. -/
def LogRow.rank (r : LogRow) : Nat :=
  match r.timestamp with
  | none => 0
  | some t => t + 1

structure User where
  username : Bytes
  password : Bytes
  deriving DecidableEq, Repr

@[ext]
structure Db where
  assets : Table Asset Asset.id
  log : Table LogRow LogRow.id
  users : List User
  deriving DecidableEq

/-- The row `i` of `assets`, if there is one. -/
def Db.asset (d : Db) (i : Int) : Option Asset := d.assets.get? i

end Inventory
