import Inventory.Model.Pieces

/-!
# The fields of the edit form

A field is the same for every value it shows, but for a typed value with a
single quote: its input has an attribute too many (`typed_stray`), whatever the
quote makes of the rest of the page.
-/

namespace Inventory

open Lib Php Html

/-- The value of the column is typed in, and stands in single quotes. -/
def Col.isTyped (c : Col) : Bool :=
  match c.kind with
  | .text | .password => true
  | _ => false

/-- The text of a typed field as the page shows it. -/
def Asset.typedText (a : Asset) (c : Col) : Bytes := readable ((a.fields c).getD [])

section
variable {a : Asset} {c : Col}

end

/-! ## The other fields -/

/-- Every typed column but the password stands before a column that is no date. -/
def Spaced : List Col → Prop
  | [] => True
  | [c] => c.isTyped = true → c.kind = .password
  | c :: d :: cs => (c.isTyped = true → c.kind = .password ∨ d.kind ≠ .date) ∧ Spaced (d :: cs)

theorem Spaced.tail {c : Col} {cs : List Col} (h : Spaced (c :: cs)) : Spaced cs := by
  cases cs with
  | nil => trivial
  | cons d cs => exact h.2

section
variable {a b : Asset} {r r' : Bytes}

end

/-! ## The page with a form -/

section
variable {s t : Session} {error success error' success' : Bytes}

end

end Inventory
