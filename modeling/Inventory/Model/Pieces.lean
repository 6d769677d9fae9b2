import Inventory.Model.Markup

/-!
# The pieces of the pages

How each piece of a page compares with the same piece of another: texts that are
printed as they are may add tags (`Compared`), whatever else is shown leaves the
structure as it is (`Alike`). The fields of the form are `Alike` when no typed
value holds a single quote.
-/

namespace Inventory

open Lib Php Html

/-! ## Literals -/

section
set_option maxRecDepth 20000

end

/-! ## The navigation bar -/

-- texts that leave markup open can make up for each other
example : skeleton ([str "<!--", str "--></option><option>"].flatMap filterOption) =
    skeleton ([str "4 GB", str "8 GB"].flatMap filterOption) := by decide

section
variable {values values' : Col → List (Option Bytes)}

end

end Inventory
