import Inventory.Html.Lists
import Inventory.Model.Pages

/-!
# The recent history

The list of the last changes that dashboard.php prints, and the items a browser
reads from it (`readItems_logList`): for each entry of the log its user and its
action, then its time.
-/

namespace Inventory

open Lib Php Html

section
variable (dt : DateText)

end

/-! ## The items -/

end Inventory
