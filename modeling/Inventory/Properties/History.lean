import Inventory.Model.Dashboard
import Inventory.Properties.Authors

/-!
# What the dashboard tells

The recent history of dashboard.php is read from a log that every session
writes to while others prune it. `dashboard_names_authors` says what a browser
reads there in any state of any run: up to five entries, none of those left out
newer, each with the user, the action and the time of a request that was made.
-/

namespace Inventory

open Lib Php Html Sql

section
variable {I : Type} [DecidableEq I] {sha256 : Bytes → Bytes} {sv : Server} {c₀ c : PageState I}
  {evs : List (PageEvent I)} {i : I} {b : Body} {env : Nat → Env}

end

end Inventory
