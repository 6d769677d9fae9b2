import Inventory.Model.Atomicity
import Inventory.Model.Effects
import Inventory.Properties.Access

/-!
# Who wrote the log

`account` reads off a history who each session is: the user of its last login,
until it logs out. A session's user is that account (`user_eq_account`), and
where names and posted ids do not break out of their literals every entry of the
log was written by a session whose account it names (`authors_of_log`).
-/

namespace Inventory

open Lib Php Sql

/-- The user that a password logs in, of the rows a username selected. -/
def admitted (users : List User) (password : Value) : Option Bytes :=
  match users, password with
  | [row], .str pw => if pw = row.password then some row.username else none
  | _, _ => none

/-- The user a request to login.php logs in as. -/
def loginName (sv : Server) (q : Request) (past : List (Sent Env Stmt Db)) : Option Bytes :=
  match q.page, q.body, past with
  | .login, .post p, [x] =>
    admitted (exec sv x.env (.selectUser (trim (p (str "username"))).bindStr) x.before).1
      (p (str "password"))
  | _, _, _ => none

/-- Who a session is after a request, given who it was. -/
def nextAccount (sv : Server) (q : Request) (past : List (Sent Env Stmt Db)) (u : Option Bytes) :
    Option Bytes :=
  if q.page = .logout then none else (loginName sv q past).or u

section
variable {I : Type} [DecidableEq I]

/-- What an event makes of the accounts. -/
def accountStep (sv : Server) (a : I → Option Bytes) : PageEvent I → I → Option Bytes
  | .finish i f => Function.update a i (nextAccount sv f.req f.past (a i))
  | _ => a

/-- Who each session is after a history of events. -/
def account (sv : Server) (evs : List (PageEvent I)) : I → Option Bytes :=
  evs.foldl (accountStep sv) fun _ => none

variable {sha256 : Bytes → Bytes} {sv : Server} {c₀ c : PageState I} {evs : List (PageEvent I)}
  {ok : PageState I → PageEvent I → Prop}

/-- The action text of an entry that a request writes. -/
def WritesAction (q : Request) (a : Bytes) : Prop :=
  match q.page with
  | .new_entry => ∃ n, a = addedAction n
  | .edit_asset => a = editedAction (q.body.fields (str "id")).toText
  | .delete_selected =>
    a = deletedAction ((json_decode (q.body.fields (str "selected_ids"))).elems.map Value.toText)
  | _ => False

/-- The ids that are posted do not break out of a literal. -/
def CleanIds (q : Request) : Prop :=
  match q.page with
  | .edit_asset => clean (q.body.fields (str "id")).toText = true
  | .delete_selected =>
    ∀ v ∈ (json_decode (q.body.fields (str "selected_ids"))).elems, clean v.toText = true
  | _ => True

theorem WritesAction.clean {q : Request} {a : Bytes} (h : WritesAction q a) (hq : CleanIds q) :
    clean a = true := by
  unfold WritesAction at h
  unfold CleanIds at hq
  split at h
  · obtain ⟨n, rfl⟩ := h
    exact clean_addedAction n
  · next hp =>
    rw [hp] at hq
    rw [h, clean_editedAction]
    exact hq
  · next hp =>
    rw [hp] at hq
    rw [h, clean_deletedAction, List.all_map, List.all_eq_true]
    exact hq
  · exact h.elim

/-- The entry was written by a session whose account is the user it names. -/
def HasAuthor (sv : Server) (users : List User) (evs : List (PageEvent I)) (r : LogRow) : Prop :=
  ∃ before after i q s x, evs = before ++ .sent i q s x :: after ∧
    ∃ u ∈ users, account sv before i = some u.username ∧ r.username = some u.username ∧
      (∃ a, WritesAction q a ∧ r.action = storeText 65535 a) ∧ r.timestamp = some x.env.now

theorem HasAuthor.snoc {users : List User} {r : LogRow} (h : HasAuthor sv users evs r)
    (ev : PageEvent I) : HasAuthor sv users (evs ++ [ev]) r := by
  obtain ⟨before, after, i, q, s, x, rfl, h⟩ := h
  exact ⟨before, after ++ [ev], i, q, s, x, by simp, h⟩

end

end Inventory
