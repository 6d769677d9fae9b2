import Inventory.Lib.Atomic
import Inventory.Model.Serving

/-!
# When a request takes effect

Of the database, only the assets and the users decide what a request does
(`Db.data`): no page takes anything from the log but the list it shows. Every
request of a session without deleted records settles at its first statement
(`handle_settles`), unless what it posts to index.php leaves its literal. What
`known` leaves out of the answer is read from the log (the list of the
dashboard) or by a later statement (the options of the filters, and the error
and the form after an update).
-/

namespace Inventory

open Lib Php

/-- The assets and the users. -/
def Db.data (d : Db) : Table Asset Asset.id × List User := (d.assets, d.users)

/-- What is known of an answer once the first statement is executed. -/
def known (q : Request) : Response → Response
  | .dashboard _ => .dashboard []
  | .masterlist rows _ => .masterlist rows fun _ => []
  | .edit_asset error success asset =>
    if (q.body.fields (str "update")).isSet then .edit_asset [] success none
    else .edit_asset error success asset
  | r => r

/-! ## The data a statement meets -/

/-- No statement touches the users. -/
theorem exec_users (sv : Server) (e : Env) (st : Stmt) (d : Db) :
    (exec sv e st d).2.users = d.users := by
  cases st with
  | query sql =>
    simp only [exec]
    split <;> rfl
  | insertAsset vals =>
    simp only [exec]
    split <;> rfl
  | updateAsset vals id =>
    simp only [exec]
    split
    · rfl
    · split <;> rfl
  | insertRow cols vals =>
    simp only [exec]
    split
    · split <;> rfl
    · rfl
  | _ => rfl

theorem data_eq {d d' : Db} : d.data = d'.data ↔ d.assets = d'.assets ∧ d.users = d'.users :=
  Prod.mk.injEq .. ▸ Iff.rfl

theorem viewed_data (sv : Server) : Viewed (exec sv) Db.data KeepsAssets where
  congr e st d d' h := by
    obtain ⟨ha, hu⟩ := data_eq.mp h
    rw [data_eq, exec_assets, exec_assets, exec_users, exec_users, ha, hu]
    exact ⟨rfl, rfl⟩
  quiet e st d h := by
    rw [data_eq, exec_users, exec_keeps_assets h]
    exact ⟨rfl, rfl⟩

/-- The statements whose reply depends on the assets and the users alone. -/
def RepliesByData : Stmt → Prop
  | .recent => False
  | .selectLogin sql => (readLogin sql).isSome = true
  | .query sql => Sql.target sql ≠ some (logTable, logCols)
  | _ => True

/-- An INSERT built as text is refused unless it is one into the log. -/
theorem exec_other_query {sql : Bytes} (h : Sql.target sql ≠ some (logTable, logCols)) (sv : Server)
    (e : Env) (d : Db) : exec sv e (.query sql) d = (.error e.message, d) := by
  simp only [exec, queryRows, if_neg h, Option.bind_none]

/-- A login query of the template's form is answered from the users. -/
theorem reply_selectLogin {sql : Bytes} (h : (readLogin sql).isSome = true) (sv : Server) (e : Env)
    {d d' : Db} (hd : d.users = d'.users) :
    (exec sv e (.selectLogin sql) d).1 = (exec sv e (.selectLogin sql) d').1 := by
  obtain ⟨x, hx⟩ := Option.isSome_iff_exists.mp h
  show (loginMatches sv d.users sql).or _ = (loginMatches sv d'.users sql).or _
  rw [loginMatches, loginMatches, hx, hd]
  rfl

/-- The query that index.php builds has the form of its template: what is posted stays in the
literals. -/
def StaysInLiteral (sha256 : Bytes → Bytes) (q : Request) : Prop :=
  ∀ p, q = ⟨.index, .post p⟩ → (readLogin (loginSelect (p (str "username")).toText
    (passwordHash sha256 (p (str "password"))))).isSome = true

theorem staysInLiteral_of_ne {sha256 : Bytes → Bytes} {q : Request} (h : q.page ≠ .index) :
    StaysInLiteral sha256 q := by
  rintro p rfl
  exact absurd rfl h

/-- Clean texts stay in their literals. -/
theorem staysInLiteral_of_clean {sha256 : Bytes → Bytes} {p : Post}
    (hu : Sql.clean (p (str "username")).toText = true)
    (hp : Sql.clean (passwordHash sha256 (p (str "password"))) = true) :
    StaysInLiteral sha256 ⟨.index, .post p⟩ := by
  rintro p' he
  obtain rfl : p = p' := Body.post.inj (Request.mk.inj he).2
  rw [readLogin_clean hu hp]
  rfl

theorem target_add_asset (f : Bytes → Bytes) :
    Sql.target (addInsert f) ≠ some (logTable, logCols) := by
  rw [target_addInsert]
  decide

theorem reply_of_data {sv : Server} {e : Env} {st : Stmt} (hst : RepliesByData st) {d d' : Db}
    (h : d.data = d'.data) : (exec sv e st d).1 = (exec sv e st d').1 := by
  obtain ⟨assets, log, users⟩ := d
  obtain ⟨assets', log', users'⟩ := d'
  obtain ⟨rfl, rfl⟩ : assets = assets' ∧ users = users' := data_eq.mp h
  cases st with
  | recent => exact hst.elim
  | query sql =>
    rw [exec_other_query hst, exec_other_query hst]
  | selectLogin sql => exact reply_selectLogin hst sv e rfl
  | insertAsset vals =>
    simp only [exec]
    split <;> rfl
  | updateAsset vals id =>
    have hd : id.bind (Db.mk assets log users).asset =
        id.bind (Db.mk assets log' users).asset := rfl
    simp only [exec, hd]
    split
    · rfl
    · split <;> rfl
  | insertRow cols vals =>
    simp only [exec]
    split
    · split <;> rfl
    · rfl
  | _ => rfl

/-! ## What settles -/

section
variable {sv : Server} {β : Type} {f : Session × Response → β} {st : Stmt}
  {k : Reply st → Handler}

/-- A request whose first reply decides how it ends. -/
theorem settles_of_reply (hst : RepliesByData st)
    (hk : ∀ r, ∃ o, (k r).Settled KeepsAssets f o) :
    (send st >>= k).Settles (exec sv) Db.data KeepsAssets f := fun e d d' h => by
  obtain ⟨o, ho⟩ := hk (exec sv e st d).1
  refine ⟨o, ho, ?_⟩
  rw [← reply_of_data hst h]
  exact ho

/-- A request that ends the same way whatever is replied. -/
theorem settles_of_const {o : β} (hk : ∀ r, (k r).Settled KeepsAssets f o) :
    (send st >>= k).Settles (exec sv) Db.data KeepsAssets f := fun _ _ _ _ =>
  ⟨o, hk _, hk _⟩

theorem settled_done (a : Session × Response) :
    (Proc.done a : Handler).Settled KeepsAssets f (f a) :=
  ⟨trivial, rfl⟩

/-- After statements whose replies are not used. -/
theorem settled_bind {α : Type} {p : Proc Reply α} {g : α → Handler} {o : β}
    (hp : p.Emits KeepsAssets) (hg : ∀ a, (g a).Settled KeepsAssets f o) :
    (p >>= g).Settled KeepsAssets f o :=
  ⟨hp.bind fun a => (hg a).emits, (ends_true p).bind fun a _ => (hg a).ends⟩

end

section
variable (sv : Server) (s : Session)

/-- The session and what is known of the answer. -/
abbrev outcome (q : Request) (a : Session × Response) : Session × Response := (a.1, known q a.2)

theorem settles_login (q : Request) (b : Body) :
    (login s b).Settles (exec sv) Db.data KeepsAssets (outcome q) := by
  cases b with
  | get => trivial
  | post p =>
    refine settles_of_reply trivial fun (users : List User) => ?_
    split
    · split
      · split
        · exact ⟨_, settled_done _⟩
        · exact ⟨_, settled_done _⟩
      · exact ⟨_, settled_done _⟩
    · exact ⟨_, settled_done _⟩

theorem settles_index (sha256 : Bytes → Bytes) (q : Request) {b : Body}
    (hb : StaysInLiteral sha256 ⟨.index, b⟩) :
    (index sha256 s b).Settles (exec sv) Db.data KeepsAssets (outcome q) := by
  cases b with
  | get => trivial
  | post p =>
    refine settles_of_reply (hb p rfl) fun (rows : Option Nat) => ?_
    split
    · exact ⟨_, settled_done _⟩
    · exact ⟨_, settled_done _⟩

theorem settles_dashboard (q : Request) :
    (dashboard s).Settles (exec sv) Db.data KeepsAssets (outcome q) := by
  unfold dashboard
  split
  · trivial
  · exact settles_of_const (o := (s, .dashboard [])) fun (log : List LogRow) =>
      settled_done (s, .dashboard log)

theorem settles_masterlist (q : Request) :
    (masterlist s).Settles (exec sv) Db.data KeepsAssets (outcome q) := by
  unfold masterlist
  split
  · trivial
  · refine settles_of_reply trivial fun (rows : List Asset) => ?_
    refine ⟨(s, .masterlist rows fun _ => []), settled_bind ?_ fun options => ?_⟩
    · exact emits_distinctValues (fun c => trivial) _ _
    · exact settled_done (s, .masterlist rows options)

theorem settles_export_excel (q : Request) :
    (export_excel s).Settles (exec sv) Db.data KeepsAssets (outcome q) := by
  unfold export_excel
  split
  · trivial
  · exact settles_of_reply trivial fun (rows : List Asset) => ⟨_, settled_done _⟩

theorem settles_new_entry (q : Request) (b : Body) :
    (new_entry s b).Settles (exec sv) Db.data KeepsAssets (outcome q) := by
  unfold new_entry
  split
  · trivial
  · split
    · trivial
    · split
      · trivial
      · refine settles_of_reply trivial fun (r : Except Bytes Int) => ?_
        cases r with
        | ok n => exact ⟨_, settled_bind (writeLog_keeps _ _) fun _ => settled_done _⟩
        | error e => exact ⟨_, settled_done _⟩

/-- The form that is shown next is the first statement of a request without an update. -/
theorem settles_showNext (q : Request) (p : Post) (success : Bytes) :
    (showNext s p success).Settles (exec sv) Db.data KeepsAssets (outcome q) := by
  unfold showNext
  dsimp only
  split
  · refine settles_of_reply trivial fun (r : Option Asset) => ?_
    cases r with
    | none => exact ⟨_, settled_done _⟩
    | some a => exact ⟨_, settled_done _⟩
  · split <;> trivial

/-- The form after an update is not known, but its message is. -/
theorem settled_showNext {q : Request} (hq : (q.body.fields (str "update")).isSet = true)
    (success : Bytes) : (showNext s q.body.fields success).Settled KeepsAssets (outcome q)
      (s, .edit_asset [] success none) := by
  have hk : ∀ error asset, outcome q (s, .edit_asset error success asset) =
      (s, .edit_asset [] success none) := fun error asset => by
    simp only [outcome, known, if_pos hq]
  refine ⟨emits_showNext (fun _ => trivial) _ _ _, ?_⟩
  unfold showNext
  dsimp only
  split
  · refine ends_send fun (r : Option Asset) => ?_
    cases r with
    | none => exact hk _ _
    | some a => exact hk _ _
  · split
    · exact hk _ _
    · exact hk _ _

theorem settles_edit_asset (q : Request) :
    (edit_asset s q.body).Settles (exec sv) Db.data KeepsAssets (outcome q) := by
  unfold edit_asset
  split
  · trivial
  · next u hu =>
    dsimp only
    split
    · next hset =>
      -- the queue follows from the request alone
      cases hq : dropQueued (q.body.fields (str "id")) (startBatch q.body.fields s.edit_queue) with
      | none =>
        exact settles_of_const fun (_ : Bool) =>
          settled_bind (writeLog_keeps _ _) fun _ => settled_done _
      | some queue =>
        exact settles_of_const fun (_ : Bool) =>
          settled_bind (writeLog_keeps _ _) fun _ => settled_showNext _ hset _
    · exact settles_showNext sv _ q _ _

theorem settles_add_asset (q : Request) (b : Body) :
    (add_asset s b).Settles (exec sv) Db.data KeepsAssets (outcome q) := by
  cases b with
  | get => trivial
  | post p =>
    refine settles_of_reply (target_add_asset _) fun (r : Except Bytes Unit) => ?_
    cases r with
    | ok _ => exact ⟨_, settled_done _⟩
    | error e => exact ⟨_, settled_done _⟩

theorem settles_delete_selected (q : Request) (b : Body) :
    (delete_selected s b).Settles (exec sv) Db.data KeepsAssets (outcome q) := by
  cases b with
  | get =>
    unfold delete_selected
    split
    · trivial
    · split <;> trivial
  | post p =>
    rcases delete_selected_eq s p with ⟨r, hr, -⟩ | ⟨u, -, hr⟩
    · rw [hr]
      trivial
    · rw [hr]
      refine settles_of_reply trivial fun (r : Bool) => ?_
      cases r with
      | true => exact ⟨_, settled_bind (writeLog_keeps _ _) fun _ => settled_done _⟩
      | false => exact ⟨_, settled_done _⟩

/-- **Every request settles at its first statement**, as long as its session has no records to
undo and what it posts to index.php stays in its literal. -/
theorem handle_settles (sha256 : Bytes → Bytes) (q : Request) (hq : StaysInLiteral sha256 q)
    (hs : NothingDeleted s) :
    (handle sha256 q s).Settles (exec sv) Db.data KeepsAssets fun a => (a.1, known q a.2) := by
  obtain ⟨page, b⟩ := q
  cases page with
  | login => exact settles_login sv s _ b
  | index => exact settles_index sv s sha256 _ hq
  | logout => trivial
  | dashboard => exact settles_dashboard sv s _
  | masterlist => exact settles_masterlist sv s _
  | new_entry => exact settles_new_entry sv s _ b
  | edit_asset => exact settles_edit_asset sv s _
  | add_asset => exact settles_add_asset sv s _ b
  | delete_selected => exact settles_delete_selected sv s _ b
  | undo_delete =>
    show (undo_delete s).Settles _ _ _ _
    rw [undo_nothing hs]
    trivial
  | export_excel => exact settles_export_excel sv s _

theorem handle_nothingDeleted (sha256 : Bytes → Bytes) (q : Request) (hs : NothingDeleted s) :
    (handle sha256 q s).Ends fun a => NothingDeleted a.1 :=
  (handle_leaves s sha256 q).mono fun _ h => h.nothingDeleted hs

end

instance : Inhabited Env := ⟨⟨0, .stable _, [], none, fun _ => none⟩⟩

end Inventory
