import Inventory.Model.Sample
import Inventory.Model.Serving
import Inventory.Properties.Access

/-!
# Delete and undo

undo_delete.php reads the session key `deleted_records`; no page ever writes it.
So a delete is never undone: after a successful delete of existing assets the
undo sends nothing, and the table is not the original one. If there were records,
the undo would insert them one by one and stop at the first that is refused
(`all_or_nothing_iff`). A delete removes the rows whose ids its elements bind as.
-/

namespace Inventory

open Lib Php

/-- The value lists ids of existing assets, at least one. -/
def ListsAssets (d : Db) (v : Value) : Prop :=
  v.elems ≠ [] ∧ ∀ e ∈ v.elems, ∃ i a, e.bindInt = some i ∧ d.asset i = some a

section
variable {I : Type} [DecidableEq I] (sha256 : Bytes → Bytes) (sv : Server)

/-- A delete and an undo of session `i`, with no other request in between. -/
def deletedThenUndone (c : PageState I) (i : I) (p : Post) (b : Body) (env env' : Nat → Env) :
    PageState I :=
  (c.served (inventory sha256 sv) i ⟨.delete_selected, .post p⟩ env).served
    (inventory sha256 sv) i ⟨.undo_delete, b⟩ env'

variable {sha256 sv} {c₀ c : PageState I} {i : I} {p : Post} {env env' : Nat → Env}
  {evs : List (PageEvent I)} {ok : PageState I → PageEvent I → Prop}

/-- A delete that answers success has removed the listed rows. -/
theorem delete_removes
    (hs : c.answer (inventory sha256 sv) i ⟨.delete_selected, .post p⟩ env =
      .text (str "success")) :
    (c.served (inventory sha256 sv) i ⟨.delete_selected, .post p⟩ env).db.assets =
      removeRows ((json_decode (p (str "selected_ids"))).elems.map Value.bindInt) c.db.assets := by
  unfold Config.answer at hs
  unfold Config.served
  change ((delete_selected (c.sess i) (.post p)).run (exec sv) env c.db).1.2 = _ at hs
  show ((delete_selected (c.sess i) (.post p)).run (exec sv) env c.db).2.assets = _
  rcases delete_selected_eq (c.sess i) p with ⟨r, he, hr⟩ | ⟨u, -, he⟩
  · rw [he] at hs
    exact absurd hs hr
  · rw [he]
    exact deleteRows_assets (c.sess i) u _ env c.db

/-- Without deleted records an undo changes nothing. -/
theorem undo_keeps (hn : NothingDeleted (c.sess i)) (b : Body) :
    (c.served (inventory sha256 sv) i ⟨.undo_delete, b⟩ env').db = c.db := by
  show ((undo_delete (c.sess i)).run (exec sv) env' c.db).2 = c.db
  rw [undo_nothing hn]
  rfl

/-- A delete keeps nothing for the undo. -/
theorem delete_nothingDeleted (hn : NothingDeleted (c.sess i)) :
    NothingDeleted ((c.served (inventory sha256 sv) i ⟨.delete_selected, .post p⟩ env).sess i) := by
  have he : Same _ _ := (ends_delete_selected (c.sess i) (.post p)).run (exec sv) env c.db
  show NothingDeleted (Function.update c.sess i _ i)
  rw [Function.update_self]
  exact (congrArg Session.deleted_records he).trans hn

/-- **A delete is never undone.** In every reachable state, whatever existing assets a delete
lists, once it has answered success the undo leaves a table that is not the original. -/
theorem undo_restores_nothing (h0 : Fresh c₀) (h : Run (inventory sha256 sv) ok c₀ evs c)
    (hl : ListsAssets c.db (json_decode (p (str "selected_ids"))))
    (hs : c.answer (inventory sha256 sv) i ⟨.delete_selected, .post p⟩ env =
      .text (str "success")) (b : Body) :
    (deletedThenUndone sha256 sv c i p b env env').db.assets.rows ≠ c.db.assets.rows := by
  intro he
  have hn : NothingDeleted (c.sess i) := (AccessInv.run h0 h).keeps.1.sess i
  rw [deletedThenUndone, undo_keeps (delete_nothingDeleted hn), delete_removes hs] at he
  obtain ⟨e, hmem⟩ := List.exists_mem_of_ne_nil _ hl.1
  obtain ⟨j, a, hj, ha⟩ := hl.2 e hmem
  have hgone : (removeRows ((json_decode (p (str "selected_ids"))).elems.map Value.bindInt)
      c.db.assets).get? j = none := by
    rw [get?_removeRows, if_pos (List.mem_map.mpr ⟨e, hmem, hj⟩)]
  have hthere : c.db.assets.get? j = some a := ha
  rw [Table.get?, he] at hgone
  rw [Table.get?, hgone] at hthere
  cases hthere

end

theorem listsAssets_sample : ListsAssets sample (json_decode (sampleDelete (str "selected_ids"))) := by
  unfold ListsAssets
  rw [sampleDelete_elems]
  refine ⟨List.cons_ne_nil _ _, fun e hm => ?_⟩
  rcases List.mem_cons.mp hm with rfl | hm
  · exact ⟨33, _, by decide, rfl⟩
  · cases List.mem_singleton.mp hm
    exact ⟨34, _, by decide, rfl⟩

/-- After the login of the sample. -/
def afterLogin : PageState Nat :=
  (loggedOut sample).served (inventory zeroHash .canonical) 0 sampleLogin fun _ => .at 100

theorem undo_restores_nothing_sample :
    (deletedThenUndone zeroHash .canonical afterLogin 0 sampleDelete .get (fun _ => .at 101)
      fun _ => .at 102).db.assets.rows ≠ afterLogin.db.assets.rows := by
  have hr : Run (inventory zeroHash .canonical) (onSent anySent) (loggedOut sample) _ afterLogin :=
    (Run.start anySent (loggedOut sample)).serve 0 sampleLogin (fun _ => .at 100) rfl
      (Proc.meets_of_forall _ (fun _ _ _ => trivial) _ _ _)
  exact undo_restores_nothing (fresh_loggedOut sample) hr listsAssets_sample (by rfl) .get

/-- The assets 33 and 34 are deleted, and still gone after the undo. -/
theorem deleted_rows_stay_gone : ¬ ∀ (d : Db) (p : Post) (env env' : Nat → Env),
    ListsAssets d (json_decode (p (str "selected_ids"))) →
    (loggedIn d).answer (inventory zeroHash .canonical) 0 ⟨.delete_selected, .post p⟩ env =
      .text (str "success") →
    (deletedThenUndone zeroHash .canonical (loggedIn d) 0 p .get env env').db.assets.rows =
      d.assets.rows := by
  intro h
  have hrows := h sample sampleDelete (fun _ => .at 101) (fun _ => .at 102) listsAssets_sample
    (by rfl)
  revert hrows
  decide

/-! ## What a delete removes -/

/-- delete_selected.php changes no asset and does not answer success, or `selected_ids` is a
non-empty array without string keys and the rows that go are those whose id an element names. -/
def DeletesNamed (named : Value → Int → Prop) (sv : Server) (s : Session) (p : Post)
    (env : Nat → Env) (d : Db) : Prop :=
  let ids := json_decode (p (str "selected_ids"))
  let out := (delete_selected s (.post p)).run (exec sv) env d
  (out.2.assets = d.assets ∧ out.1.2 ≠ .text (str "success")) ∨
    (ids.elems ≠ [] ∧ unpackable ids = true ∧
      (∀ i, (∃ e ∈ ids.elems, named e i) → out.2.asset i = none) ∧
      ∀ i, (∀ e ∈ ids.elems, ¬ named e i) → out.2.asset i = d.asset i)

/-- **A delete removes the rows whose id is the integer of an element**, and no others. -/
theorem delete_removes_bound (sv : Server) (s : Session) (p : Post) (env : Nat → Env) (d : Db) :
    DeletesNamed (fun e i => e.bindInt = some i) sv s p env d := by
  unfold DeletesNamed
  dsimp only
  rcases delete_selected_eq s p with ⟨r, hr, hne⟩ | ⟨u, hd, hr⟩
  · rw [hr]
    exact .inl ⟨rfl, hne⟩
  · refine .inr ⟨hd.elems, hd.unpackable, fun i hi => ?_, fun i hi => ?_⟩
    · show ((delete_selected s (.post p)).run (exec sv) env d).2.assets.get? i = none
      obtain ⟨e, he, hei⟩ := hi
      rw [hr, deleteRows_assets, get?_removeRows, if_pos (List.mem_map.mpr ⟨e, he, hei⟩)]
    · show ((delete_selected s (.post p)).run (exec sv) env d).2.assets.get? i = d.assets.get? i
      rw [hr, deleteRows_assets, get?_removeRows, if_neg]
      intro hmem
      obtain ⟨e, he, hei⟩ := List.mem_map.mp hmem
      exact hi e he hei

/-- A text that only starts with the id 33, selected for deletion. -/
def textDelete : Post := fun n =>
  if n = str "selected_ids" then .str (str "[\"33abc\"]") else .null

/-- The element "33abc" deletes the asset 33, whose id it does not write. -/
theorem text_names_no_row : ¬ DeletesNamed (fun e i => Bytes.intText i = e.toText) .canonical
    { user := some (str "admin") } textDelete (fun _ => .at 100) sample := by
  have helems : (json_decode (textDelete (str "selected_ids"))).elems = [.str (str "33abc")] := by rfl
  rintro (⟨-, hanswer⟩ | ⟨-, -, -, hkept⟩)
  · exact hanswer (by rfl)
  · have hrow := hkept 33 (by
      rw [helems]
      intro e he
      rw [List.mem_singleton.mp he]
      decide)
    revert hrow
    decide

/-! ## All or nothing -/

/-- A deleted record: its columns with their values. -/
abbrev Record := List (Key × Value)

/-- The table with a record inserted, if the INSERT is executed. -/
def insertRecord (sv : Server) (e : Env) (es : Record) (t : Table Asset Asset.id) :
    Option (Table Asset Asset.id) :=
  let cols := es.map fun e => keyText e.1
  let vals := es.map fun e => e.2.bindStr
  if preparable cols vals then (sv.newRow e.now cols vals).bind fun r => putRow r t else none

/-- The table with all records inserted, one after the other. -/
def insertRecords (sv : Server) : (Nat → Env) → List Record → Table Asset Asset.id →
    Option (Table Asset Asset.id)
  | _, [], t => some t
  | env, es :: rows, t =>
    (insertRecord sv (env 0) es t).bind (insertRecords sv (fun n => env (n + 1)) rows)

section
variable (sv : Server) (records : List Record) (s : Session) (env : Nat → Env) (d : Db)

/-- undo_delete.php inserts all the records, clears them and answers success. -/
def Restores : Prop :=
  let out := (undo_delete s).run (exec sv) env d
  insertRecords sv env records d.assets = some out.2.assets ∧
    out.1.1.deleted_records = .null ∧ out.1.2 = .text (str "success")

/-- undo_delete.php restores all the records, or leaves the assets and the records as they are, so
that a retry that can insert them restores them. -/
def AllOrNothing : Prop :=
  let out := (undo_delete s).run (exec sv) env d
  Restores sv records s env d ∨
    (out.2.assets = d.assets ∧ out.1.1.deleted_records = s.deleted_records ∧
      ∀ env' d', insertRecords sv env' records d'.assets ≠ none →
        Restores sv records out.1.1 env' d')

end

/-- The INSERT of a record. -/
def recordStmt (es : Record) : Stmt :=
  .insertRow (es.map fun e => keyText e.1) (es.map fun e => e.2.bindStr)

/-- The loop after the reply to an INSERT. -/
def undoNext (rows : List Value) : Option Bool → Proc Reply (Option Bool)
  | some true => undoRows rows
  | some false => pure (some false)
  | none => pure none

/-- The session and the answer after the loop. -/
def undoAnswer (s : Session) : Option Bool → Session × Response
  | some true => ({ s with deleted_records := .null }, .text (str "success"))
  | some false => (s, .text (str "❌ Failed to undo."))
  | none => (s, .fatal)

section
variable {sv : Server} {records : List Record} {s : Session} {env : Nat → Env} {d : Db}
  {es : Record} {rows : List Record} {t : Table Asset Asset.id}

/-- An inserted row has an id that was free. -/
theorem putRow_new {r : NewRow} {t' : Table Asset Asset.id} (h : putRow r t = some t') :
    ∃ i, t.get? i = none ∧ t'.get? i ≠ none := by
  have hnext : ∀ {f : Fields} {stamp : Nat}, insertNext f stamp t = some t' →
      ∃ i, t.get? i = none ∧ t'.get? i ≠ none := by
    intro f stamp hins
    obtain ⟨r, -, -, -, hrow⟩ := insertNext_row hins
    exact ⟨t.next, Table.get?_next t, by rw [hrow]; exact Option.some_ne_none r⟩
  unfold putRow at h
  split at h
  · split at h
    · exact hnext h
    · split at h
      · refine ⟨_, Table.get?_put_eq_none h, ?_⟩
        rw [Table.get?_put h, if_pos rfl]
        exact Option.some_ne_none _
      · cases h
  · exact hnext h

theorem exec_insertRecord (h : insertRecord sv (env 0) es d.assets = some t) :
    exec sv (env 0) (recordStmt es) d = (some true, { d with assets := t }) := by
  simp only [insertRecord] at h
  simp only [recordStmt, exec]
  split at h
  · next hp =>
    rw [if_pos hp, h]
    rfl
  · cases h

theorem exec_refused (h : insertRecord sv (env 0) es d.assets = none) :
    ∃ r : Option Bool, r ≠ some true ∧ exec sv (env 0) (recordStmt es) d = (r, d) := by
  simp only [insertRecord] at h
  simp only [recordStmt, exec]
  split at h
  · next hp =>
    rw [if_pos hp, h]
    exact ⟨some false, by decide, rfl⟩
  · next hp =>
    rw [if_neg hp]
    exact ⟨none, by decide, rfl⟩

/-- The loop at one record. -/
theorem run_undoRows_cons (es : Record) (rows : List Value) :
    (undoRows (.arr es :: rows)).run (exec sv) env d =
      (undoNext rows (exec sv (env 0) (recordStmt es) d).1).run (exec sv) (fun n => env (n + 1))
        (exec sv (env 0) (recordStmt es) d).2 :=
  rfl

/-- When all records can be inserted, the loop inserts them. -/
theorem run_undoRows (h : insertRecords sv env records d.assets = some t) :
    (undoRows (records.map .arr)).run (exec sv) env d = (some true, { d with assets := t }) := by
  induction records generalizing env d with
  | nil =>
    cases h
    rfl
  | cons es rows ih =>
    obtain ⟨t', ht', hrest⟩ := Option.bind_eq_some_iff.mp h
    rw [List.map_cons, run_undoRows_cons, exec_insertRecord ht']
    exact @ih (fun n => env (n + 1)) { d with assets := t' } hrest

/-- A record that is inserted stays, whatever becomes of the ones after it. -/
theorem run_undoRows_changes (h : insertRecord sv (env 0) es d.assets = some t) :
    ((undoRows ((es :: rows).map .arr)).run (exec sv) env d).2.assets ≠ d.assets := by
  obtain ⟨i, hfree, hused⟩ : ∃ i, d.assets.get? i = none ∧ t.get? i ≠ none := by
    simp only [insertRecord] at h
    split at h
    · obtain ⟨r, -, hput⟩ := Option.bind_eq_some_iff.mp h
      exact putRow_new hput
    · cases h
  have hemits : (undoRows (rows.map .arr)).Emits fun st => ∀ ids, st ≠ .deleteAssets ids :=
    emits_undoRows (fun _ _ _ he => by cases he) _
  have hkept := @run_keeps_row sv _ _ i hemits (fun n => env (n + 1)) { d with assets := t } hused
  rw [List.map_cons, run_undoRows_cons, exec_insertRecord h]
  intro he
  exact hkept ((congrArg (Table.get? · i) he).trans hfree)

/-- undo_delete.php ends with what its loop makes of the database. -/
theorem run_undo_delete (hset : s.deleted_records.isSet = true) :
    (undo_delete s).run (exec sv) env d =
      (undoAnswer s ((undoRows s.deleted_records.elems).run (exec sv) env d).1,
        ((undoRows s.deleted_records.elems).run (exec sv) env d).2) := by
  unfold undo_delete
  rw [if_pos hset]
  generalize undoRows s.deleted_records.elems = loop
  induction loop generalizing env d with
  | done r =>
    match r with
    | some true => rfl
    | some false => rfl
    | none => rfl
  | call st k ih => exact ih _

/-- When all records can be inserted, they are restored. -/
theorem restores_of_insertRecords (hs : s.deleted_records = .list (records.map .arr))
    (h : insertRecords sv env records d.assets ≠ none) : Restores sv records s env d := by
  obtain ⟨t, ht⟩ := Option.ne_none_iff_exists'.mp h
  have hset : s.deleted_records.isSet = true := by
    rw [hs]
    rfl
  unfold Restores
  rw [run_undo_delete hset, hs, Value.elems_list, run_undoRows ht]
  exact ⟨ht, rfl, rfl⟩

/-- **When an undo is all or nothing**: when all records can be inserted, each into the table that
the ones before it leave, or the first one cannot. -/
theorem all_or_nothing_iff (hs : s.deleted_records = .list (records.map .arr)) :
    AllOrNothing sv records s env d ↔
      insertRecords sv env records d.assets ≠ none ∨
        ∃ es rows, records = es :: rows ∧ insertRecord sv (env 0) es d.assets = none := by
  have hset : s.deleted_records.isSet = true := by
    rw [hs]
    rfl
  constructor
  · rintro (⟨hall, -⟩ | ⟨hkept, -⟩)
    · exact .inl (by rw [hall]; exact Option.some_ne_none _)
    · cases records with
      | nil => exact .inl (Option.some_ne_none _)
      | cons es rows =>
        cases ht : insertRecord sv (env 0) es d.assets with
        | none => exact .inr ⟨es, rows, rfl, ht⟩
        | some t =>
          rw [run_undo_delete hset, hs, Value.elems_list] at hkept
          exact absurd hkept (run_undoRows_changes ht)
  · rintro (hall | ⟨es, rows, rfl, hfirst⟩)
    · exact .inl (restores_of_insertRecords hs hall)
    · obtain ⟨r, hr, hrun⟩ := exec_refused hfirst
      obtain ⟨hd, hsess⟩ : ((undo_delete s).run (exec sv) env d).2 = d ∧
          ((undo_delete s).run (exec sv) env d).1.1 = s := by
        rw [run_undo_delete hset, hs, Value.elems_list, List.map_cons, run_undoRows_cons, hrun]
        match r, hr with
        | some false, _ => exact ⟨rfl, rfl⟩
        | none, _ => exact ⟨rfl, rfl⟩
      refine .inr ⟨by rw [hd], by rw [hsess], fun env' d' hretry => ?_⟩
      rw [hsess]
      exact restores_of_insertRecords hs hretry

end

/-- A record with an id and an asset tag. -/
def sampleRecord (id : Bytes) : Record :=
  [(.str (str "id"), .str id), (.str (str "asset_tag"), .str (str "ASSET"))]

/-- A session with records to undo. -/
def withRecords (records : List Record) : Session :=
  { user := some (str "admin"), deleted_records := .list (records.map .arr) }

/-- The deleted assets 35 and 36 are restored. -/
theorem all_or_nothing_sample : AllOrNothing .canonical
    [sampleRecord (str "35"), sampleRecord (str "36")]
    (withRecords [sampleRecord (str "35"), sampleRecord (str "36")]) (fun _ => .at 100) sample := by
  refine (all_or_nothing_iff rfl).mpr (.inl ?_)
  decide

/-- The asset 35 comes back and the asset 33, whose id is in use, does not: the records are kept,
and a retry fails at the asset 35. -/
theorem half_undone : ¬ AllOrNothing .canonical
    [sampleRecord (str "35"), sampleRecord (str "33")]
    (withRecords [sampleRecord (str "35"), sampleRecord (str "33")]) (fun _ => .at 100) sample := by
  rintro (⟨hall, -⟩ | ⟨hkept, -⟩)
  · have hnone : insertRecords .canonical (fun _ => .at 100)
        [sampleRecord (str "35"), sampleRecord (str "33")] sample.assets = none := by decide
    rw [hnone] at hall
    cases hall
  · revert hkept
    decide

end Inventory
