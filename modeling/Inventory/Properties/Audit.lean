import Inventory.Model.Sample
import Inventory.Model.Serving

/-!
# The audit log

`AuditLaw` compares what a request did to `assets` with what it wrote to the
log: its statements touched rows (`Touches`) just when it wrote an entry, and
the entry names the user, the operation and the ids of these rows. An edit and a
delete log the ids they were asked for, so the law holds where they are the ids
of rows that change (`auditOk`).
-/

namespace Inventory

open Lib Php

section
variable (sv : Server)

/-- A statement of the list inserted, updated or removed the row `i`. -/
def Touches (past : List (Sent Env Stmt Db)) (i : Int) : Prop :=
  ∃ x ∈ past, (exec sv x.env x.stmt x.before).2.asset i ≠ x.before.asset i

/-- The log rows that a statement added. -/
def newEntries (x : Sent Env Stmt Db) : List LogRow :=
  (exec sv x.env x.stmt x.before).2.log.rows.filter fun r => decide (r ∉ x.before.log.rows)

def entries (past : List (Sent Env Stmt Db)) : List LogRow := past.flatMap (newEntries sv)

/-- How an entry names the operation of a page. -/
def label : Page → Bytes
  | .new_entry => str "Added new asset ID "
  | .edit_asset => str "Edited asset ID "
  | .delete_selected => str "Deleted asset ID: "
  | _ => []

/-- The entry names the user, the operation and exactly the ids in `T`. -/
structure Names (page : Page) (user : Option Bytes) (T : Int → Prop) (r : LogRow) : Prop where
  user : r.username = user
  action : ∃ ids : List Int, (∀ i, i ∈ ids ↔ T i) ∧
    r.action = some (label page ++ implode (str ", ") (ids.map Bytes.intText))

/-- A request writes one log entry if it touched rows, naming them, and none otherwise. -/
structure AuditLaw (q : Request) (s : Session) (past : List (Sent Env Stmt Db)) : Prop where
  iff : entries sv past ≠ [] ↔ ∃ i, Touches sv past i
  one : (entries sv past).length ≤ 1
  names : ∀ r ∈ entries sv past, Names q.page s.user (Touches sv past) r

/-- The log takes the entry as it is. -/
structure Loggable (u a : Bytes) (d : Db) : Prop where
  cleanUser : Sql.clean u = true
  cleanAction : Sql.clean a = true
  userFits : u.length ≤ 100
  actionFits : a.length ≤ 65535
  room : d.log.next ≤ INT_MAX

/-- Where a request sends an update, the posted id is the decimal id of a row that the update
changes; where it sends a delete, every listed value is the decimal id of a row; where it writes
an entry, the log takes it as it is. -/
def auditOk (q : Request) (s : Session) (e : Env) (st : Stmt) (d : Db) : Prop :=
  match st with
  | .updateAsset vals id => ∃ r f, id = some r.id ∧
      (q.body.fields (str "id")).toText = Bytes.intText r.id ∧ d.asset r.id = some r ∧
      sv.castAll vals = some f ∧ (r.fields ≠ f ∨ r.timestamp ≠ e.now)
  | .deleteAssets _ => ∀ v ∈ (json_decode (q.body.fields (str "selected_ids"))).elems,
      ∃ i, v.bindInt = some i ∧ v.toText = Bytes.intText i ∧ d.asset i ≠ none
  | .query sql => ∀ u a, s.user = some u → sql = logInsert u a → Loggable u a d
  | _ => True

end

section
variable {sv : Server} {q : Request} {s : Session} {past : List (Sent Env Stmt Db)}

theorem touches_snoc {x : Sent Env Stmt Db} {i : Int} :
    Touches sv (past ++ [x]) i ↔
      Touches sv past i ∨ (exec sv x.env x.stmt x.before).2.asset i ≠ x.before.asset i := by
  simp only [Touches, List.mem_append, List.mem_singleton, or_and_right, exists_or,
    exists_eq_left]

theorem entries_snoc (x : Sent Env Stmt Db) :
    entries sv (past ++ [x]) = entries sv past ++ newEntries sv x := by
  simp [entries]

theorem auditLaw_nil : AuditLaw sv q s [] where
  iff := ⟨fun h => absurd rfl h, fun ⟨_, _, hm, _⟩ => by cases hm⟩
  one := Nat.zero_le 1
  names _ hm := by cases hm

/-! ## Statements without effect -/

/-- The statement leaves the assets as they are and adds nothing to the log. -/
def Idle (sv : Server) (st : Stmt) : Prop :=
  ∀ e d, (exec sv e st d).2.assets = d.assets ∧
    ∀ r ∈ (exec sv e st d).2.log.rows, r ∈ d.log.rows

theorem newEntries_eq_nil {x : Sent Env Stmt Db}
    (h : ∀ r ∈ (exec sv x.env x.stmt x.before).2.log.rows, r ∈ x.before.log.rows) :
    newEntries sv x = [] :=
  List.filter_eq_nil_iff.mpr fun r hr => by simpa using h r hr

/-- The law is not broken by a statement without effect. -/
theorem AuditLaw.idle (h : AuditLaw sv q s past) {x : Sent Env Stmt Db}
    (hx : (exec sv x.env x.stmt x.before).2.assets = x.before.assets ∧
      ∀ r ∈ (exec sv x.env x.stmt x.before).2.log.rows, r ∈ x.before.log.rows) :
    AuditLaw sv q s (past ++ [x]) := by
  have hE : entries sv (past ++ [x]) = entries sv past := by
    rw [entries_snoc, newEntries_eq_nil hx.2, List.append_nil]
  have hT : Touches sv (past ++ [x]) = Touches sv past := by
    funext i
    refine propext (touches_snoc.trans (or_iff_left fun hne => hne ?_))
    exact congrArg (fun t : Table Asset Asset.id => t.get? i) hx.1
  exact ⟨by rw [hE, hT]; exact h.iff, by rw [hE]; exact h.one, by rw [hE, hT]; exact h.names⟩

theorem guarded_of_idle {ok : Env → Stmt → Db → Prop} {α : Type} {p : Proc Reply α}
    (hp : p.Emits (Idle sv)) (h : AuditLaw sv q s past) :
    p.Guarded (exec sv) ok (fun past _ => AuditLaw sv q s past) past :=
  hp.guarded (exec sv) (fun _ e _ d hi hl => hl.idle (hi e d)) h

theorem idle_prune : Idle sv .prune := fun _ _ => ⟨rfl, fun _ hr => (List.mem_filter.mp hr).1⟩

theorem idle_selectAsset (i : Option Int) : Idle sv (.selectAsset i) := fun _ _ => ⟨rfl, fun _ => id⟩

/-- The INSERT of add_asset.php names columns that no table has. -/
theorem idle_addInsert (f : Bytes → Bytes) : Idle sv (.query (addInsert f)) := fun e d => by
  have hq : queryRows e (addInsert f) = none := by
    rw [queryRows, target_addInsert, if_neg (by decide)]
  have hd : (exec sv e (.query (addInsert f)) d).2 = d := by
    simp only [exec, hq, Option.bind_none]
  rw [hd]
  exact ⟨rfl, fun _ => id⟩

/-- The pages that do not log have no effect, once no record is kept for undo. -/
theorem idle_of_sends (hn : NothingDeleted s) (h1 : q.page ≠ .new_entry) (h2 : q.page ≠ .edit_asset)
    (h3 : q.page ≠ .delete_selected) {st : Stmt} (h : Sends q s st) : Idle sv st := by
  have same : ∀ {st : Stmt}, (∀ e d, (exec sv e st d).2 = d) → Idle sv st := fun he e d => by
    rw [he e d]
    exact ⟨rfl, fun _ => id⟩
  unfold Sends at h
  split at h
  · obtain ⟨_, rfl⟩ := h
    exact same fun _ _ => rfl
  · obtain ⟨_, rfl⟩ := h
    exact same fun _ _ => rfl
  · cases h
  · rw [h.2]
    exact same fun _ _ => rfl
  · obtain ⟨-, rfl | ⟨_, rfl⟩⟩ := h
    · exact same fun _ _ => rfl
    · exact same fun _ _ => rfl
  · next hq => exact absurd hq h1
  · next hq => exact absurd hq h2
  · obtain ⟨_, -, rfl⟩ := h
    exact idle_addInsert _
  · next hq => exact absurd hq h3
  · rw [hn] at h
    exact absurd h.1 (by decide)
  · rw [h.2]
    exact same fun _ _ => rfl

/-! ## The log entry of a request -/

theorem exec_logInsert {u a : Bytes} {d : Db} (h : Loggable u a d) (e : Env) :
    (exec sv e (.query (logInsert u a)) d).2 =
      { d with log := d.log.insert ⟨d.log.next, some u, some a, some e.now⟩ rfl } := by
  have hr := (logInsert_reads u a).mpr ⟨h.cleanUser, h.cleanAction⟩
  have hq : queryRows e (logInsert u a) = some [(some u, some a)] := by
    rw [queryRows, if_pos (target_logInsert u a), show Sql.parseInsert (logInsert u a) = _ from hr]
    simp [logValues, storeText_of_le h.userFits, storeText_of_le h.actionFits]
  simp only [exec, hq, Option.bind_some, appendLog, if_pos h.room]

theorem newEntries_logInsert {u a : Bytes} {d : Db} (h : Loggable u a d) (e : Env) :
    newEntries sv ⟨e, .query (logInsert u a), d⟩ = [⟨d.log.next, some u, some a, some e.now⟩] := by
  have hold : d.log.rows.filter (fun r => decide (r ∉ d.log.rows)) = [] :=
    List.filter_eq_nil_iff.mpr fun r hr => by simpa using hr
  have hnew : (⟨d.log.next, some u, some a, some e.now⟩ : LogRow) ∉ d.log.rows := fun hm => by
    have := d.log.below _ hm
    simp at this
  simp only [newEntries, exec_logInsert h, Table.rows_insert, List.filter_append, hold,
    List.nil_append]
  simp [hnew]

/-- **Logging keeps the law**: after statements that touched some rows, and added no entry, the
entry that names these rows. -/
theorem writeLog_guarded {ok : Env → Stmt → Db → Prop} {u a : Bytes}
    {ids : List Int} (ha : a = label q.page ++ implode (str ", ") (ids.map Bytes.intText))
    (hu : s.user = some u) (hE : entries sv past = [])
    (hne : ids ≠ []) (hT : ∀ i, i ∈ ids ↔ Touches sv past i)
    (hok : ∀ e d, ok e (.query (logInsert u a)) d → Loggable u a d) :
    (writeLog u a).Guarded (exec sv) ok (fun past _ => AuditLaw sv q s past) past := by
  refine guarded_send fun e d ho => ?_
  have hl := hok e d ho
  have hx : newEntries sv ⟨e, .query (logInsert u a), d⟩ = _ := newEntries_logInsert hl e
  have hT' : Touches sv (past ++ [⟨e, .query (logInsert u a), d⟩]) = Touches sv past := by
    funext i
    refine propext (touches_snoc.trans (or_iff_left fun hne => hne ?_))
    show (exec sv e (.query (logInsert u a)) d).2.asset i = d.asset i
    rw [exec_logInsert hl]
    rfl
  refine guarded_of_idle ⟨idle_prune, fun _ => trivial⟩ ⟨?_, ?_, ?_⟩
  · obtain ⟨i, hi⟩ := List.exists_mem_of_ne_nil _ hne
    rw [entries_snoc, hE, hx, hT']
    exact ⟨fun _ => ⟨i, (hT i).mp hi⟩, fun _ => List.cons_ne_nil _ _⟩
  · rw [entries_snoc, hE, hx]
    exact le_rfl
  · intro r hr
    rw [entries_snoc, hE, hx, List.nil_append] at hr
    rw [hT', List.mem_singleton.mp hr]
    exact ⟨hu.symm, ids, hT, congrArg some ha⟩

/-! ## The pages that log -/

/-- A statement that touches the rows `ids`, and the log entry that names them. -/
theorem log_after (ids : List Int) {x : Sent Env Stmt Db} {u a : Bytes}
    (hlog : (exec sv x.env x.stmt x.before).2.log = x.before.log)
    (hT : ∀ i, (exec sv x.env x.stmt x.before).2.asset i ≠ x.before.asset i ↔ i ∈ ids)
    (hne : ids ≠ []) (hu : s.user = some u)
    (ha : a = label q.page ++ implode (str ", ") (ids.map Bytes.intText)) :
    (writeLog u a).Guarded (exec sv) (auditOk sv q s) (fun past _ => AuditLaw sv q s past)
      ([] ++ [x]) := by
  have hE : newEntries sv x = [] := newEntries_eq_nil fun r hr => by rwa [hlog] at hr
  refine writeLog_guarded ha hu ?_ hne (fun i => ?_) fun e d h => h u a hu rfl
  · rw [entries_snoc, hE]
    rfl
  · rw [touches_snoc, hT]
    exact ⟨.inr, fun h => h.resolve_left fun ⟨_, hm, _⟩ => by cases hm⟩

theorem implode_singleton (glue x : Bytes) : implode glue [x] = x := by simp [implode]

theorem exec_insertAsset (sv : Server) (e : Env) (vals : Col → Option Bytes) (d : Db) :
    (∃ m, (exec sv e (.insertAsset vals) d).1 = .error m ∧ (exec sv e (.insertAsset vals) d).2 = d) ∨
      ((exec sv e (.insertAsset vals) d).1 = .ok d.assets.next ∧
        (exec sv e (.insertAsset vals) d).2.log = d.log ∧
        ∀ i, (exec sv e (.insertAsset vals) d).2.asset i ≠ d.asset i ↔ i = d.assets.next) := by
  simp only [exec]
  cases h : (sv.castAll vals).bind fun f => insertNext f e.now d.assets with
  | none => exact .inl ⟨_, rfl, rfl⟩
  | some assets =>
    obtain ⟨f, -, hf⟩ := Option.bind_eq_some_iff.mp h
    unfold insertNext at hf
    split at hf
    · cases hf
      refine .inr ⟨rfl, rfl, fun i => ?_⟩
      have hnext : d.assets.get? d.assets.next = none := Table.get?_next _
      show Table.get? _ i ≠ d.assets.get? i ↔ _
      rw [Table.get?_insert]
      by_cases hi : i = d.assets.next
      · subst hi
        simp [hnext]
      · simp [hi]
    · cases hf

theorem new_entry_guarded (b : Body) : (new_entry s b).Guarded (exec sv)
    (auditOk sv ⟨.new_entry, b⟩ s) (fun past _ => AuditLaw sv ⟨.new_entry, b⟩ s past) [] := by
  unfold new_entry
  split
  · exact auditLaw_nil
  · next u hu =>
    cases b with
    | get => exact auditLaw_nil
    | post p =>
      dsimp only
      split
      · exact auditLaw_nil
      · refine guarded_send fun e d _ => ?_
        rcases exec_insertAsset sv e (newValues p) d with ⟨m, hr, hd⟩ | ⟨hr, hlog, hT⟩
        · rw [hr]
          refine auditLaw_nil.idle (x := ⟨e, .insertAsset (newValues p), d⟩) ?_
          rw [hd]
          exact ⟨rfl, fun _ => id⟩
        · rw [hr]
          refine Proc.Guarded.bind _ (log_after [d.assets.next] hlog (fun i => ?_)
            (List.cons_ne_nil _ _) hu ?_)
          · rw [List.mem_singleton]
            exact hT i
          · rw [List.map_singleton, implode_singleton]
            rfl

/-- An update of a row that changes touches this row. -/
theorem exec_updateAsset {e : Env} {vals : Col → Option Bytes} {d : Db} {r : Asset} {f : Fields}
    (hr : d.asset r.id = some r) (hf : sv.castAll vals = some f)
    (hch : r.fields ≠ f ∨ r.timestamp ≠ e.now) (i : Int) :
    (exec sv e (.updateAsset vals (some r.id)) d).2.asset i ≠ d.asset i ↔ i = r.id := by
  have hr' : d.assets.get? r.id = some r := hr
  show Table.get? (exec sv e (.updateAsset vals (some r.id)) d).2.assets i ≠ d.assets.get? i ↔ _
  simp only [exec_assets, execAssets, Option.bind_some, hr', hf, get?_setRow]
  by_cases hi : i = r.id
  · subst hi
    rw [if_pos rfl, hr', Option.map_some]
    refine iff_of_true (fun h => ?_) rfl
    have hrow := Option.some.inj h
    rcases hch with hch | hch
    · exact hch (congrArg Asset.fields hrow).symm
    · exact hch (congrArg Asset.timestamp hrow).symm
  · rw [if_neg hi]
    exact iff_of_false (fun h => h rfl) hi

theorem update_guarded {b : Body} {u : Bytes} (hu : s.user = some u) :
    (update u b.fields).Guarded (exec sv) (auditOk sv ⟨.edit_asset, b⟩ s)
      (fun past _ => AuditLaw sv ⟨.edit_asset, b⟩ s past) [] := by
  refine guarded_send fun e d ho => ?_
  obtain ⟨r, f, hid, htext, hr, hf, hch⟩ := ho
  rw [hid]
  refine log_after [r.id] (exec_log ..) (fun i => ?_) (List.cons_ne_nil _ _) hu ?_
  · rw [List.mem_singleton]
    exact exec_updateAsset hr hf hch i
  · rw [editedAction, htext, List.map_singleton, implode_singleton]
    rfl

theorem edit_asset_guarded (b : Body) : (edit_asset s b).Guarded (exec sv)
    (auditOk sv ⟨.edit_asset, b⟩ s) (fun past _ => AuditLaw sv ⟨.edit_asset, b⟩ s past) [] := by
  have hshow : ∀ (t : Session) (m : Bytes) {past : List (Sent Env Stmt Db)},
      AuditLaw sv ⟨.edit_asset, b⟩ s past → (showNext t b.fields m).Guarded (exec sv)
        (auditOk sv ⟨.edit_asset, b⟩ s) (fun past _ => AuditLaw sv ⟨.edit_asset, b⟩ s past) past :=
    fun t m _ h => guarded_of_idle (emits_showNext idle_selectAsset t b.fields m) h
  unfold edit_asset
  split
  · exact auditLaw_nil
  · next u hu =>
    dsimp only
    split
    · refine Proc.Guarded.bind _ (Proc.Guarded.mono _ (fun _ _ _ h => h) (fun past _ hl => ?_)
        (update_guarded hu))
      split
      · exact hl
      · exact hshow _ _ hl
    · exact hshow _ _ auditLaw_nil

/-- Decimal ids are listed in the log as the ids they are bound as. -/
theorem map_toText_eq {vs : List Value}
    (h : ∀ v ∈ vs, ∃ i, v.bindInt = some i ∧ v.toText = Bytes.intText i) :
    vs.map Value.toText = (vs.filterMap Value.bindInt).map Bytes.intText := by
  induction vs with
  | nil => rfl
  | cons v vs ih =>
    obtain ⟨i, hi, ht⟩ := h v List.mem_cons_self
    rw [List.filterMap_cons_some hi, List.map_cons, List.map_cons, ht,
      ih fun w hw => h w (List.mem_cons_of_mem _ hw)]

theorem deleteRows_guarded {p : Post} {u : Bytes} (hu : s.user = some u)
    (hne : (json_decode (p (str "selected_ids"))).elems ≠ []) :
    (deleteRows s u (json_decode (p (str "selected_ids")))).Guarded (exec sv)
      (auditOk sv ⟨.delete_selected, .post p⟩ s)
      (fun past _ => AuditLaw sv ⟨.delete_selected, .post p⟩ s past) [] := by
  generalize hv : json_decode (p (str "selected_ids")) = ids at hne
  refine guarded_send fun e d (ho : ∀ v ∈ (json_decode (p (str "selected_ids"))).elems, _) => ?_
  rw [hv] at ho
  refine Proc.Guarded.bind _ (log_after (ids.elems.filterMap Value.bindInt) (exec_log ..)
    (fun i => ?_) (fun h => ?_) hu ?_)
  · show Table.get? (exec sv e (.deleteAssets _) d).2.assets i ≠ d.assets.get? i ↔ _
    rw [exec_assets, execAssets, get?_removeRows, List.mem_filterMap]
    constructor
    · intro hch
      split at hch
      · next hm =>
        obtain ⟨v, hv, hi⟩ := List.mem_map.mp hm
        exact ⟨v, hv, hi⟩
      · exact absurd rfl hch
    · rintro ⟨v, hv, hi⟩
      obtain ⟨j, hj, -, hex⟩ := ho v hv
      obtain rfl : i = j := Option.some.inj (hi.symm.trans hj)
      rw [if_pos (List.mem_map.mpr ⟨v, hv, hi⟩)]
      exact hex.symm
  · obtain ⟨v, hv⟩ := List.exists_mem_of_ne_nil _ hne
    obtain ⟨i, hi, -, -⟩ := ho v hv
    have hm : i ∈ ids.elems.filterMap Value.bindInt := List.mem_filterMap.mpr ⟨v, hv, hi⟩
    rw [h] at hm
    cases hm
  · rw [deletedAction, map_toText_eq fun v hv => ⟨_, (ho v hv).choose_spec.1, (ho v hv).choose_spec.2.1⟩]
    rfl

theorem delete_selected_guarded (b : Body) : (delete_selected s b).Guarded (exec sv)
    (auditOk sv ⟨.delete_selected, b⟩ s)
    (fun past _ => AuditLaw sv ⟨.delete_selected, b⟩ s past) [] := by
  cases b with
  | get =>
    unfold delete_selected
    split
    · exact auditLaw_nil
    · split
      · exact auditLaw_nil
      · exact auditLaw_nil
  | post p =>
    rcases delete_selected_eq s p with ⟨r, he, -⟩ | ⟨u, hd, he⟩
    · rw [he]
      exact auditLaw_nil
    · rw [he]
      exact deleteRows_guarded hd.user hd.elems

/-- Under any interference, a request whose statements meet `auditOk` keeps the law. -/
theorem handle_audited (sha256 : Bytes → Bytes) (sv : Server) (q : Request) (s : Session)
    (hn : NothingDeleted s) : (handle sha256 q s).Guarded (exec sv) (auditOk sv q s)
      (fun past a => AuditLaw sv q s past ∧ NothingDeleted a.1) [] := by
  refine Proc.Guarded.and _ ?_ (Proc.Guarded.mono _ (fun _ _ _ h => h) (fun _ _ h => h.2)
    (handle_guarded sha256 sv q s hn))
  by_cases h1 : q.page = .new_entry
  · obtain ⟨page, b⟩ := q
    obtain rfl : page = .new_entry := h1
    exact new_entry_guarded b
  · by_cases h2 : q.page = .edit_asset
    · obtain ⟨page, b⟩ := q
      obtain rfl : page = .edit_asset := h2
      exact edit_asset_guarded b
    · by_cases h3 : q.page = .delete_selected
      · obtain ⟨page, b⟩ := q
        obtain rfl : page = .delete_selected := h3
        exact delete_selected_guarded b
      · exact guarded_of_idle ((handle_emits sha256 q s).mono fun _ h => idle_of_sends hn h1 h2 h3 h)
          auditLaw_nil

end

/-! ## Runs -/

section
variable {sha256 : Bytes → Bytes} {sv : Server} {I : Type} [DecidableEq I] {c₀ c : PageState I}
  {evs : List (PageEvent I)}

/-- **The log matches the effects.** In every interleaving whose statements meet `auditOk`, each
finished request wrote one entry naming the rows it touched, or touched none and wrote none. -/
theorem log_matches_effects (hidle : ∀ i, c₀.flight i = none)
    (h0 : ∀ i, NothingDeleted (c₀.sess i))
    (h : Run (inventory sha256 sv) (onSent (auditOk sv)) c₀ evs c) :
    AllFinished (fun q s past _ => AuditLaw sv q s past) evs :=
  (h.finished h0 hidle (handle_audited sha256 sv)).2

/-- The delete of the assets 33 and 34 of the sample. -/
theorem log_matches_effects_sample :
    AllFinished (fun q s past _ => AuditLaw .canonical q s past)
      ((loggedIn sample).serving (inventory zeroHash .canonical) 0
        ⟨.delete_selected, .post sampleDelete⟩ fun _ => .at 100) := by
  have hn : ∀ i, NothingDeleted ((loggedIn sample).sess i) := fun _ => rfl
  refine log_matches_effects (fun _ => rfl) hn
    ((Run.start _ (loggedIn sample)).serve 0 _ _ rfl ?_)
  have hids : ∀ v ∈ (json_decode (sampleDelete (str "selected_ids"))).elems,
      ∃ i, v.bindInt = some i ∧ v.toText = Bytes.intText i ∧ sample.asset i ≠ none := by
    rw [sampleDelete_elems]
    exact List.forall_mem_cons.mpr ⟨⟨33, by decide⟩, List.forall_mem_singleton.mpr ⟨34, by decide⟩⟩
  refine ⟨hids, fun u a hu ha => ?_, trivial, trivial⟩
  cases hu
  have ha' := logInsert_right_injective _ ha
  subst ha'
  exact ⟨by decide, by decide, by decide, by decide, by decide⟩

/-- An edit of an asset that is gone changes nothing and is logged. -/
theorem edit_of_missing_asset_logged : ¬ ∀ (evs : List (PageEvent Nat)) (c : PageState Nat),
    Run (inventory zeroHash .canonical) (onSent anySent) (loggedIn sample) evs c →
    AllFinished (fun q s past _ => AuditLaw .canonical q s past) evs := by
  intro h
  have hlaw := h _ _ ((Run.start anySent (loggedIn sample)).serve 0 (sampleEdit (str "99"))
    (fun _ => .at 100) rfl (Proc.meets_of_forall _ (fun _ _ _ => trivial) _ _ _)) 0 _
    (List.mem_append_right _ (List.mem_cons_of_mem _ (List.mem_append_right _
      (List.mem_singleton.mpr rfl))))
  obtain ⟨i, x, hx, hch⟩ := hlaw.iff.mp (by decide)
  have hsame : ∀ x ∈ ((inventory zeroHash .canonical).handle (sampleEdit (str "99"))
      ((loggedIn sample).sess 0)).trace (exec .canonical) (fun _ => .at 100) sample,
      (exec .canonical x.env x.stmt x.before).2.assets = x.before.assets := by decide
  exact hch (congrArg (fun t : Table Asset Asset.id => t.get? i) (hsame x hx))

end

end Inventory
