import Inventory.Model.Effects
import Inventory.Model.Sessions

/-!
# What a request does to the assets

Only four statements write `assets` (`KeepsAssets` are the others), and only the
first statement of an edit or a delete is one of them: what such a request makes
of the table is what that statement makes of it.
-/

namespace Inventory

open Lib Php

/-- The statements that leave `assets` as it is. -/
def KeepsAssets : Stmt → Prop
  | .insertAsset _ | .updateAsset _ _ | .deleteAssets _ | .insertRow _ _ => False
  | _ => True

theorem exec_keeps_assets {sv : Server} {e : Env} {st : Stmt} {d : Db} (h : KeepsAssets st) :
    (exec sv e st d).2.assets = d.assets := by
  rw [exec_assets]
  cases st <;> first | rfl | exact absurd h id

section
variable {sv : Server} {α : Type} {p : Proc Reply α}

theorem run_keeps_assets (h : p.Emits KeepsAssets) (env : Nat → Env) (d : Db) :
    (p.run (exec sv) env d).2.assets = d.assets :=
  h.run_keeps (exec sv) (fun _ _ _ => exec_keeps_assets) env d

/-- After a statement only the log is written. -/
theorem run_send_assets (st : Stmt) {f : Reply st → Proc Reply α} (hf : ∀ r, (f r).Emits KeepsAssets)
    (env : Nat → Env) (d : Db) :
    ((send st >>= f).run (exec sv) env d).2.assets = execAssets sv (env 0) st d.assets := by
  rw [Proc.stmt_bind, Proc.run_call, run_keeps_assets (hf _), exec_assets]

/-- What a request ends with whatever the reply to its first statement is, it ends with for the
reply that is given. -/
theorem run_send_ends (st : Stmt) {f : Reply st → Proc Reply α} {P : Reply st → α → Prop}
    (hf : ∀ r, (f r).Ends (P r)) (env : Nat → Env) (d : Db) :
    P (exec sv (env 0) st d).1 ((send st >>= f).run (exec sv) env d).1 :=
  (hf _).run (exec sv) _ _

end

theorem writeLog_keeps (u a : Bytes) : (writeLog u a).Emits KeepsAssets :=
  emits_writeLog trivial trivial

/-! ## Rows of the table -/

theorem get?_removeRows (ids : List (Option Int)) (t : Table Asset Asset.id) (i : Int) :
    (removeRows ids t).get? i = if some i ∈ ids then none else t.get? i := by
  rw [removeRows, Table.get?_filter]
  cases h : t.get? i with
  | none => simp
  | some a =>
    obtain rfl : a.id = i := Table.key_of_get? h
    by_cases hi : some a.id ∈ ids <;> simp [Option.filter_some, hi]

theorem get?_setRow (r : Asset) (f : Fields) (now : Nat) (t : Table Asset Asset.id) (i : Int) :
    (setRow r f now t).get? i =
      if i = r.id then (t.get? i).map fun a => { a with fields := f, timestamp := now }
      else t.get? i :=
  Table.get?_modify _ _ _ _ _

/-- An update of a row that exists. -/
theorem execAssets_update {sv : Server} {t : Table Asset Asset.id} {r : Asset}
    (hr : t.get? r.id = some r) (e : Env) (vals : Col → Option Bytes) :
    execAssets sv e (.updateAsset vals (some r.id)) t =
      (sv.castAll vals).elim t fun f => setRow r f e.now t := by
  simp only [execAssets, Option.bind_some, hr]
  cases sv.castAll vals <;> rfl

/-- An UPDATE is refused only when a row is found and its values are not accepted. -/
theorem updateAsset_ok {sv : Server} {e : Env} {vals : Col → Option Bytes} {id : Option Int}
    {d : Db} : (exec sv e (.updateAsset vals id) d).1 = true ↔
      id.bind d.asset = none ∨ sv.castAll vals ≠ none := by
  simp only [exec]
  cases id.bind d.asset with
  | none => exact ⟨fun _ => .inl rfl, fun _ => rfl⟩
  | some r =>
    cases sv.castAll vals with
    | none =>
      constructor
      · intro h
        cases h
      · rintro (h | h)
        · cases h
        · exact absurd rfl h
    | some g => exact ⟨fun _ => .inr (Option.some_ne_none g), fun _ => rfl⟩

/-- A row that is inserted comes last, under the next key. -/
theorem insertNext_row {g : Fields} {stamp : Nat} {t t' : Table Asset Asset.id}
    (h : insertNext g stamp t = some t') :
    ∃ r : Asset, r.id = t.next ∧ r.fields = g ∧ t'.rows = t.rows ++ [r] ∧ t'.get? t.next = some r := by
  unfold insertNext at h
  split at h
  · next hmax =>
    cases h
    have hmin : INT_MIN ≤ t.next := by
      have hpos := t.pos
      unfold INT_MIN
      omega
    refine ⟨⟨t.next, hmin, hmax, g, stamp⟩, rfl, rfl, rfl, ?_⟩
    rw [Table.get?_insert, if_pos rfl]
  · cases h

theorem insertNext_keeps {f : Fields} {stamp : Nat} {t t' : Table Asset Asset.id}
    (h : insertNext f stamp t = some t') {i : Int} (hi : t.get? i ≠ none) : t'.get? i ≠ none := by
  unfold insertNext at h
  split at h
  · cases h
    rw [Table.get?_insert]
    split
    · exact Option.some_ne_none _
    · exact hi
  · cases h

theorem putRow_keeps {r : NewRow} {t t' : Table Asset Asset.id} (h : putRow r t = some t') {i : Int}
    (hi : t.get? i ≠ none) : t'.get? i ≠ none := by
  unfold putRow at h
  split at h
  · split at h
    · exact insertNext_keeps h hi
    · split at h
      · rw [Table.get?_put h]
        split
        · exact Option.some_ne_none _
        · exact hi
      · cases h
  · exact insertNext_keeps h hi

theorem getD_bind_keeps {γ : Type} {o : Option γ} {g : γ → Option (Table Asset Asset.id)}
    {t : Table Asset Asset.id} {i : Int}
    (hg : ∀ x t', g x = some t' → t'.get? i ≠ none) (hi : t.get? i ≠ none) :
    ((o.bind g).getD t).get? i ≠ none := by
  cases hb : o.bind g with
  | none => exact hi
  | some t' =>
    obtain ⟨x, -, hx⟩ := Option.bind_eq_some_iff.mp hb
    exact hg x t' hx

/-- Only a delete removes a row. -/
theorem exec_keeps_row {sv : Server} {e : Env} {st : Stmt} {d : Db} {i : Int}
    (hst : ∀ ids, st ≠ .deleteAssets ids) (hi : d.asset i ≠ none) :
    (exec sv e st d).2.asset i ≠ none := by
  have hi' : d.assets.get? i ≠ none := hi
  show (exec sv e st d).2.assets.get? i ≠ none
  rw [exec_assets]
  cases st with
  | deleteAssets ids => exact absurd rfl (hst ids)
  | insertAsset vals =>
    exact getD_bind_keeps (fun f t' h => insertNext_keeps h hi') hi'
  | insertRow cols vals =>
    simp only [execAssets]
    split
    · exact getD_bind_keeps (fun r t' h => putRow_keeps h hi') hi'
    · exact hi'
  | updateAsset vals id =>
    simp only [execAssets]
    split
    · rw [get?_setRow]
      split
      · simpa using hi'
      · exact hi'
    · exact hi'
  | _ => exact hi'

/-- A request that sends no delete removes no row. -/
theorem run_keeps_row {sv : Server} {α : Type} {p : Proc Reply α} {i : Int}
    (h : p.Emits fun st => ∀ ids, st ≠ .deleteAssets ids) (env : Nat → Env) {d : Db}
    (hi : d.asset i ≠ none) : (p.run (exec sv) env d).2.asset i ≠ none :=
  h.run_inv (exec sv) (fun d => d.asset i ≠ none) (fun _ _ _ hst hi => exec_keeps_row hst hi) env hi

/-! ## delete_selected.php -/

section
variable (s : Session) (p : Post)

theorem text_ne {a b : Bytes} (h : a ≠ b) : Response.text a ≠ .text b :=
  fun e => h (Response.text.inj e)

/-- The request passes every check of delete_selected.php. -/
structure Deletes (u : Bytes) (ids : Value) : Prop where
  user : s.user = some u
  named : (Value.str u).isEmpty = false
  elems : ids.elems ≠ []
  placeholders : ids.elems.length ≤ MAX_PLACEHOLDERS
  unpackable : unpackable ids = true

/-- delete_selected.php refuses a request without a statement, or deletes. -/
theorem delete_selected_eq :
    (∃ r, delete_selected s (.post p) = .done (s, r) ∧ r ≠ .text (str "success")) ∨
      ∃ u, Deletes s u (json_decode (p (str "selected_ids"))) ∧
        delete_selected s (.post p) = deleteRows s u (json_decode (p (str "selected_ids"))) := by
  unfold delete_selected
  split
  · exact .inl ⟨_, rfl, text_ne (by decide)⟩
  · next u hu =>
    split
    · exact .inl ⟨_, rfl, text_ne (by decide)⟩
    · next hname =>
      dsimp only
      split
      · exact .inl ⟨_, rfl, text_ne (by decide)⟩
      · next hne =>
        split
        · exact .inl ⟨_, rfl, text_ne (by decide)⟩
        · next hmax =>
          split
          · exact .inl ⟨_, rfl, fun e => by cases e⟩
          · next hpack =>
            exact .inr ⟨u, ⟨hu, by simpa using hname, hne, by omega, by simpa using hpack⟩, rfl⟩

theorem deleteRows_assets {sv : Server} (u : Bytes) (ids : Value) (env : Nat → Env) (d : Db) :
    ((deleteRows s u ids).run (exec sv) env d).2.assets =
      removeRows (ids.elems.map Value.bindInt) d.assets := by
  refine run_send_assets (.deleteAssets _) (fun (r : Bool) => ?_) env d
  split
  · exact (writeLog_keeps _ _).bind fun _ => trivial
  · trivial

end

/-- delete_selected.php removes rows or leaves the assets as they are. -/
theorem delete_selected_assets {sv : Server} {s : Session} (b : Body) (env : Nat → Env) (d : Db) :
    (∃ ids, ((delete_selected s b).run (exec sv) env d).2.assets = removeRows ids d.assets) ∨
      ((delete_selected s b).run (exec sv) env d).2.assets = d.assets := by
  cases b with
  | get =>
    refine .inr ?_
    unfold delete_selected
    split
    · rfl
    · split <;> rfl
  | post p =>
    rcases delete_selected_eq s p with ⟨r, hr, -⟩ | ⟨u, -, hr⟩
    · rw [hr]
      exact .inr rfl
    · rw [hr, deleteRows_assets]
      exact .inl ⟨_, rfl⟩

/-! ## new_entry.php -/

theorem new_entry_guest {s : Session} (hu : s.user = none) (b : Body) :
    new_entry s b = redirectLogin s := by
  unfold new_entry
  rw [hu]

theorem not_missing {p : Post} (h : missingFields p = []) {c : Col} (hc : c ∈ requiredFields) :
    (p c.name).isEmpty = false := by
  cases he : (p c.name).isEmpty with
  | false => rfl
  | true =>
    have hm : c ∈ missingFields p := List.mem_filter.mpr ⟨hc, he⟩
    rw [h] at hm
    cases hm

/-- What a form posted to new_entry.php makes of the assets. -/
def newAssets (sv : Server) (e : Env) (p : Post) (t : Table Asset Asset.id) :
    Table Asset Asset.id :=
  if missingFields p = [] then execAssets sv e (.insertAsset (newValues p)) t else t

theorem new_entry_assets {sv : Server} {s : Session} (hu : s.user ≠ none) (p : Post)
    (env : Nat → Env) (d : Db) :
    ((new_entry s (.post p)).run (exec sv) env d).2.assets = newAssets sv (env 0) p d.assets := by
  obtain ⟨u, hu⟩ := Option.ne_none_iff_exists'.mp hu
  unfold new_entry newAssets
  rw [hu]
  dsimp only
  by_cases h : missingFields p = []
  · rw [if_neg (not_not.mpr h), if_pos h]
    refine run_send_assets (.insertAsset _) (fun (r : Except Bytes Int) => ?_) env d
    cases r with
    | ok n => exact (writeLog_keeps _ _).bind fun _ => trivial
    | error m => trivial
  · rw [if_pos h, if_neg h]
    rfl

/-- The answer of an INSERT is a new id when the row was inserted. -/
theorem insertAsset_ok {sv : Server} {e : Env} {vals : Col → Option Bytes} {d : Db} :
    (∃ n, (exec sv e (.insertAsset vals) d).1 = Except.ok (ε := Bytes) (α := Int) n) ↔
      ((sv.castAll vals).bind fun f => insertNext f e.now d.assets) ≠ none := by
  simp only [exec]
  cases h : (sv.castAll vals).bind fun f => insertNext f e.now d.assets with
  | none => simp
  | some t => exact ⟨fun _ => Option.some_ne_none t, fun _ => ⟨_, rfl⟩⟩

/-! ## The other pages -/

/-- Four pages write the assets. -/
theorem handle_keeps_assets {sha256 : Bytes → Bytes} {sv : Server} {q : Request}
    (h1 : q.page ≠ .new_entry) (h2 : q.page ≠ .edit_asset) (h3 : q.page ≠ .delete_selected)
    (h4 : q.page ≠ .undo_delete) (s : Session) (env : Nat → Env) (d : Db) :
    ((handle sha256 q s).run (exec sv) env d).2.assets = d.assets := by
  refine run_keeps_assets ((handle_emits sha256 q s).mono fun st hst => ?_) env d
  unfold Sends at hst
  split at hst
  · obtain ⟨_, rfl⟩ := hst
    trivial
  · obtain ⟨_, rfl⟩ := hst
    trivial
  · exact hst.elim
  · obtain ⟨-, rfl⟩ := hst
    trivial
  · obtain ⟨-, rfl | ⟨_, rfl⟩⟩ := hst <;> trivial
  · next hq => exact absurd hq h1
  · next hq => exact absurd hq h2
  · obtain ⟨_, -, rfl⟩ := hst
    trivial
  · next hq => exact absurd hq h3
  · next hq => exact absurd hq h4
  · obtain ⟨-, rfl⟩ := hst
    trivial

/-! ## edit_asset.php -/

theorem edit_asset_guest {s : Session} (hu : s.user = none) (b : Body) :
    edit_asset s b = redirectLogin s := by
  unfold edit_asset
  rw [hu]

/-- The queue from which a request takes the next asset; `none` is an uncaught error. -/
def nextQueue (p : Post) (queue : Value) : Option Value :=
  if (p (str "update")).isSet then dropQueued (p (str "id")) (startBatch p queue)
  else some (startBatch p queue)

/-- The asset whose form is shown. -/
def formAsset (d : Db) (queue : Value) (p : Post) : Option Asset :=
  if (nextId queue p).truthy then (nextId queue p).bindInt.bind d.asset else none

/-- `$success` of edit_asset.php; empty when no form was submitted. -/
def successText (p : Post) : Bytes :=
  if (p (str "update")).isSet then
    str "✅ Asset ID " ++ (p (str "id")).toText ++ str " successfully updated."
  else []

/-- `$error` of edit_asset.php. -/
def nextError (d : Db) (queue : Value) (p : Post) (success : Bytes) : Bytes :=
  if (nextId queue p).truthy then
    if ((nextId queue p).bindInt.bind d.asset).isSome then []
    else str "❌ Asset with ID " ++ (nextId queue p).toText ++ str " not found."
  else if success = [] then str "ℹ️ No asset selected. Enter an ID below."
  else []

/-- The asset whose form a response shows. -/
def Response.form : Response → Option Asset
  | .edit_asset _ _ a => a
  | _ => none

/-- What a request to edit_asset.php makes of the assets. -/
def editAssets (sv : Server) (e : Env) (p : Post) (t : Table Asset Asset.id) :
    Table Asset Asset.id :=
  if (p (str "update")).isSet then
    execAssets sv e (.updateAsset (editValues p) (p (str "id")).bindInt) t
  else t

/-- An update removes no row and makes none. -/
theorem editAssets_eq_none {sv : Server} {e : Env} {p : Post} {t : Table Asset Asset.id} {i : Int} :
    (editAssets sv e p t).get? i = none ↔ t.get? i = none := by
  unfold editAssets
  split
  · simp only [execAssets]
    split
    · rw [get?_setRow]
      split
      · exact Option.map_eq_none_iff
      · exact Iff.rfl
    · exact Iff.rfl
  · exact Iff.rfl

section
variable {sv : Server} {s : Session}

theorem run_showNext (sv : Server) (s : Session) (p : Post) (success : Bytes) (env : Nat → Env) (d : Db) :
    (showNext s p success).run (exec sv) env d =
      ((s, .edit_asset (nextError d s.edit_queue p success) success (formAsset d s.edit_queue p)),
        d) := by
  unfold showNext formAsset nextError
  dsimp only
  split
  · show (showAsset s success (nextId s.edit_queue p)
      ((nextId s.edit_queue p).bindInt.bind d.asset)).run (exec sv) (fun n => env (n + 1)) d = _
    cases (nextId s.edit_queue p).bindInt.bind d.asset with
    | none => rfl
    | some a => rfl
  · split <;> rfl

theorem run_update_assets (u : Bytes) (p : Post) (env : Nat → Env) (d : Db) :
    ((update u p).run (exec sv) env d).2.assets =
      execAssets sv (env 0) (.updateAsset (editValues p) (p (str "id")).bindInt) d.assets :=
  run_send_assets _ (fun _ => writeLog_keeps _ _) env d

/-- **What edit_asset.php does**: it updates the asset if the form was submitted, and shows the
next one, or ends in an uncaught error. -/
theorem edit_asset_run {u : Bytes} (hu : s.user = some u) (b : Body) (env : Nat → Env) (d : Db) :
    ∃ d', d'.assets = editAssets sv (env 0) b.fields d.assets ∧
      match nextQueue b.fields s.edit_queue with
      | none => ((edit_asset s b).run (exec sv) env d) =
          (({ s with edit_queue := startBatch b.fields s.edit_queue }, .fatal), d')
      | some queue => (edit_asset s b).run (exec sv) env d =
          (({ s with edit_queue := queue },
            .edit_asset (nextError d' queue b.fields (successText b.fields)) (successText b.fields)
              (formAsset d' queue b.fields)), d') := by
  obtain ⟨user, username, queue, deleted⟩ := s
  obtain rfl : user = some u := hu
  unfold edit_asset nextQueue editAssets successText
  dsimp only
  generalize startBatch b.fields queue = started
  split
  · refine ⟨_, run_update_assets u b.fields env d, ?_⟩
    cases hq : dropQueued (b.fields (str "id")) started with
    | none =>
      obtain ⟨env', he⟩ := Proc.run_bind (exec sv) (update u b.fields)
        (fun _ => Proc.done (Session.mk (some u) username started deleted, Response.fatal)) env d
      exact he
    | some next =>
      obtain ⟨env', he⟩ := Proc.run_bind (exec sv) (update u b.fields)
        (fun _ => showNext ⟨some u, username, next, deleted⟩ b.fields (str "✅ Asset ID " ++
          (b.fields (str "id")).toText ++ str " successfully updated.")) env d
      exact he.trans (run_showNext sv _ _ _ env' _)
  · exact ⟨d, rfl, run_showNext sv _ _ _ env d⟩

theorem edit_asset_assets {u : Bytes} (hu : s.user = some u) (b : Body) (env : Nat → Env) (d : Db) :
    ((edit_asset s b).run (exec sv) env d).2.assets = editAssets sv (env 0) b.fields d.assets := by
  obtain ⟨d', hd', hrun⟩ := @edit_asset_run sv s _ hu b env d
  cases hn : nextQueue b.fields s.edit_queue with
  | none =>
    rw [hn] at hrun
    rw [hrun, hd']
  | some queue =>
    rw [hn] at hrun
    rw [hrun, hd']

/-- A form that is shown is that of a row, to a logged-in user. -/
theorem edit_asset_form {a : Asset} {b : Body} {env : Nat → Env} {d : Db}
    (h : ((edit_asset s b).run (exec sv) env d).1.2.form = some a) :
    s.user ≠ none ∧ ((edit_asset s b).run (exec sv) env d).2.asset a.id = some a := by
  cases hu : s.user with
  | none =>
    rw [edit_asset_guest hu] at h
    cases h
  | some u =>
    refine ⟨Option.some_ne_none u, ?_⟩
    obtain ⟨d', -, hrun⟩ := @edit_asset_run sv s _ hu b env d
    cases hn : nextQueue b.fields s.edit_queue with
    | none =>
      rw [hn] at hrun
      rw [hrun] at h
      cases h
    | some queue =>
      rw [hn] at hrun
      rw [hrun] at h ⊢
      have hf : formAsset d' queue b.fields = some a := h
      unfold formAsset at hf
      split at hf
      · obtain ⟨j, -, hj⟩ := Option.bind_eq_some_iff.mp hf
        obtain rfl : a.id = j := Table.key_of_get? hj
        exact hj
      · cases hf

end

end Inventory
