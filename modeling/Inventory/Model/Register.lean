import Inventory.Lib.Registry
import Inventory.Model.Atomicity

/-!
# What the inventory is for

Seen from outside, `assets` is a registry of assets (`Db.register`): the columns
of each asset under its id. Each statement makes one change to it
(`exec_register`). A request makes at most one change, the one that its form
asks for (`Request.change`), and only for a user. `run_register` says that the
pages do just that.
-/

namespace Inventory

open Lib Php

noncomputable section

/-- The assets of a table, without their timestamps. -/
def register (t : Table Asset Asset.id) : Registry Fields where
  entry i := (t.get? i).map Asset.fields
  next := t.next
  below i hi := by
    cases h : t.get? i with
    | none => exact absurd (by rw [h]; rfl) hi
    | some a =>
      obtain ⟨ha, rfl⟩ := Table.get?_eq_some.mp h
      exact t.below a ha

def Db.register (d : Db) : Registry Fields := Inventory.register d.assets

/-! ## The changes -/

section
variable (sv : Server)

/-- A new asset, if its columns can hold the values and there is an id left. -/
def addChange (next : Int) (vals : Col → Option Bytes) : Change Fields :=
  match sv.castAll vals with
  | some f => if next ≤ INT_MAX then .add f else .keep
  | none => .keep

/-- New columns for an asset, if they can hold the values. -/
def setChange (vals : Col → Option Bytes) (id : Option Int) : Change Fields :=
  match id, sv.castAll vals with
  | some i, some f => .set i f
  | _, _ => .keep

def removeChange (ids : List (Option Int)) : Change Fields := .remove {i | some i ∈ ids}

/-- The change that a statement makes, but for the INSERT of undo_delete.php; `next` is the next
id. -/
def Stmt.change (next : Int) : Stmt → Change Fields
  | .insertAsset vals => addChange sv next vals
  | .updateAsset vals id => setChange sv vals id
  | .deleteAssets ids => removeChange ids
  | _ => .keep

/-- The change that a request asks for, in a session; `next` is the next id. -/
def Request.change (q : Request) (s : Session) (next : Int) : Change Fields :=
  match s.user with
  | none => .keep
  | some u =>
    match q.page, q.body with
    | .new_entry, .post p =>
      if missingFields p = [] then addChange sv next (newValues p) else .keep
    | .edit_asset, b =>
      if (b.fields (str "update")).isSet then
        setChange sv (editValues b.fields) (b.fields (str "id")).bindInt
      else .keep
    | .delete_selected, .post p =>
      let ids := json_decode (p (str "selected_ids"))
      if ¬ (Value.str u).isEmpty ∧ ids.elems ≠ [] ∧ ids.elems.length ≤ MAX_PLACEHOLDERS ∧
          unpackable ids = true then
        removeChange (ids.elems.map Value.bindInt)
      else .keep
    | _, _ => .keep

/-! ## The statements -/

variable {sv} {e : Env} {t : Table Asset Asset.id}

theorem register_insertNext {f : Fields} {stamp : Nat} {t' : Table Asset Asset.id}
    (h : insertNext f stamp t = some t') : register t' = (register t).apply (.add f) := by
  unfold insertNext at h
  split at h
  · cases h
    refine Registry.ext (funext fun i => ?_) rfl
    rw [Registry.entry_add]
    show ((t.insert _ _).get? i).map Asset.fields =
      if i = t.next then some f else (t.get? i).map Asset.fields
    rw [Table.get?_insert, apply_ite (Option.map Asset.fields)]
    rfl
  · cases h

theorem register_insertAsset (vals : Col → Option Bytes) :
    register (execAssets sv e (.insertAsset vals) t) =
      (register t).apply (addChange sv t.next vals) := by
  unfold addChange
  simp only [execAssets]
  cases sv.castAll vals with
  | none => rfl
  | some f =>
    rw [Option.bind_some]
    dsimp only
    cases hn : insertNext f e.now t with
    | some t' =>
      have hmax : t.next ≤ INT_MAX := by
        unfold insertNext at hn
        split at hn
        · assumption
        · cases hn
      rw [if_pos hmax, Option.getD_some, register_insertNext hn]
    | none =>
      have hmax : ¬ t.next ≤ INT_MAX := by
        unfold insertNext at hn
        split at hn
        · cases hn
        · assumption
      rw [if_neg hmax]
      rfl

theorem register_updateAsset (vals : Col → Option Bytes) (id : Option Int) :
    register (execAssets sv e (.updateAsset vals id) t) =
      (register t).apply (setChange sv vals id) := by
  unfold setChange
  simp only [execAssets]
  cases id with
  | none => rfl
  | some i =>
    cases sv.castAll vals with
    | none =>
      rw [Option.bind_some]
      cases t.get? i <;> rfl
    | some f =>
      rw [Option.bind_some]
      cases hi : t.get? i with
      | none =>
        -- no row has the id, and the registry has no entry under it
        show register t = (register t).apply (.set i f)
        refine Registry.ext (funext fun j => ?_) rfl
        rw [Registry.entry_set]
        split
        · next hj =>
          rw [hj]
          show (t.get? i).map Asset.fields = ((t.get? i).map Asset.fields).map fun _ => f
          rw [hi]
          rfl
        · rfl
      | some r =>
        obtain rfl : r.id = i := Table.key_of_get? hi
        show register (setRow r f e.now t) = (register t).apply (.set r.id f)
        refine Registry.ext (funext fun j => ?_) rfl
        rw [Registry.entry_set]
        show ((setRow r f e.now t).get? j).map Asset.fields =
          if j = r.id then ((t.get? r.id).map Asset.fields).map (fun _ => f)
          else (t.get? j).map Asset.fields
        rw [get?_setRow, apply_ite (Option.map Asset.fields)]
        split
        · next hj =>
          rw [hj, hi]
          rfl
        · rfl

theorem register_deleteAssets (ids : List (Option Int)) :
    register (execAssets sv e (.deleteAssets ids) t) = (register t).apply (removeChange ids) := by
  refine Registry.ext (funext fun i => ?_) rfl
  show ((removeRows ids t).get? i).map Asset.fields = _
  rw [get?_removeRows]
  by_cases hi : some i ∈ ids
  · rw [if_pos hi]
    exact (Registry.entry_remove_of_mem _ hi).symm
  · rw [if_neg hi]
    exact (Registry.entry_remove_of_notMem (register t) hi).symm

/-- An INSERT of columns that the session names. -/
def Stmt.insertsRow : Stmt → Prop
  | .insertRow _ _ => True
  | _ => False

/-- **A statement makes its change.** -/
theorem exec_register {st : Stmt} (hst : ¬ st.insertsRow) (d : Db) :
    (exec sv e st d).2.register = d.register.apply (st.change sv d.assets.next) := by
  show register (exec sv e st d).2.assets = (register d.assets).apply _
  rw [exec_assets]
  cases st with
  | insertAsset vals => exact register_insertAsset vals
  | updateAsset vals id => exact register_updateAsset vals id
  | deleteAssets ids => exact register_deleteAssets ids
  | insertRow cols vals => exact absurd trivial hst
  | _ => rfl

/-- Without records to undo no request names columns. -/
theorem not_insertsRow {q : Request} {s : Session} (hs : NothingDeleted s) {st : Stmt}
    (h : Sends q s st) : ¬ st.insertsRow := by
  intro hst
  unfold Sends at h
  split at h
  · obtain ⟨_, rfl⟩ := h
    exact hst
  · obtain ⟨_, rfl⟩ := h
    exact hst
  · exact h
  · obtain ⟨-, rfl⟩ := h
    exact hst
  · obtain ⟨-, rfl | ⟨_, rfl⟩⟩ := h <;> exact hst
  · obtain ⟨_, _, -, -, rfl | ⟨_, rfl⟩ | rfl⟩ := h <;> exact hst
  · obtain ⟨_, -, rfl | rfl | rfl | ⟨_, rfl⟩⟩ := h <;> exact hst
  · obtain ⟨_, -, rfl⟩ := h
    exact hst
  · obtain ⟨_, _, -, -, rfl | rfl | rfl⟩ := h <;> exact hst
  · rw [hs] at h
    exact absurd h.1 (by decide)
  · obtain ⟨-, rfl⟩ := h
    exact hst

end

/-! ## The requests -/

section
variable {sv : Server} {s : Session} {d : Db}

/-- Three pages change the inventory. -/
theorem change_keep {q : Request} (h1 : q.page ≠ .new_entry) (h2 : q.page ≠ .edit_asset)
    (h3 : q.page ≠ .delete_selected) (next : Int) : q.change sv s next = .keep := by
  obtain ⟨page, b⟩ := q
  unfold Request.change
  cases s.user with
  | none => rfl
  | some u =>
    cases page with
    | new_entry => exact absurd rfl h1
    | edit_asset => exact absurd rfl h2
    | delete_selected => exact absurd rfl h3
    | _ => rfl

theorem register_new_entry (b : Body) (env : Nat → Env) :
    ((new_entry s b).run (exec sv) env d).2.register =
      d.register.apply (Request.change sv ⟨.new_entry, b⟩ s d.assets.next) := by
  unfold Request.change
  cases hu : s.user with
  | none =>
    rw [new_entry_guest hu]
    rfl
  | some u =>
    cases b with
    | get =>
      unfold new_entry
      rw [hu]
      rfl
    | post p =>
      show register ((new_entry s (.post p)).run (exec sv) env d).2.assets = _
      rw [new_entry_assets (by simp [hu]), newAssets]
      dsimp only
      split
      · exact register_insertAsset _
      · rfl

theorem register_edit_asset (b : Body) (env : Nat → Env) :
    ((edit_asset s b).run (exec sv) env d).2.register =
      d.register.apply (Request.change sv ⟨.edit_asset, b⟩ s d.assets.next) := by
  unfold Request.change
  cases hu : s.user with
  | none =>
    rw [edit_asset_guest hu]
    rfl
  | some u =>
    show register ((edit_asset s b).run (exec sv) env d).2.assets = _
    rw [edit_asset_assets hu, editAssets]
    dsimp only
    split
    · exact register_updateAsset _ _
    · rfl

theorem register_delete_selected (b : Body) (env : Nat → Env) :
    ((delete_selected s b).run (exec sv) env d).2.register =
      d.register.apply (Request.change sv ⟨.delete_selected, b⟩ s d.assets.next) := by
  unfold Request.change delete_selected
  cases s.user with
  | none => rfl
  | some u =>
    dsimp only
    by_cases hname : (Value.str u).isEmpty = true
    · rw [if_pos hname]
      cases b with
      | get => rfl
      | post p =>
        dsimp only
        rw [if_neg fun h => h.1 hname]
        rfl
    · rw [if_neg hname]
      cases b with
      | get => rfl
      | post p =>
        dsimp only
        split
        · next h =>
          rw [if_neg fun hc => hc.2.1 h]
          rfl
        · next h1 =>
          split
          · next h =>
            rw [if_neg fun hc => absurd hc.2.2.1 (by omega)]
            rfl
          · next h2 =>
            split
            · next h =>
              rw [if_neg fun hc => h hc.2.2.2]
              rfl
            · next h3 =>
              rw [if_pos ⟨hname, h1, by omega, by simpa using h3⟩]
              show register ((deleteRows s u _).run (exec sv) env d).2.assets = _
              rw [deleteRows_assets]
              exact @register_deleteAssets sv (env 0) _ _

/-- **A request makes the change that its form asks for**, as long as its session has no records
to undo. -/
theorem run_register (sha256 : Bytes → Bytes) (q : Request) (hs : NothingDeleted s)
    (env : Nat → Env) : ((handle sha256 q s).run (exec sv) env d).2.register =
      d.register.apply (q.change sv s d.assets.next) := by
  by_cases h1 : q.page = .new_entry
  · obtain ⟨page, b⟩ := q
    obtain rfl : page = .new_entry := h1
    exact register_new_entry b env
  · by_cases h2 : q.page = .edit_asset
    · obtain ⟨page, b⟩ := q
      obtain rfl : page = .edit_asset := h2
      exact register_edit_asset b env
    · by_cases h3 : q.page = .delete_selected
      · obtain ⟨page, b⟩ := q
        obtain rfl : page = .delete_selected := h3
        exact register_delete_selected b env
      · rw [change_keep h1 h2 h3]
        show register _ = register d.assets
        by_cases h4 : q.page = .undo_delete
        · obtain ⟨page, b⟩ := q
          obtain rfl : page = .undo_delete := h4
          show register ((undo_delete s).run (exec sv) env d).2.assets = _
          rw [undo_nothing hs]
          rfl
        · rw [handle_keeps_assets h1 h2 h3 h4]

end

/-! ## Requests one after another -/

section
variable {I : Type} [DecidableEq I] {sha256 : Bytes → Bytes} {sv : Server}

/-- The changes that the calls ask for. -/
def changes (sha256 : Bytes → Bytes) (sv : Server) :
    PageState I → List (Call Env Request I) → List (Change Fields)
  | _, [] => []
  | c, x :: l =>
    x.req.change sv (c.sess x.who) c.db.assets.next ::
      changes sha256 sv (c.served (inventory sha256 sv) x.who x.req x.env) l

theorem served_nothingDeleted {c : PageState I} (h : ∀ i, NothingDeleted (c.sess i))
    (x : Call Env Request I) (j : I) :
    NothingDeleted ((c.served (inventory sha256 sv) x.who x.req x.env).sess j) := by
  show NothingDeleted (Function.update c.sess x.who _ j)
  by_cases hj : j = x.who
  · rw [hj, Function.update_self]
    exact (handle_nothingDeleted _ sha256 x.req (h _)).run (exec sv) x.env c.db
  · rw [Function.update_of_ne hj]
    exact h j

/-- **Requests that are served one after another make their changes one after another.** -/
theorem servedAll_register {c : PageState I} (h : ∀ i, NothingDeleted (c.sess i))
    (l : List (Call Env Request I)) : (c.servedAll (inventory sha256 sv) l).db.register =
      c.db.register.applyAll (changes sha256 sv c l) := by
  induction l generalizing c with
  | nil => rfl
  | cons x l ih =>
    have hx : (c.served (inventory sha256 sv) x.who x.req x.env).db.register =
        c.db.register.apply (x.req.change sv (c.sess x.who) c.db.assets.next) :=
      run_register sha256 x.req (h _) x.env
    exact (ih (served_nothingDeleted h x)).trans (by rw [hx]; rfl)

end

end

end Inventory
