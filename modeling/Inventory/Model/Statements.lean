import Inventory.Model.Pages

/-!
# What the pages send

`handle_emits` lists, for each page, every statement it can send, with what the
session must hold for it. What the pages can never do follows from this list.
-/

namespace Inventory

open Lib Php

/-- The statements a request can send. -/
def Sends (q : Request) (s : Session) (st : Stmt) : Prop :=
  match q.page with
  | .login => ∃ u, st = .selectUser u
  | .index => ∃ sql, st = .selectLogin sql
  | .logout => False
  | .dashboard => s.user ≠ none ∧ st = .recent
  | .masterlist => s.user ≠ none ∧ (st = .selectAssets ∨ ∃ c, st = .distinct c)
  | .new_entry => ∃ u p, s.user = some u ∧ q.body = .post p ∧
      (st = .insertAsset (newValues p) ∨ (∃ n, st = .query (logInsert u (addedAction n))) ∨
        st = .prune)
  | .edit_asset => ∃ u, s.user = some u ∧
      (st = .updateAsset (editValues q.body.fields) (q.body.fields (str "id")).bindInt ∨
        st = .query (logInsert u (editedAction (q.body.fields (str "id")).toText)) ∨
        st = .prune ∨ ∃ i, st = .selectAsset i)
  | .add_asset => ∃ p, q.body = .post p ∧ st = .query (addInsert fun n => (p n).toText)
  | .delete_selected => ∃ u p, s.user = some u ∧ q.body = .post p ∧
      (st = .deleteAssets ((json_decode (p (str "selected_ids"))).elems.map Value.bindInt) ∨
        st = .query (logInsert u (deletedAction
          ((json_decode (p (str "selected_ids"))).elems.map Value.toText))) ∨
        st = .prune)
  | .undo_delete => s.deleted_records.isSet = true ∧ ∃ cols vals, st = .insertRow cols vals
  | .export_excel => s.user ≠ none ∧ st = .selectAssets

theorem emits_send {α : Type} {P : Stmt → Prop} {st : Stmt} {f : Reply st → Proc Reply α}
    (h : P st) (hf : ∀ r, (f r).Emits P) : (send st >>= f).Emits P :=
  ⟨h, hf⟩

theorem emits_writeLog {P : Stmt → Prop} {u a : Bytes} (h1 : P (.query (logInsert u a)))
    (h2 : P .prune) : (writeLog u a).Emits P :=
  ⟨h1, fun _ => ⟨h2, fun _ => trivial⟩⟩

theorem emits_distinctValues {P : Stmt → Prop} (h : ∀ c, P (.distinct c)) (cs : List Col)
    (acc : Col → List (Option Bytes)) : (distinctValues cs acc).Emits P := by
  induction cs generalizing acc with
  | nil => trivial
  | cons c cs ih => exact ⟨h c, fun _ => ih _⟩

theorem emits_showNext {P : Stmt → Prop} (h : ∀ i, P (.selectAsset i)) (s : Session) (p : Post)
    (success : Bytes) : (showNext s p success).Emits P := by
  unfold showNext
  dsimp only
  split
  · refine emits_send (h _) fun (r : Option Asset) => ?_
    cases r <;> trivial
  · split <;> trivial

theorem emits_undoRows {P : Stmt → Prop} (h : ∀ cols vals, P (.insertRow cols vals))
    (rows : List Value) : (undoRows rows).Emits P := by
  induction rows with
  | nil => trivial
  | cons v rows ih =>
    cases v with
    | arr es =>
      refine emits_send (h _ _) fun (r : Option Bool) => ?_
      match r with
      | some true => exact ih
      | some false => trivial
      | none => trivial
    | _ => trivial

section
variable {P : Stmt → Prop} (s : Session)

theorem emits_login (b : Body) (h : ∀ u, P (.selectUser u)) : (login s b).Emits P := by
  cases b with
  | get => trivial
  | post p =>
    refine emits_send (h _) fun (users : List User) => ?_
    split
    · split
      · split <;> trivial
      · trivial
    · trivial

theorem emits_index (sha256 : Bytes → Bytes) (b : Body)
    (h : ∀ p, b = .post p → P (.selectLogin (loginSelect (p (str "username")).toText
      (passwordHash sha256 (p (str "password")))))) :
    (index sha256 s b).Emits P := by
  cases b with
  | get => trivial
  | post p =>
    refine emits_send (h p rfl) fun (rows : Option Nat) => ?_
    split <;> trivial

theorem emits_new_entry (b : Body)
    (h : ∀ u p, s.user = some u → b = .post p → P (.insertAsset (newValues p)) ∧
      (∀ n, P (.query (logInsert u (addedAction n)))) ∧ P .prune) :
    (new_entry s b).Emits P := by
  unfold new_entry
  cases hu : s.user with
  | none => trivial
  | some u =>
    cases b with
    | get => trivial
    | post p =>
      obtain ⟨h1, h2, h3⟩ := h u p hu rfl
      dsimp only
      split
      · trivial
      · refine emits_send h1 fun (r : Except Bytes Int) => ?_
        cases r with
        | ok n => exact (emits_writeLog (h2 n) h3).bind fun _ => trivial
        | error e => trivial

theorem emits_edit_asset (b : Body)
    (h : ∀ u, s.user = some u →
      P (.updateAsset (editValues b.fields) (b.fields (str "id")).bindInt) ∧
      P (.query (logInsert u (editedAction (b.fields (str "id")).toText))) ∧ P .prune ∧
      ∀ i, P (.selectAsset i)) :
    (edit_asset s b).Emits P := by
  unfold edit_asset
  cases hu : s.user with
  | none => trivial
  | some u =>
    obtain ⟨h1, h2, h3, h4⟩ := h u hu
    dsimp only
    split
    · refine Proc.Emits.bind ⟨h1, fun _ => emits_writeLog h2 h3⟩ fun _ => ?_
      split
      · trivial
      · exact emits_showNext h4 _ _ _
    · exact emits_showNext h4 _ _ _

theorem emits_delete_selected (b : Body)
    (h : ∀ u p, s.user = some u → b = .post p →
      P (.deleteAssets ((json_decode (p (str "selected_ids"))).elems.map Value.bindInt)) ∧
      P (.query (logInsert u (deletedAction
        ((json_decode (p (str "selected_ids"))).elems.map Value.toText)))) ∧ P .prune) :
    (delete_selected s b).Emits P := by
  unfold delete_selected
  cases hu : s.user with
  | none => trivial
  | some u =>
    dsimp only
    split
    · trivial
    · cases b with
      | get => trivial
      | post p =>
        obtain ⟨h1, h2, h3⟩ := h u p hu rfl
        dsimp only
        split
        · trivial
        · split
          · trivial
          · split
            · trivial
            · refine emits_send h1 fun (r : Bool) => ?_
              split
              · exact (emits_writeLog h2 h3).bind fun _ => trivial
              · trivial

theorem emits_undo_delete
    (h : s.deleted_records.isSet = true → ∀ cols vals, P (.insertRow cols vals)) :
    (undo_delete s).Emits P := by
  unfold undo_delete
  split
  · next hs =>
    refine (emits_undoRows (h hs) _).bind fun r => ?_
    match r with
    | some true => trivial
    | some false => trivial
    | none => trivial
  · trivial

end

/-- **Every statement of a request is among those of its page.** -/
theorem handle_emits (sha256 : Bytes → Bytes) (q : Request) (s : Session) :
    (handle sha256 q s).Emits (Sends q s) := by
  obtain ⟨page, b⟩ := q
  cases page with
  | login => exact emits_login s b fun u => ⟨u, rfl⟩
  | index => exact emits_index s sha256 b fun _ _ => ⟨_, rfl⟩
  | logout => trivial
  | dashboard =>
    show (dashboard s).Emits _
    unfold dashboard
    split
    · trivial
    · next hu => exact ⟨⟨by simp [hu], rfl⟩, fun _ => trivial⟩
  | masterlist =>
    show (masterlist s).Emits _
    unfold masterlist
    split
    · trivial
    · next hu =>
      have hs : s.user ≠ none := by simp [hu]
      exact ⟨⟨hs, .inl rfl⟩, fun _ =>
        (emits_distinctValues (fun c => ⟨hs, .inr ⟨c, rfl⟩⟩) _ _).bind fun _ => trivial⟩
  | new_entry =>
    exact emits_new_entry s b fun u p hu hb =>
      ⟨⟨u, p, hu, hb, .inl rfl⟩, fun n => ⟨u, p, hu, hb, .inr (.inl ⟨n, rfl⟩)⟩,
        ⟨u, p, hu, hb, .inr (.inr rfl)⟩⟩
  | edit_asset =>
    exact emits_edit_asset s b fun u hu =>
      ⟨⟨u, hu, .inl rfl⟩, ⟨u, hu, .inr (.inl rfl)⟩, ⟨u, hu, .inr (.inr (.inl rfl))⟩,
        fun i => ⟨u, hu, .inr (.inr (.inr ⟨i, rfl⟩))⟩⟩
  | add_asset =>
    cases b with
    | get => trivial
    | post p =>
      refine emits_send ⟨p, rfl, rfl⟩ fun (r : Except Bytes Unit) => ?_
      cases r <;> trivial
  | delete_selected =>
    exact emits_delete_selected s b fun u p hu hb =>
      ⟨⟨u, p, hu, hb, .inl rfl⟩, ⟨u, p, hu, hb, .inr (.inl rfl)⟩, ⟨u, p, hu, hb, .inr (.inr rfl)⟩⟩
  | undo_delete => exact emits_undo_delete s fun hs cols vals => ⟨hs, cols, vals, rfl⟩
  | export_excel =>
    show (export_excel s).Emits _
    unfold export_excel
    split
    · trivial
    · next hu => exact ⟨⟨by simp [hu], rfl⟩, fun _ => trivial⟩

end Inventory
