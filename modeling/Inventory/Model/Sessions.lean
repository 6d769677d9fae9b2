import Inventory.Model.Statements

/-!
# What the pages do to a session

`handle_leaves` lists, for each page, what it can make of its session: only
login.php sets `user`, and only after its statement selected one row whose
password is the posted one (`LoginOk`); only logout.php drops it; no page ever
sets `deleted_records`.
-/

namespace Inventory

open Lib Php

/-- What a page can make of its session. -/
def Leaves (page : Page) (s s' : Session) : Prop :=
  match page with
  | .login => s' = s ∨ ∃ u, s' = { s with user := some u }
  | .index => s' = s ∨ ∃ u, s' = { s with username := u }
  | .logout => s' = {}
  | .edit_asset => ∃ queue, s' = { s with edit_queue := queue }
  | .undo_delete => s' = s ∨ s' = { s with deleted_records := .null }
  | _ => s' = s

/-- The request ends with the session it started from. -/
def Same (s : Session) (a : Session × Response) : Prop := a.1 = s

theorem ends_send {α : Type} {P : α → Prop} {st : Stmt} {f : Reply st → Proc Reply α}
    (hf : ∀ r, (f r).Ends P) : (send st >>= f).Ends P :=
  hf

theorem ends_true {α : Type} (p : Proc Reply α) : p.Ends fun _ => True := by
  induction p with
  | done a => trivial
  | call s k ih => exact ih

section
variable (s : Session)

theorem ends_login (b : Body) : (login s b).Ends fun a => Leaves .login s a.1 := by
  cases b with
  | get => exact .inl rfl
  | post p =>
    refine ends_send fun (users : List User) => ?_
    split
    · split
      · split
        · exact .inr ⟨_, rfl⟩
        · exact .inl rfl
      · exact .inl rfl
    · exact .inl rfl

theorem ends_index (sha256 : Bytes → Bytes) (b : Body) :
    (index sha256 s b).Ends fun a => Leaves .index s a.1 := by
  cases b with
  | get => exact .inl rfl
  | post p =>
    refine ends_send fun (rows : Option Nat) => ?_
    split
    · exact .inr ⟨_, rfl⟩
    · exact .inl rfl

theorem ends_dashboard : (dashboard s).Ends (Same s) := by
  unfold dashboard
  split
  · rfl
  · exact ends_send fun _ => rfl

theorem ends_masterlist : (masterlist s).Ends (Same s) := by
  unfold masterlist
  split
  · rfl
  · exact ends_send fun _ => (ends_true _).bind fun _ _ => rfl

theorem ends_export_excel : (export_excel s).Ends (Same s) := by
  unfold export_excel
  split
  · rfl
  · exact ends_send fun _ => rfl

theorem ends_new_entry (b : Body) : (new_entry s b).Ends (Same s) := by
  unfold new_entry
  split
  · rfl
  · split
    · rfl
    · split
      · rfl
      · refine ends_send fun (r : Except Bytes Int) => ?_
        cases r with
        | ok n => exact (ends_true _).bind fun _ _ => rfl
        | error e => rfl

theorem ends_showNext (p : Post) (success : Bytes) : (showNext s p success).Ends (Same s) := by
  unfold showNext
  dsimp only
  split
  · refine ends_send fun (r : Option Asset) => ?_
    cases r <;> rfl
  · split <;> rfl

theorem ends_edit_asset (b : Body) :
    (edit_asset s b).Ends fun a => Leaves .edit_asset s a.1 := by
  have hshow : ∀ (queue : Value) (success : Bytes),
      (showNext { s with edit_queue := queue } b.fields success).Ends
        fun a => Leaves .edit_asset s a.1 :=
    fun queue success => (ends_showNext _ _ _).mono fun a ha => ⟨queue, ha⟩
  unfold edit_asset
  split
  · exact ⟨s.edit_queue, rfl⟩
  · dsimp only
    split
    · refine (ends_true _).bind fun _ _ => ?_
      split
      · exact ⟨_, rfl⟩
      · exact hshow _ _
    · exact hshow _ _

theorem ends_add_asset (b : Body) : (add_asset s b).Ends (Same s) := by
  cases b with
  | get => rfl
  | post p =>
    refine ends_send fun (r : Except Bytes Unit) => ?_
    cases r <;> rfl

theorem ends_delete_selected (b : Body) : (delete_selected s b).Ends (Same s) := by
  unfold delete_selected
  split
  · rfl
  · split
    · rfl
    · split
      · rfl
      · dsimp only
        split
        · rfl
        · split
          · rfl
          · split
            · rfl
            · refine ends_send fun (r : Bool) => ?_
              split
              · exact (ends_true _).bind fun _ _ => rfl
              · rfl

theorem ends_undo_delete : (undo_delete s).Ends fun a => Leaves .undo_delete s a.1 := by
  unfold undo_delete
  split
  · refine (ends_true _).bind fun r _ => ?_
    match r with
    | some true => exact .inr rfl
    | some false => exact .inl rfl
    | none => exact .inl rfl
  · exact .inl rfl

/-- **What every page can make of its session.** -/
theorem handle_leaves (sha256 : Bytes → Bytes) (q : Request) :
    (handle sha256 q s).Ends fun a => Leaves q.page s a.1 := by
  obtain ⟨page, b⟩ := q
  cases page with
  | login => exact ends_login s b
  | index => exact ends_index s sha256 b
  | logout => rfl
  | dashboard => exact ends_dashboard s
  | masterlist => exact ends_masterlist s
  | new_entry => exact ends_new_entry s b
  | edit_asset => exact ends_edit_asset s b
  | add_asset => exact ends_add_asset s b
  | delete_selected => exact ends_delete_selected s b
  | undo_delete => exact ends_undo_delete s
  | export_excel => exact ends_export_excel s

end

/-- The session keeps its user, and `deleted_records` stays unset. -/
def KeepsUser (s s' : Session) : Prop :=
  s'.user = s.user ∧ (s.deleted_records = .null → s'.deleted_records = .null)

/-- Every page but login.php and logout.php keeps the user of its session. -/
theorem Leaves.keepsUser {page : Page} {s s' : Session} (h : Leaves page s s')
    (h1 : page ≠ .login) (h2 : page ≠ .logout) : KeepsUser s s' := by
  have same : s' = s → KeepsUser s s' := fun he => he ▸ ⟨rfl, id⟩
  cases page with
  | login => exact absurd rfl h1
  | logout => exact absurd rfl h2
  | index =>
    rcases h with h | ⟨u, rfl⟩
    · exact same h
    · exact ⟨rfl, id⟩
  | edit_asset =>
    obtain ⟨queue, rfl⟩ := h
    exact ⟨rfl, id⟩
  | undo_delete =>
    rcases h with h | rfl
    · exact same h
    · exact ⟨rfl, fun _ => rfl⟩
  | _ => exact same h

/-- Only edit_asset.php and logout.php change the queue. -/
theorem Leaves.edit_queue {page : Page} {s s' : Session} (h : Leaves page s s')
    (h1 : page ≠ .edit_asset) (h2 : page ≠ .logout) : s'.edit_queue = s.edit_queue := by
  have same : s' = s → s'.edit_queue = s.edit_queue := fun he => he ▸ rfl
  cases page with
  | edit_asset => exact absurd rfl h1
  | logout => exact absurd rfl h2
  | login =>
    rcases h with h | ⟨u, rfl⟩
    · exact same h
    · rfl
  | index =>
    rcases h with h | ⟨u, rfl⟩
    · exact same h
    · rfl
  | undo_delete =>
    rcases h with h | rfl
    · exact same h
    · rfl
  | _ => exact same h

/-! ## Logging in -/

/-- A login.php POST whose trimmed username selected exactly one row, with the posted password. -/
def LoginOk (sv : Server) (q : Request) (past : List (Sent Env Stmt Db)) : Prop :=
  q.page = .login ∧ ∃ p row e d, q.body = .post p ∧
    past = [⟨e, .selectUser (trim (p (str "username"))).bindStr, d⟩] ∧
    (exec sv e (.selectUser (trim (p (str "username"))).bindStr) d).1 = [row] ∧
    p (str "password") = .str row.password

/-- A session ends with a user only if it started with one, or logged in. -/
def UserFrom (sv : Server) (q : Request) (s : Session) (past : List (Sent Env Stmt Db))
    (a : Session × Response) : Prop :=
  a.1.user ≠ none → q.page ≠ .logout ∧ (s.user ≠ none ∨ LoginOk sv q past)

/-- No record is kept for undo. -/
def NothingDeleted (s : Session) : Prop := s.deleted_records = .null

/-- No page makes records to undo. -/
theorem Leaves.nothingDeleted {page : Page} {s s' : Session} (h : Leaves page s s')
    (hn : NothingDeleted s) : NothingDeleted s' := by
  by_cases h1 : page = .login
  · subst h1
    rcases h with rfl | ⟨u, rfl⟩
    · exact hn
    · exact hn
  · by_cases h2 : page = .logout
    · subst h2
      obtain rfl : s' = {} := h
      rfl
    · exact (h.keepsUser h1 h2).2 hn

/-- Without records undo_delete.php sends nothing. -/
theorem undo_nothing {s : Session} (hn : NothingDeleted s) :
    undo_delete s = .done (s, .text (str "⚠️ No records to undo.")) := by
  unfold undo_delete
  rw [show s.deleted_records = .null from hn]
  rfl

theorem guarded_send {α : Type} {sv : Server} {ok : Env → Stmt → Db → Prop}
    {post : List (Sent Env Stmt Db) → α → Prop} {past : List (Sent Env Stmt Db)} {st : Stmt}
    {f : Reply st → Proc Reply α}
    (hf : ∀ e d, ok e st d → (f (exec sv e st d).1).Guarded (exec sv) ok post (past ++ [⟨e, st, d⟩])) :
    (send st >>= f).Guarded (exec sv) ok post past :=
  hf

theorem login_guarded (sv : Server) {ok : Env → Stmt → Db → Prop} (s : Session) (b : Body)
    (hs : NothingDeleted s) :
    (login s b).Guarded (exec sv) ok
      (fun past a => UserFrom sv ⟨.login, b⟩ s past a ∧ NothingDeleted a.1) [] := by
  have same : ∀ past r, UserFrom sv ⟨.login, b⟩ s past (s, r) ∧ NothingDeleted (s, r).1 :=
    fun _ _ => ⟨fun h => ⟨by simp, .inl h⟩, hs⟩
  cases b with
  | get => exact same _ _
  | post p =>
    refine guarded_send fun e d _ => ?_
    generalize hr : (exec sv e (.selectUser (trim (p (str "username"))).bindStr) d).1 = r
    change List User at r
    split
    · next row =>
      split
      · next pw hpw =>
        split
        · next hrow =>
          subst hrow
          exact ⟨fun _ => ⟨by simp, .inr ⟨rfl, p, row, e, d, rfl, rfl, hr, hpw⟩⟩, hs⟩
        · exact same _ _
      · exact same _ _
    · exact same _ _

theorem handle_guarded (sha256 : Bytes → Bytes) (sv : Server) {ok : Env → Stmt → Db → Prop}
    (q : Request) (s : Session) (hs : NothingDeleted s) :
    (handle sha256 q s).Guarded (exec sv) ok
      (fun past a => UserFrom sv q s past a ∧ NothingDeleted a.1) [] := by
  by_cases h1 : q.page = .login
  · obtain ⟨page, b⟩ := q
    obtain rfl : page = .login := h1
    exact login_guarded sv s b hs
  · by_cases h2 : q.page = .logout
    · obtain ⟨page, b⟩ := q
      obtain rfl : page = .logout := h2
      exact ⟨fun h => absurd rfl h, rfl⟩
    · have he : (handle sha256 q s).Guarded (exec sv) ok (fun _ a => KeepsUser s a.1) [] :=
        ((handle_leaves s sha256 q).mono fun _ h => h.keepsUser h1 h2).guarded (exec sv)
      refine Proc.Guarded.mono (exec sv) (fun _ _ _ h => h) (fun past a ha => ?_) he
      exact ⟨fun h => ⟨h2, .inl (by rwa [ha.1] at h)⟩, ha.2 hs⟩

end Inventory
