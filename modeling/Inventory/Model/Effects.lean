import Inventory.Model.Templates

/-!
# The effect of a statement on each table

`exec_log` and `exec_assets` say what a statement makes of one table as a
function of that table alone: `execLog` and `execAssets`. No statement touches
`users`.
-/

namespace Inventory

open Lib

/-! ## The log -/

def execLog (e : Env) : Stmt → Table LogRow LogRow.id → Table LogRow LogRow.id
  | .query sql, t => ((queryRows e sql).bind fun rs => appendLog e.now rs t).getD t
  | .prune, t => t.keepTop e.order 15
  | _, t => t

theorem exec_log (sv : Server) (e : Env) (st : Stmt) (d : Db) :
    (exec sv e st d).2.log = execLog e st d.log := by
  cases st with
  | query sql =>
    simp only [exec, execLog]
    split
    · next h => rw [h, Option.getD_some]
    · next h => rw [h, Option.getD_none]
  | _ =>
    simp only [exec, execLog]
    repeat' split
    all_goals rfl

/-- The rows of a log INSERT, numbered from `n`. -/
def numbered (now : Nat) : Int → List (Option Bytes × Option Bytes) → List LogRow
  | _, [] => []
  | n, (u, a) :: rs => ⟨n, u, a, some now⟩ :: numbered now (n + 1) rs

theorem appendLog_eq_some {now : Nat} {rs : List (Option Bytes × Option Bytes)}
    {t t' : Table LogRow LogRow.id} (h : appendLog now rs t = some t') :
    t'.rows = t.rows ++ numbered now t.next rs ∧ t'.next = t.next + rs.length := by
  induction rs generalizing t with
  | nil =>
    cases h
    simp [numbered]
  | cons r rs ih =>
    simp only [appendLog] at h
    split at h
    · obtain ⟨h1, h2⟩ := ih h
      refine ⟨?_, ?_⟩
      · rw [h1]
        simp [numbered]
      · rw [h2]
        simp only [Table.next_insert, List.length_cons]
        omega
    · cases h

/-- Whether an INSERT fits depends on the next key alone. -/
theorem isSome_appendLog {now : Nat} {rs : List (Option Bytes × Option Bytes)}
    {t u : Table LogRow LogRow.id} (h : t.next = u.next) :
    (appendLog now rs t).isSome = (appendLog now rs u).isSome := by
  induction rs generalizing t u with
  | nil => rfl
  | cons r rs ih =>
    simp only [appendLog, h]
    split
    · exact ih (by simp [h])
    · rfl

/-- A statement other than the prune appends to the log what it appends to any log with the same
next key. -/
theorem execLog_appends {st : Stmt} (hst : st ≠ .prune) (e : Env)
    {t u : Table LogRow LogRow.id} (h : t.next = u.next) :
    (execLog e st t).next = (execLog e st u).next ∧
      ∃ new, (execLog e st t).rows = t.rows ++ new ∧ (execLog e st u).rows = u.rows ++ new := by
  have same : t.next = u.next ∧ ∃ new, t.rows = t.rows ++ new ∧ u.rows = u.rows ++ new :=
    ⟨h, [], by simp⟩
  cases st with
  | query sql =>
    simp only [execLog]
    cases hq : queryRows e sql with
    | none => exact same
    | some rs =>
      have hs : (appendLog e.now rs t).isSome = (appendLog e.now rs u).isSome := isSome_appendLog h
      simp only [Option.bind_some]
      cases ht : appendLog e.now rs t with
      | none =>
        rw [ht, Option.isSome_none] at hs
        rw [Option.isSome_eq_false_iff.mp hs.symm |> Option.isNone_iff_eq_none.mp]
        exact same
      | some t' =>
        rw [ht, Option.isSome_some] at hs
        obtain ⟨u', hu⟩ := Option.isSome_iff_exists.mp hs.symm
        obtain ⟨h1, h2⟩ := appendLog_eq_some ht
        obtain ⟨h3, h4⟩ := appendLog_eq_some hu
        rw [hu, Option.getD_some, Option.getD_some]
        exact ⟨by rw [h2, h4, h], _, h1, by rw [h3, h]⟩
  | prune => exact absurd rfl hst
  | _ => exact same

/-! ## The assets -/

def execAssets (sv : Server) (e : Env) : Stmt → Table Asset Asset.id → Table Asset Asset.id
  | .insertAsset vals, t =>
    ((sv.castAll vals).bind fun f => insertNext f e.now t).getD t
  | .updateAsset vals id, t =>
    match id.bind t.get?, sv.castAll vals with
    | some r, some f => setRow r f e.now t
    | _, _ => t
  | .deleteAssets ids, t => removeRows ids t
  | .insertRow cols vals, t =>
    if preparable cols vals then
      ((sv.newRow e.now cols vals).bind fun r => putRow r t).getD t
    else t
  | _, t => t

theorem exec_assets (sv : Server) (e : Env) (st : Stmt) (d : Db) :
    (exec sv e st d).2.assets = execAssets sv e st d.assets := by
  cases st with
  | query sql =>
    simp only [exec, execAssets]
    split <;> rfl
  | insertAsset vals =>
    simp only [exec, execAssets]
    split
    · next h => rw [h, Option.getD_some]
    · next h => rw [h, Option.getD_none]
  | updateAsset vals id =>
    have hd : id.bind d.asset = id.bind d.assets.get? := rfl
    simp only [exec, execAssets, hd]
    split
    · next h => rw [h]
    · next r h =>
      rw [h]
      split
      · next f hf => rw [hf]
      · next hf => rw [hf]
  | insertRow cols vals =>
    simp only [exec, execAssets]
    split
    · split
      · next h => rw [h, Option.getD_some]
      · next h => rw [h, Option.getD_none]
    · rfl
  | _ => rfl

end Inventory
