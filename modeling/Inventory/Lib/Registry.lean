import Mathlib.Data.Set.Basic
import Mathlib.Logic.Function.Basic

/-!
# Registries

A registry holds entries under numbers that it hands out itself, in increasing
order. `Registry.apply` makes one change. Numbers are never handed out twice:
`Registry.Onward` says what all changes keep, that an entry which is gone does
not come back (`onward_apply`).
-/

namespace Inventory.Lib

/-- Entries under numbers below the next one. -/
@[ext]
structure Registry (α : Type) where
  entry : Int → Option α
  next : Int
  below : ∀ i, entry i ≠ none → i < next

inductive Change (α : Type) where
  | keep
  | add (x : α)
  | set (i : Int) (x : α)
  | remove (gone : Set Int)

/-- The entries that a change brings satisfy `G`. -/
def Change.All {α : Type} (G : α → Prop) : Change α → Prop
  | .add x | .set _ x => G x
  | _ => True

namespace Registry

variable {α : Type}

/-- The registry after a change; only an entry that is there is set. -/
noncomputable def apply (r : Registry α) : Change α → Registry α
  | .keep => r
  | .add x =>
    { entry := Function.update r.entry r.next (some x)
      next := r.next + 1
      below := fun i hi => by
        by_cases h : i = r.next
        · omega
        · rw [Function.update_of_ne h] at hi
          have := r.below i hi
          omega }
  | .set i x =>
    { r with
      entry := Function.update r.entry i ((r.entry i).map fun _ => x)
      below := fun j hj => by
        by_cases h : j = i
        · subst h
          rw [Function.update_self] at hj
          exact r.below j fun e => hj (by rw [e]; rfl)
        · rw [Function.update_of_ne h] at hj
          exact r.below j hj }
  | .remove gone =>
    open Classical in
    { r with
      entry := fun i => if i ∈ gone then none else r.entry i
      below := fun i hi => r.below i fun e => hi (by rw [e, ite_self]) }

@[simp] theorem entry_add (r : Registry α) (x : α) (i : Int) :
    (r.apply (.add x)).entry i = if i = r.next then some x else r.entry i :=
  Function.update_apply ..

@[simp] theorem entry_set (r : Registry α) (i : Int) (x : α) (j : Int) :
    (r.apply (.set i x)).entry j = if j = i then (r.entry i).map fun _ => x else r.entry j :=
  Function.update_apply ..

theorem entry_remove_of_mem (r : Registry α) {gone : Set Int} {i : Int} (h : i ∈ gone) :
    (r.apply (.remove gone)).entry i = none := by
  simp only [apply, if_pos h]

theorem entry_remove_of_notMem (r : Registry α) {gone : Set Int} {i : Int} (h : i ∉ gone) :
    (r.apply (.remove gone)).entry i = r.entry i := by
  simp only [apply, if_neg h]

/-- Every entry satisfies `G`. -/
def All (G : α → Prop) (r : Registry α) : Prop := ∀ i x, r.entry i = some x → G x

/-- A change whose entries satisfy `G` keeps it that all do. -/
theorem All.apply {G : α → Prop} {r : Registry α} (h : r.All G) {ch : Change α} (hch : ch.All G) :
    (r.apply ch).All G := by
  intro j x hx
  cases ch with
  | keep => exact h j x hx
  | add y =>
    rw [entry_add] at hx
    split at hx
    · cases hx
      exact hch
    · exact h j x hx
  | set i y =>
    rw [entry_set] at hx
    split at hx
    · obtain ⟨z, -, rfl⟩ := Option.map_eq_some_iff.mp hx
      exact hch
    · exact h j x hx
  | remove gone =>
    by_cases hj : j ∈ gone
    · rw [entry_remove_of_mem r hj] at hx
      cases hx
    · rw [entry_remove_of_notMem r hj] at hx
      exact h j x hx

noncomputable def applyAll (r : Registry α) (l : List (Change α)) : Registry α :=
  l.foldl apply r

/-- From `r` to `r'` numbers only grow, and no entry came back. -/
structure Onward (r r' : Registry α) : Prop where
  next : r.next ≤ r'.next
  gone : ∀ i, i < r.next → r.entry i = none → r'.entry i = none

theorem Onward.refl (r : Registry α) : r.Onward r := ⟨le_refl _, fun _ _ h => h⟩

theorem Onward.trans {r r' r'' : Registry α} (h : r.Onward r') (h' : r'.Onward r'') :
    r.Onward r'' where
  next := h.next.trans h'.next
  gone i hi hn := h'.gone i (lt_of_lt_of_le hi h.next) (h.gone i hi hn)

/-- **Numbers only grow, and no entry comes back**, whatever the change is. -/
theorem onward_apply (r : Registry α) (ch : Change α) : r.Onward (r.apply ch) := by
  cases ch with
  | keep => exact .refl r
  | add x =>
    refine ⟨Int.le_of_lt (Int.lt_succ r.next), fun i hi hn => ?_⟩
    rw [entry_add, if_neg (by omega), hn]
  | set i x =>
    refine ⟨le_refl _, fun j _ hn => ?_⟩
    rw [entry_set]
    split
    · next h => rw [← h, hn, Option.map_none]
    · exact hn
  | remove gone =>
    refine ⟨le_refl _, fun j _ hn => ?_⟩
    simp only [apply, hn, ite_self]

/-- An entry that is there later, under a number that was handed out, was there before. -/
theorem Onward.there {r r' : Registry α} (h : r.Onward r') {i : Int} (hi : i < r.next)
    (ht : r'.entry i ≠ none) : r.entry i ≠ none :=
  fun hn => ht (h.gone i hi hn)

end Registry

end Inventory.Lib
