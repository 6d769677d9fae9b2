import Mathlib.Data.List.Sort
import Mathlib.Order.Lattice

/-!
# The greatest keys of a list

`greatest k l` is the descending list of the `k` greatest elements of `l`.
`Agree k l m` says that `l` and `m` have the same `k` greatest elements, stated
by counting: every up-closed predicate has as many elements in both, up to `k`.
In this form the two facts about a pruned list are arithmetic: what is added to
both sides keeps the agreement (`Agree.append`), and so does dropping elements
below `k` others (`agree_select`). `Agree.greatest_eq` turns it back into an
equality of lists.

`RankBy key` is an order a server may return under ORDER BY key DESC: rows with
equal keys come in any order.
-/

namespace Inventory.Lib

section

variable {κ : Type} [LinearOrder κ]

/-- The list in descending order. -/
def desc (l : List κ) : List κ := l.mergeSort fun a b => decide (b ≤ a)

def greatest (k : Nat) (l : List κ) : List κ := (desc l).take k

theorem desc_perm (l : List κ) : (desc l).Perm l := List.mergeSort_perm _ _

theorem desc_pairwise (l : List κ) : (desc l).Pairwise fun a b => b ≤ a := by
  have h := @List.pairwise_mergeSort κ (fun a b => decide (b ≤ a))
    (fun a b c hab hbc => by simp only [decide_eq_true_eq] at *; exact le_trans hbc hab)
    (fun a b => by simpa using le_total b a) l
  simpa [desc] using h

/-- A descending arrangement is the descending list. -/
theorem eq_desc {l m : List κ} (hp : m.Perm l) (hm : m.Pairwise fun a b => b ≤ a) :
    m = desc l :=
  (hp.trans (desc_perm l).symm).eq_of_pairwise (fun _ _ _ _ h1 h2 => le_antisymm h2 h1) hm
    (desc_pairwise l)

theorem take_greatest {j k : Nat} (h : j ≤ k) (l : List κ) :
    (greatest k l).take j = greatest j l := by
  rw [greatest, greatest, List.take_take, Nat.min_eq_left h]

/-! ## Counting above a threshold -/

/-- `p` holds of everything above what it holds of. -/
def UpClosed (p : κ → Bool) : Prop := ∀ a b, a ≤ b → p a = true → p b = true

theorem upClosed_ge (t : κ) : UpClosed fun a => decide (t ≤ a) := fun _ _ hab ha => by
  simp only [decide_eq_true_eq] at *
  exact le_trans ha hab

theorem upClosed_gt (t : κ) : UpClosed fun a => decide (t < a) := fun _ _ hab ha => by
  simp only [decide_eq_true_eq] at *
  exact lt_of_lt_of_le ha hab

/-- In a descending list an up-closed predicate holds on a prefix. -/
theorem countP_take_of_desc {p : κ → Bool} (hp : UpClosed p) {l : List κ}
    (hl : l.Pairwise fun a b => b ≤ a) (k : Nat) :
    (l.take k).countP p = min k (l.countP p) := by
  induction l generalizing k with
  | nil => simp
  | cons a l ih =>
    obtain ⟨ha, hl⟩ := List.pairwise_cons.mp hl
    cases k with
    | zero => simp
    | succ k =>
      cases hpa : p a with
      | true => simp only [List.take_succ_cons, List.countP_cons, hpa, ↓reduceIte, ih hl]; omega
      | false =>
        -- nothing below `a` satisfies `p` either
        have h0 : ∀ b ∈ l, p b = false := fun b hb => by
          cases hpb : p b with
          | false => rfl
          | true => rw [hp b a (ha b hb) hpb] at hpa; cases hpa
        have hz : l.countP p = 0 := List.countP_eq_zero.mpr fun b hb => by simp [h0 b hb]
        simp [hpa, ih hl, hz]

theorem countP_greatest {p : κ → Bool} (hp : UpClosed p) (k : Nat) (l : List κ) :
    (greatest k l).countP p = min k (l.countP p) := by
  rw [greatest, countP_take_of_desc hp (desc_pairwise l), (desc_perm l).countP_eq]

/-- `l` and `m` have the same `k` greatest elements. -/
def Agree (k : Nat) (l m : List κ) : Prop :=
  ∀ p : κ → Bool, UpClosed p → min k (l.countP p) = min k (m.countP p)

theorem Agree.refl (k : Nat) (l : List κ) : Agree k l l := fun _ _ => rfl

theorem Agree.symm {k : Nat} {l m : List κ} (h : Agree k l m) : Agree k m l :=
  fun p hp => (h p hp).symm

theorem Agree.trans {k : Nat} {l m n : List κ} (h1 : Agree k l m) (h2 : Agree k m n) :
    Agree k l n := fun p hp => (h1 p hp).trans (h2 p hp)

theorem Agree.of_perm {k : Nat} {l m : List κ} (h : l.Perm m) : Agree k l m :=
  fun p _ => by rw [h.countP_eq]

theorem Agree.append {k : Nat} {l m : List κ} (h : Agree k l m) (n : List κ) :
    Agree k (l ++ n) (m ++ n) := fun p hp => by
  have := h p hp
  rw [List.countP_append, List.countP_append]
  omega

theorem Agree.length {k : Nat} {l m : List κ} (h : Agree k l m) :
    min k l.length = min k m.length := by
  have := h (fun _ => true) (fun _ _ _ _ => rfl)
  rwa [List.countP_true] at this

/-- Dropping elements that `k` others are not below loses none of the `k` greatest. -/
theorem agree_select {k : Nat} {a b : List κ} (hab : ∀ x ∈ a, ∀ y ∈ b, y ≤ x)
    (hk : k ≤ a.length ∨ b = []) : Agree k a (a ++ b) := by
  intro p hp
  rw [List.countP_append]
  rcases Nat.eq_zero_or_pos (b.countP p) with hb | hb
  · rw [hb, Nat.add_zero]
  · -- some dropped `y` satisfies `p`, hence so does everything kept
    obtain ⟨y, hy, hpy⟩ := List.countP_pos_iff.mp hb
    have hall : a.countP p = a.length :=
      List.countP_eq_length.mpr fun x hx => hp y x (hab x hx y hy) hpy
    have hlen : k ≤ a.length := hk.resolve_right fun h => by subst h; cases hy
    omega

theorem Agree.greatest_eq {k : Nat} {l m : List κ} (h : Agree k l m) :
    greatest k l = greatest k m := by
  have hcount : ∀ p : κ → Bool, UpClosed p →
      (greatest k l).countP p = (greatest k m).countP p := fun p hp => by
    rw [countP_greatest hp, countP_greatest hp, h p hp]
  have hsplit : ∀ (s : List κ) (t : κ), s.countP (fun a => decide (t ≤ a)) =
      s.count t + s.countP (fun a => decide (t < a)) := by
    intro s t
    induction s with
    | nil => rfl
    | cons a s ih =>
      simp only [List.countP_cons, List.count_cons, ih]
      rcases lt_trichotomy t a with hta | rfl | hta
      · simp only [hta, hta.le, hta.ne', beq_iff_eq, decide_true, ↓reduceIte]; omega
      · simp only [le_refl, lt_irrefl, decide_true, decide_false, ↓reduceIte, beq_self_eq_true]
        simp only [Bool.false_eq_true, ↓reduceIte]; omega
      · simp [hta.not_ge, hta.not_gt, hta.ne]
  have hperm : (greatest k l).Perm (greatest k m) := List.perm_iff_count.mpr fun t => by
    have h1 := hcount _ (upClosed_ge t)
    have h2 := hcount _ (upClosed_gt t)
    rw [hsplit, hsplit] at h1
    omega
  exact hperm.eq_of_pairwise (fun _ _ _ _ h1 h2 => le_antisymm h2 h1)
    ((desc_pairwise l).sublist (List.take_sublist _ _))
    ((desc_pairwise m).sublist (List.take_sublist _ _))

end

/-! ## Rows ordered by a key -/

/-- An order for ORDER BY `key` DESC: any arrangement of the rows with descending keys. -/
structure RankBy {α κ : Type} [LE κ] (key : α → κ) where
  sort : List α → List α
  perm : ∀ l, (sort l).Perm l
  pairwise : ∀ l, (sort l).Pairwise fun a b => key b ≤ key a

namespace RankBy

variable {α κ : Type} [LinearOrder κ] {key : α → κ}

/-- The order that keeps rows with equal keys as they stand. -/
def stable (key : α → κ) : RankBy key where
  sort l := l.insertionSort fun a b => key b ≤ key a
  perm l := List.perm_insertionSort _ l
  pairwise l := by
    have : Std.Total fun a b : α => key b ≤ key a := ⟨fun a b => le_total (key b) (key a)⟩
    have : IsTrans α fun a b => key b ≤ key a := ⟨fun a b c hab hbc => le_trans hbc hab⟩
    exact List.pairwise_insertionSort _ l

theorem map_sort (o : RankBy key) (l : List α) : (o.sort l).map key = desc (l.map key) :=
  eq_desc ((o.perm l).map key) (List.pairwise_map.mpr (o.pairwise l))

/-- The keys under LIMIT `k` are the `k` greatest, whatever the order among equal keys. -/
theorem map_limit (o : RankBy key) (k : Nat) (l : List α) :
    ((o.sort l).take k).map key = greatest k (l.map key) := by
  rw [List.map_take, o.map_sort, greatest]

/-- The rows under LIMIT `k` have the same `k` greatest keys as all rows. -/
theorem agree_limit (o : RankBy key) (k : Nat) (l : List α) :
    Agree k (((o.sort l).take k).map key) (l.map key) := by
  have hsel : Agree k (((o.sort l).take k).map key)
      (((o.sort l).take k).map key ++ ((o.sort l).drop k).map key) := by
    apply agree_select
    · have h := o.pairwise l
      rw [← List.take_append_drop k (o.sort l)] at h
      intro x hx y hy
      obtain ⟨a, ha, rfl⟩ := List.mem_map.mp hx
      obtain ⟨b, hb, rfl⟩ := List.mem_map.mp hy
      exact (List.pairwise_append.mp h).2.2 a ha b hb
    · rcases Nat.lt_or_ge (o.sort l).length k with hk | hk
      · right; simp [List.drop_eq_nil_of_le hk.le]
      · left; simpa using hk
  refine hsel.trans (Agree.of_perm ?_)
  rw [← List.map_append, List.take_append_drop]
  exact (o.perm l).map key

end RankBy

end Inventory.Lib
