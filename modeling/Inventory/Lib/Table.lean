import Inventory.Lib.TopK

/-!
# Keyed tables

`Table α key` holds rows in increasing order of an integer key, so keys are
unique, together with the next AUTO_INCREMENT value, which is positive and above
every key.
The operations are those of a statement on one table: insert under the next key
(`insert`) or a given one (`put`), delete by a condition (`filter`), rewrite the
row under a key (`modify`), and keep the top rows of an order (`keepTop`).
-/

namespace Inventory.Lib

@[ext]
structure Table (α : Type) (key : α → Int) where
  rows : List α
  next : Int
  sorted : rows.Pairwise fun a b => key a < key b
  below : ∀ r ∈ rows, key r < next
  pos : 0 < next

namespace Table

variable {α : Type} {key : α → Int}

instance [DecidableEq α] : DecidableEq (Table α key) := fun s t =>
  decidable_of_iff (s.rows = t.rows ∧ s.next = t.next) Table.ext_iff.symm

/-- The row under a key. -/
def get? (t : Table α key) (i : Int) : Option α := t.rows.find? fun r => key r == i

theorem key_injOn (t : Table α key) {a b : α} (ha : a ∈ t.rows) (hb : b ∈ t.rows)
    (h : key a = key b) : a = b := by
  obtain ⟨l, m, hl⟩ := List.append_of_mem ha
  have hs := t.sorted
  rw [hl] at hb hs
  obtain ⟨-, hs2, hs3⟩ := List.pairwise_append.mp hs
  rcases List.mem_append.mp hb with hb | hb
  · exact absurd (hs3 b hb a List.mem_cons_self) (by omega)
  · rcases List.mem_cons.mp hb with rfl | hb
    · rfl
    · exact absurd ((List.pairwise_cons.mp hs2).1 b hb) (by omega)

theorem get?_eq_some {t : Table α key} {i : Int} {r : α} :
    t.get? i = some r ↔ r ∈ t.rows ∧ key r = i := by
  constructor
  · intro h
    exact ⟨List.mem_of_find?_eq_some h, by simpa using List.find?_some h⟩
  · rintro ⟨hr, rfl⟩
    obtain ⟨r', hr'⟩ : ∃ r', t.get? (key r) = some r' := by
      rw [← Option.isSome_iff_exists, get?, List.find?_isSome]
      exact ⟨r, hr, by simp⟩
    rw [hr', t.key_injOn (List.mem_of_find?_eq_some hr') hr (by simpa using List.find?_some hr')]

theorem get?_eq_none {t : Table α key} {i : Int} :
    t.get? i = none ↔ ∀ r ∈ t.rows, key r ≠ i := by
  simp [get?, List.find?_eq_none]

theorem key_of_get? {t : Table α key} {i : Int} {r : α} (h : t.get? i = some r) : key r = i :=
  (get?_eq_some.mp h).2

theorem nodup (t : Table α key) : t.rows.Nodup :=
  t.sorted.imp fun h e => by subst e; omega

/-- Rows in key order are determined by their members. -/
theorem eq_of_mem_iff {l m : List α} (hl : l.Pairwise fun a b => key a < key b)
    (hm : m.Pairwise fun a b => key a < key b) (h : ∀ r, r ∈ l ↔ r ∈ m) : l = m := by
  have nd : ∀ {n : List α}, (n.Pairwise fun a b => key a < key b) → n.Nodup := fun hn =>
    hn.imp fun h e => by subst e; omega
  exact ((List.perm_ext_iff_of_nodup (nd hl) (nd hm)).mpr h).eq_of_pairwise
    (fun _ _ _ _ h1 h2 => absurd h1 (by omega)) hl hm

/-! ## Insert -/

section
variable (t : Table α key) (r : α) (hr : key r = t.next)

/-- Insert a row under the next AUTO_INCREMENT value. -/
def insert : Table α key where
  rows := t.rows ++ [r]
  next := t.next + 1
  sorted := List.pairwise_append.mpr ⟨t.sorted, List.pairwise_singleton _ _, fun a ha b hb => by
    rw [List.mem_singleton.mp hb, hr]
    exact t.below a ha⟩
  below a ha := by
    rcases List.mem_append.mp ha with ha | ha
    · have := t.below a ha
      omega
    · rw [List.mem_singleton.mp ha, hr]
      omega
  pos := by
    have := t.pos
    omega

@[simp] theorem rows_insert : (t.insert r hr).rows = t.rows ++ [r] := rfl

@[simp] theorem next_insert : (t.insert r hr).next = t.next + 1 := rfl

/-- The new key is not in use. -/
theorem get?_next : t.get? t.next = none :=
  get?_eq_none.mpr fun a ha h => absurd (t.below a ha) (by omega)

theorem get?_insert (i : Int) :
    (t.insert r hr).get? i = if i = t.next then some r else t.get? i := by
  unfold get?
  rw [rows_insert, List.find?_append]
  split
  · next h =>
    subst h
    have := t.get?_next
    unfold get? at this
    rw [this]
    simp [hr]
  · next h =>
    have hne : ¬ key r = i := fun e => h (by omega)
    simp [hne]

end

/-- Insert a row under its own key; refused when the key is in use. -/
def put (t : Table α key) (r : α) : Option (Table α key) :=
  if h : ∀ a ∈ t.rows, key a ≠ key r then
    some {
      rows := t.rows.filter (fun a => key a < key r) ++ r :: t.rows.filter (fun a => key r < key a)
      next := max t.next (key r + 1)
      sorted := by
        refine List.pairwise_append.mpr ⟨t.sorted.filter _, List.pairwise_cons.mpr
          ⟨fun a ha => by simpa using (List.mem_filter.mp ha).2, t.sorted.filter _⟩, ?_⟩
        intro a ha b hb
        have hlt : key a < key r := by simpa using (List.mem_filter.mp ha).2
        rcases List.mem_cons.mp hb with rfl | hb
        · exact hlt
        · have : key r < key b := by simpa using (List.mem_filter.mp hb).2
          omega
      below := by
        intro a ha
        rcases List.mem_append.mp ha with ha | ha
        · have := t.below a (List.mem_filter.mp ha).1
          omega
        · rcases List.mem_cons.mp ha with rfl | ha
          · omega
          · have := t.below a (List.mem_filter.mp ha).1
            omega
      pos := by
        have := t.pos
        omega }
  else none

/-- The key of a row that is inserted is not in use. -/
theorem get?_put_eq_none {t t' : Table α key} {r : α} (h : t.put r = some t') :
    t.get? (key r) = none := by
  unfold put at h
  split at h
  · next hfree => exact get?_eq_none.mpr hfree
  · cases h

theorem get?_put {t t' : Table α key} {r : α} (h : t.put r = some t') (i : Int) :
    t'.get? i = if i = key r then some r else t.get? i := by
  unfold put at h
  split at h
  · cases h
    split
    · next hi =>
      subst hi
      exact get?_eq_some.mpr ⟨List.mem_append_right _ List.mem_cons_self, rfl⟩
    · next hi =>
      cases ht : t.get? i with
      | none =>
        refine get?_eq_none.mpr fun a ha hk => ?_
        rcases List.mem_append.mp ha with ha | ha
        · exact get?_eq_none.mp ht a (List.mem_filter.mp ha).1 hk
        · rcases List.mem_cons.mp ha with rfl | ha
          · exact hi hk.symm
          · exact get?_eq_none.mp ht a (List.mem_filter.mp ha).1 hk
      | some a =>
        obtain ⟨ha, hk⟩ := get?_eq_some.mp ht
        refine get?_eq_some.mpr ⟨?_, hk⟩
        rcases lt_or_gt_of_ne (show key a ≠ key r by omega) with hlt | hgt
        · exact List.mem_append_left _ (List.mem_filter.mpr ⟨ha, by simpa using hlt⟩)
        · exact List.mem_append_right _
            (List.mem_cons_of_mem _ (List.mem_filter.mpr ⟨ha, by simpa using hgt⟩))
  · cases h

/-! ## Delete and update -/

/-- Keep the rows that satisfy `p`. -/
def filter (t : Table α key) (p : α → Bool) : Table α key where
  rows := t.rows.filter p
  next := t.next
  sorted := t.sorted.filter _
  below r hr := t.below r (List.mem_filter.mp hr).1
  pos := t.pos

@[simp] theorem rows_filter (t : Table α key) (p : α → Bool) :
    (t.filter p).rows = t.rows.filter p := rfl

theorem get?_filter (t : Table α key) (p : α → Bool) (i : Int) :
    (t.filter p).get? i = (t.get? i).filter p := by
  cases h : t.get? i with
  | none =>
    exact get?_eq_none.mpr fun r hr => get?_eq_none.mp h r (List.mem_filter.mp hr).1
  | some r =>
    obtain ⟨hr, hi⟩ := get?_eq_some.mp h
    cases hp : p r with
    | true =>
      rw [Option.filter_some, if_pos hp]
      exact get?_eq_some.mpr ⟨List.mem_filter.mpr ⟨hr, hp⟩, hi⟩
    | false =>
      rw [Option.filter_some, if_neg (by simp [hp])]
      refine get?_eq_none.mpr fun a ha e => ?_
      obtain ⟨ha, hpa⟩ := List.mem_filter.mp ha
      rw [t.key_injOn ha hr (by omega), hp] at hpa
      cases hpa

/-- Rewrite the row under key `i`. -/
def modify (t : Table α key) (i : Int) (f : α → α) (hf : ∀ r, key (f r) = key r) :
    Table α key where
  rows := t.rows.map fun r => if key r = i then f r else r
  next := t.next
  sorted := List.pairwise_map.mpr (t.sorted.imp fun {a b} h => by
    have ha : key (if key a = i then f a else a) = key a := by split <;> simp [hf]
    have hb : key (if key b = i then f b else b) = key b := by split <;> simp [hf]
    omega)
  below r hr := by
    obtain ⟨a, ha, rfl⟩ := List.mem_map.mp hr
    have : key (if key a = i then f a else a) = key a := by split <;> simp [hf]
    have := t.below a ha
    omega
  pos := t.pos

theorem get?_modify (t : Table α key) (i : Int) (f : α → α) (hf : ∀ r, key (f r) = key r)
    (j : Int) : (t.modify i f hf).get? j = if j = i then (t.get? j).map f else t.get? j := by
  have hg : ∀ r, key (if key r = i then f r else r) = key r := fun r => by split <;> simp [hf]
  cases h : t.get? j with
  | none =>
    have hn : (t.modify i f hf).get? j = none := get?_eq_none.mpr fun r hr => by
      obtain ⟨a, ha, rfl⟩ := List.mem_map.mp hr
      rw [hg]
      exact get?_eq_none.mp h a ha
    simp [hn]
  | some r =>
    obtain ⟨hr, rfl⟩ := get?_eq_some.mp h
    have hs : (t.modify i f hf).get? (key r) = some (if key r = i then f r else r) :=
      get?_eq_some.mpr ⟨List.mem_map_of_mem hr, hg r⟩
    rw [hs]
    split <;> simp

/-! ## The top rows of an order -/

section
variable {κ : Type} [LinearOrder κ] {rank : α → κ}

/-- DELETE the rows whose key is not among the `k` first under `o`. -/
def keepTop (t : Table α key) (o : RankBy rank) (k : Nat) : Table α key :=
  t.filter fun r => ((o.sort t.rows).take k).any fun a => key a == key r

theorem mem_keepTop (t : Table α key) (o : RankBy rank) (k : Nat) {r : α} :
    r ∈ (t.keepTop o k).rows ↔ r ∈ (o.sort t.rows).take k := by
  have hsub : ∀ a ∈ (o.sort t.rows).take k, a ∈ t.rows := fun a ha =>
    (o.perm t.rows).mem_iff.mp (List.mem_of_mem_take ha)
  simp only [keepTop, rows_filter, List.mem_filter, List.any_eq_true, beq_iff_eq]
  constructor
  · rintro ⟨hr, a, ha, e⟩
    rwa [← t.key_injOn (hsub a ha) hr e]
  · exact fun hr => ⟨hsub r hr, r, hr, rfl⟩

theorem keepTop_perm (t : Table α key) (o : RankBy rank) (k : Nat) :
    (t.keepTop o k).rows.Perm ((o.sort t.rows).take k) :=
  (List.perm_ext_iff_of_nodup (t.keepTop o k).nodup
    (((o.perm t.rows).nodup_iff.mpr t.nodup).sublist (List.take_sublist _ _))).mpr
    fun _ => t.mem_keepTop o k

theorem length_keepTop (t : Table α key) (o : RankBy rank) (k : Nat) :
    (t.keepTop o k).rows.length = min k t.rows.length := by
  rw [(t.keepTop_perm o k).length_eq, List.length_take, (o.perm t.rows).length_eq]

theorem agree_keepTop (t : Table α key) (o : RankBy rank) (k : Nat) :
    Agree k ((t.keepTop o k).rows.map rank) (t.rows.map rank) :=
  (Agree.of_perm ((t.keepTop_perm o k).map rank)).trans (o.agree_limit k t.rows)

/-! ## When the top rows are the last ones -/

/-- The rows but the last `k`, and the last `k`. -/
def old (t : Table α key) (k : Nat) : List α := t.rows.take (t.rows.length - k)

def recent (t : Table α key) (k : Nat) : List α := t.rows.drop (t.rows.length - k)

theorem old_append_recent (t : Table α key) (k : Nat) : t.old k ++ t.recent k = t.rows :=
  List.take_append_drop _ _

theorem length_recent (t : Table α key) (k : Nat) : (t.recent k).length = min k t.rows.length := by
  rw [recent, List.length_drop]
  omega

/-- The last `k` rows rank above all others. -/
def Latest (rank : α → κ) (k : Nat) (t : Table α key) : Prop :=
  ∀ a ∈ t.old k, ∀ b ∈ t.recent k, rank a < rank b

instance (rank : α → κ) (k : Nat) (t : Table α key) : Decidable (t.Latest rank k) := by
  unfold Latest; infer_instance

theorem length_lt_of_subset {l m : List α} {a : α} (hl : l.Nodup) (h : l ⊆ m) (ha : a ∈ m)
    (hn : a ∉ l) : l.length < m.length :=
  (List.subperm_of_subset (List.nodup_cons.mpr ⟨hn, hl⟩) (List.cons_subset.mpr ⟨ha, h⟩)).length_le

theorem limit_perm_recent {t : Table α key} {k : Nat} (h : t.Latest rank k) (o : RankBy rank) :
    ((o.sort t.rows).take k).Perm (t.recent k) := by
  have hp := o.perm t.rows
  have hs := o.pairwise t.rows
  rw [← List.take_append_drop k (o.sort t.rows)] at hp hs
  have hcut := (List.pairwise_append.mp hs).2.2
  have hnt : ((o.sort t.rows).take k).Nodup :=
    ((o.perm t.rows).nodup_iff.mpr t.nodup).sublist (List.take_sublist _ _)
  have hnr : (t.recent k).Nodup := t.nodup.sublist (List.drop_sublist _ _)
  have hlen : ((o.sort t.rows).take k).length = (t.recent k).length := by
    rw [length_recent, List.length_take, (o.perm t.rows).length_eq]
  have hsub : (o.sort t.rows).take k ⊆ t.recent k := fun r hr => by
    by_contra hn
    have hold : r ∈ t.old k := by
      have hrow := hp.mem_iff.mp (List.mem_append_left _ hr)
      rw [← old_append_recent t k] at hrow
      exact (List.mem_append.mp hrow).resolve_right hn
    -- a recent row that is cut off would rank below `r`
    have hsup : t.recent k ⊆ (o.sort t.rows).take k := fun b hb => by
      have hrow := hp.mem_iff.mpr (List.mem_of_mem_drop hb)
      refine (List.mem_append.mp hrow).resolve_right fun hd => ?_
      exact absurd (h r hold b hb) (not_lt_of_ge (hcut r hr b hd))
    exact absurd (length_lt_of_subset hnr hsup hr hn) (by omega)
  exact (List.subperm_of_subset hnt hsub).perm_of_length_le hlen.ge

theorem keepTop_eq_recent {t : Table α key} {k : Nat} (h : t.Latest rank k) (o : RankBy rank) :
    (t.keepTop o k).rows = t.recent k :=
  eq_of_mem_iff (t.keepTop o k).sorted (t.sorted.sublist (List.drop_sublist _ _)) fun _ =>
    (t.mem_keepTop o k).trans (limit_perm_recent h o).mem_iff

end

end Table

end Inventory.Lib
