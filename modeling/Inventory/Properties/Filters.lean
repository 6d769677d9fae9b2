import Inventory.Model.MasterList
import Inventory.Model.Sample

/-!
# Filtering and searching

An asset should be on the screen iff it passes the filters and holds the search
text. Each handler writes what its own inputs say and overwrites the other, so
after an input the screen is right iff the one set of assets lies in the other
(`Nested`), and a filter on the table without assets fails at its placeholder.
Along a run the screen is right at every input iff every input is `Nested`
(`filters_compose_iff`). The page is one whose option texts hold no markup
(`Screen.load`).
-/

namespace Inventory

open Lib Php Html

section
variable (lc : LowerCase) (sv : Server) (assets : List Asset)

/-- The assets on the screen are those that pass the filters and hold the search text. -/
def Composed (s : Screen) : Prop :=
  ∀ (i : Nat) (a : Asset), assets[i]? = some a →
    (((s.rows[i]?).map Row.visible).getD false = true ↔
      a.Passes lc sv s.value ∧ a.Found lc sv s.search)

/-- After the input, which reads no missing cell, the filters and the search compose. -/
def Composes (s : Screen) (i : Input) : Prop :=
  (s.on lc i).2 = false ∧ Composed lc sv assets (s.on lc i).1

/-- A filter: there are assets, and all that pass it hold the search text. A search: all assets
that hold its text pass the filters. -/
def Nested (s : Screen) : Input → Prop
  | .filter f v => assets ≠ [] ∧ ∀ a ∈ assets,
      a.Passes lc sv (Function.update s.value f v) → a.Found lc sv s.search
  | .search t => ∀ a ∈ assets, a.Found lc sv t → a.Passes lc sv s.value

end

section
variable {lc : LowerCase} {sv : Server} {assets : List Asset} {s : Screen}

/-- Rows that are visible as `P` says are composed iff `P` says what both inputs say. -/
theorem composed_iff {P : Asset → Prop}
    (h : List.Forall₂ (fun row a => row.visible = true ↔ P a) s.rows assets) :
    Composed lc sv assets s ↔
      ∀ a ∈ assets, (P a ↔ a.Passes lc sv s.value ∧ a.Found lc sv s.search) := by
  have hrow : ∀ (i : Nat) (a : Asset), assets[i]? = some a → (s.shows i = true ↔ P a) :=
    fun i a ha => shows_iff h ha
  constructor
  · intro hc a ha
    obtain ⟨i, hi⟩ := List.mem_iff_getElem?.mp ha
    exact (hrow i a hi).symm.trans (hc i a hi)
  · intro hc i a ha
    exact (hrow i a ha).trans (hc a (List.mem_of_getElem? ha))

theorem composed_nil (s : Screen) : Composed lc sv [] s := by
  intro i a h
  cases h

/-- A filter on the placeholder reads a cell that is not there. -/
theorem filter_noRecords (lc : LowerCase) (h : s.rows.map Row.cells = [noRecords.cells])
    (f : FilterSelect) (v : Bytes) : (s.on lc (.filter f v)).2 = true := by
  obtain ⟨row, rows, hs, hrow, hrows⟩ := List.map_eq_cons_iff.mp h
  have hnone : row.filtered lc (Function.update s.value f v) = none := by
    obtain ⟨cells, _⟩ := row
    obtain rfl : cells = _ := hrow
    rfl
  simp only [Screen.on, Screen.filterTable, hs, filterRows, hnone]

/-- **One input**: the screen is right after it iff the assets it leaves are nested. -/
theorem composes_iff (h : s.rows.map Row.cells = (tableRows sv assets).map Row.cells) (i : Input) :
    Composes lc sv assets s i ↔ Nested lc sv assets s i := by
  unfold tableRows at h
  split at h
  · next hnil =>
    subst hnil
    cases i with
    | filter f v =>
      have hthrew := filter_noRecords lc h f v
      exact iff_of_false (fun hc => Bool.false_ne_true (hc.1.symm.trans hthrew)) fun hn => hn.1 rfl
    | search t => exact iff_of_true ⟨rfl, composed_nil _⟩ fun a ha => absurd ha (List.not_mem_nil)
  · next hne =>
    rw [List.map_map] at h
    cases i with
    | filter f v =>
      obtain ⟨hok, hall⟩ := filterRows_assets lc (Function.update s.value f v) h
      have hc := @composed_iff lc sv _ (s.on lc (.filter f v)).1 _ hall
      constructor
      · exact fun hcomp => ⟨hne, fun a ha hp => ((hc.mp hcomp.2 a ha).mp hp).2⟩
      · intro hn
        refine ⟨hok, hc.mpr fun a ha => ⟨fun hp => ⟨hp, hn.2 a ha hp⟩, And.left⟩⟩
    | search t =>
      have hall := @searched_assets sv lc { s with search := t } _ h
      have hc := @composed_iff lc sv _ (s.on lc (.search t)).1 _ hall
      constructor
      · exact fun hcomp a ha hf => ((hc.mp hcomp.2 a ha).mp hf).1
      · intro hn
        exact ⟨rfl, hc.mpr fun a ha => ⟨fun hf => ⟨hn a ha hf, hf⟩, And.right⟩⟩

end

/-- **Filters and search compose at every input of a run iff every input leaves nested sets.** -/
theorem filters_compose_iff (lc : LowerCase) (sv : Server) (assets : List Asset)
    (inputs : List Input) :
    (Screen.load sv assets).Along lc (Composes lc sv assets) inputs ↔
      (Screen.load sv assets).Along lc (Nested lc sv assets) inputs := by
  have hstep : ∀ past i, Composes lc sv assets ((Screen.load sv assets).after lc past) i ↔
      Nested lc sv assets ((Screen.load sv assets).after lc past) i := fun past i =>
    composes_iff (after_cells _ past) i
  constructor
  · exact fun h past i future he => (hstep past i).mp (h past i future he)
  · exact fun h past i future he => (hstep past i).mpr (h past i future he)

/-- A filter after a search shows what the search has hidden, and the filter on an empty table
fails. -/
theorem filters_overwrite :
    ¬ (Screen.load .canonical sample.assets.rows).Along .ascii
        (Composes .ascii .canonical sample.assets.rows)
        [.search (str "34"), .filter .type_os_type (str "WINDOWS 10")] ∧
      ¬ (Screen.load .canonical []).Along .ascii (Composes .ascii .canonical [])
        [.filter .type_os_type []] := by
  constructor
  · intro h
    have hc := (h [.search (str "34")] (.filter .type_os_type (str "WINDOWS 10")) [] rfl).2 0
      asset33 rfl
    obtain ⟨c, hf⟩ := (hc.mp (by decide)).2
    revert c
    decide
  · intro h
    exact absurd (h [] (.filter .type_os_type []) [] rfl).1 (by decide)

end Inventory
