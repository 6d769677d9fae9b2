import Inventory.Model.Markup
import Inventory.Model.Sample

/-!
# Filtering for a value

Every value of a column should have an option that shows the rows with it and
hides those with another one. What an option matches is the text of a cell, so a
value is filtered for iff the whole column has it, or the select offers the text
of its cell and no other value has that text in its cell (`filterable_iff`). The
memory offers four sizes and nothing else (`offers_memory`), the other columns
their values with the white space collapsed (`offers_text`).
-/

namespace Inventory

open Lib Php Html

/-- The text with white space stripped, and collapsed to single spaces. -/
def collapse (t : Bytes) : Bytes :=
  List.intercalate [32] ((t.splitOnP isWs).filter fun word => !word.isEmpty)

/-- A browser, as it reads selects whose options have no value of their own. -/
structure Browser where
  letterCase : LowerCase
  /-- The values of the options, from their texts as they stand in the page. -/
  optionValues : List Bytes → List Bytes
  /-- Without markup and references an option has its text for a value. -/
  optionValues_text : ∀ ts, (∀ t ∈ ts, Utf8.valid t = true ∧ ∀ b ∈ t, b ≠ 60 ∧ b ≠ 38) →
    optionValues ts = ts.map fun t => collapse (textContent t)

/-- A browser with the letter case of ASCII, for options without markup. -/
def Browser.ascii : Browser where
  letterCase := .ascii
  optionValues ts := ts.map fun t => collapse (textContent t)
  optionValues_text _ _ := rfl

/-- The texts differ in letter case at most. -/
def SameCase (br : Browser) (s t : Bytes) : Prop :=
  br.letterCase.toLowerCase s = br.letterCase.toLowerCase t

instance (br : Browser) (s t : Bytes) : Decidable (SameCase br s t) :=
  inferInstanceAs (Decidable (_ = _))

/-- The value of an asset under a select. -/
def Asset.filterValue (a : Asset) (f : FilterSelect) : Bytes := (a.fields f.column).getD []

/-- The text of an asset's cell under a select. -/
def Asset.filterCell (sv : Server) (a : Asset) (f : FilterSelect) : Bytes :=
  a.cellText sv (.col f.column)

section
variable (br : Browser) (sv : Server) (d : Db) (f : FilterSelect)

/-- What can be chosen: All, and the options. -/
def Browser.choices : List Bytes := [] :: br.optionValues (f.options (d.values sv))

/-- Some choice leaves the row `i` on the screen and hides every row whose value is not `v`. -/
def Filterable (i : Nat) (v : Bytes) : Prop :=
  ∃ o ∈ br.choices sv d f,
    let s := ((Screen.load sv d.assets.rows).on br.letterCase (.filter f o)).1
    s.shows i = true ∧ ∀ j b, d.assets.rows[j]? = some b →
      ¬ SameCase br (b.filterValue f) v → s.shows j = false

/-- The select offers the text: a size of memory, or what an option made of a distinct value
reads. -/
def Offers (t : Bytes) : Prop :=
  if f = .memory then ∃ size ∈ memorySizes, SameCase br size t
  else ∃ o ∈ br.optionValues ((d.values sv f.column).map fun v => v.getD []),
    o ≠ [] ∧ SameCase br o t

/-- No other value has the text of the asset's cell. -/
def Tells (a : Asset) : Prop :=
  ∀ b ∈ d.assets.rows, SameCase br (b.filterCell sv f) (a.filterCell sv f) →
    SameCase br (b.filterValue f) (a.filterValue f)

end

/-! ## One choice -/

section
variable {br : Browser} {sv : Server} {d : Db} {f : FilterSelect}

/-- With the other selects on All a filter is one comparison. -/
theorem passes_choice {a : Asset} {o : Bytes} :
    a.Passes br.letterCase sv (Function.update (fun _ => []) f o) ↔
      (o ≠ [] → SameCase br (a.filterCell sv f) o) := by
  unfold Asset.Passes
  constructor
  · intro h
    have hf := h f
    rwa [Function.update_self] at hf
  · intro h g
    by_cases hg : g = f
    · subst hg
      rw [Function.update_self]
      exact h
    · rw [Function.update_of_ne hg]
      exact fun hne => absurd rfl hne

/-- **One choice** shows the rows whose cells have its text. -/
theorem shows_choice {j : Nat} {b : Asset} (hb : d.assets.rows[j]? = some b) (o : Bytes) :
    ((Screen.load sv d.assets.rows).on br.letterCase (.filter f o)).1.shows j = true ↔
      (o ≠ [] → SameCase br (b.filterCell sv f) o) := by
  have hne : d.assets.rows ≠ [] := List.ne_nil_of_mem (List.mem_of_getElem? hb)
  have hcells : (Screen.load sv d.assets.rows).rows.map Row.cells =
      d.assets.rows.map fun a => (assetRow sv a).cells := by
    show (tableRows sv d.assets.rows).map Row.cells = _
    rw [tableRows, if_neg hne, List.map_map]
    rfl
  obtain ⟨-, hall⟩ := filterRows_assets br.letterCase (Function.update (fun _ => []) f o) hcells
  exact (shows_iff hall hb).trans passes_choice

theorem memory_texts : ∀ t ∈ memorySizes, Utf8.valid t = true ∧ ∀ b ∈ t, b ≠ 60 ∧ b ≠ 38 := by
  have hall : ∀ t ∈ memorySizes, (Utf8.valid t && t.all fun b => b != 60 && b != 38) = true :=
    List.all_iff_forall_prop.mp (by decide)
  intro t ht
  simpa using hall t ht

/-- The options of the memory read as they are written. -/
theorem optionValues_memory (br : Browser) : br.optionValues memorySizes = memorySizes := by
  rw [br.optionValues_text _ memory_texts]
  decide

/-- **What a select offers**: a choice but All that has the text for letter case. -/
theorem offers_iff (t : Bytes) : Offers br sv d f t ↔
    ∃ o ∈ br.optionValues (f.options (d.values sv)), o ≠ [] ∧ SameCase br o t := by
  unfold Offers FilterSelect.options
  split
  · rw [optionValues_memory]
    have hne : ∀ size ∈ memorySizes, size ≠ [] := by decide
    constructor
    · rintro ⟨size, hsize, ht⟩
      exact ⟨size, hsize, hne size hsize, ht⟩
    · rintro ⟨size, hsize, -, ht⟩
      exact ⟨size, hsize, ht⟩
  · exact Iff.rfl

/-- Distinct values without markup and references are offered with their white space collapsed. -/
theorem offers_text (hf : f ≠ .memory)
    (h : ∀ v ∈ d.values sv f.column,
      Utf8.valid (v.getD []) = true ∧ ∀ b ∈ v.getD [], b ≠ 60 ∧ b ≠ 38)
    (t : Bytes) : Offers br sv d f t ↔ ∃ v ∈ d.values sv f.column,
      collapse (textContent (v.getD [])) ≠ [] ∧
        SameCase br (collapse (textContent (v.getD []))) t := by
  rw [Offers, if_neg hf, br.optionValues_text _ (List.forall_mem_map.mpr h), List.map_map]
  constructor
  · rintro ⟨o, ho, hoffer⟩
    obtain ⟨v, hv, rfl⟩ := List.mem_map.mp ho
    exact ⟨v, hv, hoffer⟩
  · rintro ⟨v, hv, hoffer⟩
    exact ⟨_, List.mem_map_of_mem hv, hoffer⟩

end

/-- A value can be filtered for iff every row has it, or the select offers the text of its cell and
no row with another value has that text in its cell. -/
theorem filterable_iff_cell (br : Browser) (sv : Server) (d : Db) (f : FilterSelect) {i : Nat}
    {a : Asset} {v : Bytes} (ha : d.assets.rows[i]? = some a) (hv : a.fields f.column = some v) :
    Filterable br sv d f i v ↔ (∀ b ∈ d.assets.rows, SameCase br (b.filterValue f) v) ∨
      Offers br sv d f (a.filterCell sv f) ∧ Tells br sv d f a := by
  have hvalue : a.filterValue f = v := by
    rw [Asset.filterValue, hv]
    rfl
  constructor
  · rintro ⟨o, ho, hshown, hhidden⟩
    have hcell := (shows_choice ha o).mp hshown
    have hother : ∀ b ∈ d.assets.rows, (o ≠ [] → SameCase br (b.filterCell sv f) o) →
        SameCase br (b.filterValue f) v := by
      intro b hb hbo
      obtain ⟨j, hj⟩ := List.mem_iff_getElem?.mp hb
      by_contra hne
      have hj' := hhidden j b hj hne
      rw [(shows_choice hj o).mpr hbo] at hj'
      cases hj'
    rcases List.mem_cons.mp ho with rfl | ho
    · exact .inl fun b hb => hother b hb fun hne => absurd rfl hne
    · by_cases hnil : o = []
      · exact .inl fun b hb => hother b hb fun hne => absurd hnil hne
      · refine .inr ⟨offers_iff _ |>.mpr ⟨o, ho, hnil, (hcell hnil).symm⟩, fun b hb hsame => ?_⟩
        rw [hvalue]
        exact hother b hb fun _ => hsame.trans (hcell hnil)
  · rintro (hall | ⟨hoffers, htells⟩)
    · refine ⟨[], List.mem_cons_self, (shows_choice ha []).mpr fun hne => absurd rfl hne, ?_⟩
      exact fun j b hj hne => absurd (hall b (List.mem_of_getElem? hj)) hne
    · obtain ⟨o, ho, hnil, hsame⟩ := (offers_iff _).mp hoffers
      refine ⟨o, List.mem_cons_of_mem _ ho, (shows_choice ha o).mpr fun _ => hsame.symm, ?_⟩
      intro j b hj hne
      rw [← Bool.not_eq_true, shows_choice hj o]
      intro hbo
      rw [← hvalue] at hne
      exact hne (htells b (List.mem_of_getElem? hj) ((hbo hnil).trans hsame))

/-- **A value can be filtered for** iff every row has it, or the select offers the text of its cell
and no row with another value has that text in its cell. The memory offers four sizes; without
markup and references the other columns offer their distinct values with white space collapsed. -/
theorem filterable_iff (br : Browser) (sv : Server) (d : Db) (f : FilterSelect) {i : Nat}
    {a : Asset} {v : Bytes} (ha : d.assets.rows[i]? = some a) (hv : a.fields f.column = some v) :
    (Filterable br sv d f i v ↔ (∀ b ∈ d.assets.rows, SameCase br (b.filterValue f) v) ∨
      Offers br sv d f (a.filterCell sv f) ∧ Tells br sv d f a) ∧
    (f = .memory → ∀ t, Offers br sv d f t ↔ ∃ size ∈ memorySizes, SameCase br size t) ∧
    (f ≠ .memory → (∀ w ∈ d.values sv f.column,
        Utf8.valid (w.getD []) = true ∧ ∀ b ∈ w.getD [], b ≠ 60 ∧ b ≠ 38) →
      ∀ t, Offers br sv d f t ↔ ∃ w ∈ d.values sv f.column,
        collapse (textContent (w.getD [])) ≠ [] ∧
          SameCase br (collapse (textContent (w.getD []))) t) := by
  refine ⟨filterable_iff_cell br sv d f ha hv, fun hf t => ?_, fun hf h t => offers_text hf h t⟩
  rw [Offers, if_pos hf]

theorem filterable_iff_sample :
    Filterable .ascii .canonical sampleMemories .memory 1 (str "4 GB") := by
  refine (filterable_iff .ascii .canonical sampleMemories .memory rfl rfl).1.mpr (.inr ⟨?_, ?_⟩)
  · exact ⟨str "4 GB", List.mem_cons_self, rfl⟩
  · unfold Tells
    decide

/-- No choice shows the asset with 32 GB of memory and hides the one with 4 GB. -/
theorem large_memory_not_filterable :
    ¬ Filterable .ascii .canonical sampleMemories .memory 0 (str "32 GB") := by
  rintro ⟨o, ho, hshown, hhidden⟩
  have hcell := (shows_choice rfl o).mp hshown
  rw [Browser.choices, FilterSelect.options, if_pos rfl, optionValues_memory] at ho
  rcases List.mem_cons.mp ho with rfl | ho
  · have hother := hhidden 1 _ rfl (by decide)
    rw [(shows_choice rfl []).mpr fun hne => absurd rfl hne] at hother
    cases hother
  · have hnone : ∀ size ∈ memorySizes, size ≠ [] ∧
        ¬ SameCase .ascii (Asset.filterCell .canonical
          { sampleAsset 33 (by decide) (by decide) with fields := largeMemory } .memory) size := by
      decide
    exact (hnone o ho).2 (hcell (hnone o ho).1)

end Inventory
