import Inventory.Model.MasterList
import Inventory.Model.Sample

/-!
# The selection

What is selected is kept three times on the page: by the checkboxes, by the class
of the rows and by the buttons. Whatever is done after the page is loaded, the
three agree (`selection_consistent`). Whether a row is displayed is kept apart
from them, so the buttons act on rows of the screen alone in the runs where no
input hides a selected row, and in no others (`acts_on_screen_iff`). The page is
one whose option texts hold no markup (`Screen.load`).
-/

namespace Inventory

open Lib Php Html

/-- A row without whether it is displayed. -/
def Row.core (r : Row) : Row := { r with visible := true }

/-- The assets of the highlighted rows, in table order. -/
def Screen.highlighted (s : Screen) (assets : List Asset) : List Asset :=
  ((s.rows.zip assets).filter fun p => p.1.selected).map Prod.snd

/-! ## One event -/

section
variable {lc : LowerCase} {s : Screen}

theorem filterRows_core (value : FilterSelect → Bytes) (rows : List Row) :
    (filterRows lc value rows).1.map Row.core = rows.map Row.core := by
  induction rows with
  | nil => rfl
  | cons row rows ih =>
    unfold filterRows
    cases row.filtered lc value with
    | none => rfl
    | some v =>
      rw [List.map_cons, List.map_cons, ih]
      rfl

/-- No input changes what is selected. -/
theorem on_core (lc : LowerCase) (s : Screen) (i : Input) :
    (s.on lc i).1.rows.map Row.core = s.rows.map Row.core := by
  cases i with
  | filter f v => exact filterRows_core _ _
  | search t =>
    simp only [Screen.on, Screen.searched, List.map_map]
    rfl

theorem forall_core {P : Row → Prop} (hP : ∀ r, P r.core ↔ P r) {rows rows' : List Row}
    (h : rows.map Row.core = rows'.map Row.core) : (∀ r ∈ rows, P r) ↔ ∀ r ∈ rows', P r := by
  have hcore : ∀ l : List Row, (∀ r ∈ l, P r) ↔ ∀ r ∈ l.map Row.core, P r := fun l => by
    rw [List.forall_mem_map]
    exact forall₂_congr fun r _ => (hP r).symm
  rw [hcore, h, ← hcore]

/-- The class agrees with the checkbox, and a row without a checkbox is not selected. -/
def Row.Sound (r : Row) : Prop := r.selected = r.checked ∧ (r.check = none → r.checked = false)

/-- The checkboxes, the classes and the buttons agree. -/
structure Consistent (s : Screen) : Prop where
  rows : ∀ row ∈ s.rows, row.Sound
  edit : s.editDisabled = (s.selectedIds.length == 0)
  delete : s.deleteDisabled = (s.selectedIds.length == 0)

theorem selectedIds_core {s t : Screen} (h : s.rows.map Row.core = t.rows.map Row.core) :
    s.selectedIds = t.selectedIds := by
  have hcore : ∀ l : List Row, (l.filter Row.checked).filterMap Row.check =
      ((l.map Row.core).filter Row.checked).filterMap Row.check := fun l => by
    rw [List.filter_map, List.filterMap_map]
    rfl
  unfold Screen.selectedIds
  rw [hcore, h, ← hcore]

theorem on_buttons (s : Screen) (i : Input) :
    (s.on lc i).1.editDisabled = s.editDisabled ∧
      (s.on lc i).1.deleteDisabled = s.deleteDisabled := by
  cases i <;> exact ⟨rfl, rfl⟩

theorem load_unselected {sv : Server} {assets : List Asset} {row : Row}
    (h : row ∈ tableRows sv assets) : row.selected = false ∧ row.checked = false := by
  unfold tableRows at h
  split at h
  · obtain rfl := List.mem_singleton.mp h
    exact ⟨rfl, rfl⟩
  · obtain ⟨a, -, rfl⟩ := List.mem_map.mp h
    exact ⟨rfl, rfl⟩

theorem Consistent.load (sv : Server) (assets : List Asset) :
    Consistent (Screen.load sv assets) := by
  have hnone : (Screen.load sv assets).selectedIds = [] := by
    have hfilter : (tableRows sv assets).filter Row.checked = [] :=
      List.filter_eq_nil_iff.mpr fun row hrow => by simp [(load_unselected hrow).2]
    exact congrArg (List.filterMap Row.check) hfilter
  refine ⟨fun row hrow => ?_, ?_, ?_⟩
  · obtain ⟨hs, hc⟩ := load_unselected hrow
    exact ⟨hs.trans hc.symm, fun _ => hc⟩
  · rw [hnone]
    rfl
  · rw [hnone]
    rfl

theorem Consistent.flip (h : Consistent s) {i : Nat} {row : Row} (hc : row.check ≠ none) :
    Consistent (s.flip i row) := by
  refine ⟨fun r hr => ?_, rfl, rfl⟩
  rcases List.mem_or_eq_of_mem_set hr with hr | rfl
  · exact h.rows r hr
  · exact ⟨rfl, fun hn => absurd hn hc⟩

theorem Consistent.on (h : Consistent s) (i : Input) : Consistent (s.on lc i).1 := by
  have hcore := on_core lc s i
  refine ⟨?_, ?_, ?_⟩
  · exact (forall_core (fun _ => Iff.rfl) hcore).mpr h.rows
  · rw [(on_buttons s i).1, selectedIds_core hcore, h.edit]
  · rw [(on_buttons s i).2, selectedIds_core hcore, h.delete]

/-- **One event** keeps the three in agreement. -/
theorem Consistent.handle (h : Consistent s) (e : UserEvent) : Consistent (s.handle lc e).1 := by
  rcases handle_cases lc s e with ⟨i, rfl⟩ | hs | ⟨i, row, -, -, hc, hs⟩
  · exact h.on i
  · rw [hs]
    exact h
  · rw [hs]
    exact h.flip hc

/-- **A run** keeps them in agreement. -/
theorem Consistent.played (h : Consistent s) (es : List UserEvent) :
    Consistent (s.played lc es) := by
  induction es generalizing s with
  | nil => exact h
  | cons e es ih => exact ih (h.handle e)

/-- What no event changes: everything but the selection and the display. -/
theorem handle_fixed {β : Type} {f : Row → β}
    (hf : ∀ (r : Row) (b c v : Bool), f ⟨r.cells, r.check, b, c, v⟩ = f r) (s : Screen)
    (e : UserEvent) : (s.handle lc e).1.rows.map f = s.rows.map f := by
  rcases handle_cases lc s e with ⟨i, rfl⟩ | h | ⟨i, row, hrow, -, -, h⟩
  · have hcore : ∀ l : List Row, l.map f = (l.map Row.core).map f := fun l => by
      rw [List.map_map]
      exact List.map_congr_left fun r _ => (hf r _ _ _).symm
    show (s.on lc i).1.rows.map f = _
    rw [hcore, on_core, ← hcore]
  · rw [h]
  · rw [h]
    exact map_set_self hrow (hf row _ _ _)

theorem played_fixed {β : Type} {f : Row → β}
    (hf : ∀ (r : Row) (b c v : Bool), f ⟨r.cells, r.check, b, c, v⟩ = f r) (s : Screen)
    (es : List UserEvent) : (s.played lc es).rows.map f = s.rows.map f := by
  induction es generalizing s with
  | nil => rfl
  | cons e es ih => exact (ih _).trans (handle_fixed hf s e)

end

/-! ## The ids that are sent -/

section
variable {sv : Server} {s : Screen} {assets : List Asset}

/-- The text of an asset's id. -/
def Asset.idText (a : Asset) : Bytes := Bytes.intText a.id

theorem checks_tableRows (hne : assets ≠ []) :
    (tableRows sv assets).map Row.check = assets.map fun a => some a.idText := by
  rw [tableRows, if_neg hne, List.map_map]
  rfl

/-- The checked rows are the highlighted ones. -/
theorem selectedIds_eq (h : Consistent s)
    (hc : s.rows.map Row.check = (tableRows sv assets).map Row.check) :
    s.selectedIds = (s.highlighted assets).map Asset.idText := by
  have hrows := h.rows
  unfold Screen.selectedIds Screen.highlighted
  generalize s.rows = rows at hc hrows
  by_cases hnil : assets = []
  · subst hnil
    obtain ⟨row, rows, rfl, hnone, hrest⟩ := List.map_eq_cons_iff.mp hc
    obtain rfl := List.map_eq_nil_iff.mp hrest
    have hout : row.checked = false := (hrows row List.mem_cons_self).2 hnone
    simp [hout]
  · rw [checks_tableRows hnil] at hc
    clear hnil
    induction assets generalizing rows with
    | nil =>
      obtain rfl := List.map_eq_nil_iff.mp hc
      rfl
    | cons a assets ih =>
      obtain ⟨row, rows, rfl, hid, hrest⟩ := List.map_eq_cons_iff.mp hc
      have hsound : row.selected = row.checked := (hrows row List.mem_cons_self).1
      have hih := ih rows hrest fun r hr => hrows r (List.mem_cons_of_mem _ hr)
      cases hrow : row.checked with
      | false => simpa [hsound, hrow] using hih
      | true => simpa [hsound, hrow, hid] using hih

theorem selectedIds_eq_nil (h : Consistent s) :
    s.selectedIds = [] ↔ ¬ ∃ row ∈ s.rows, row.checked = true := by
  unfold Screen.selectedIds
  rw [List.filterMap_eq_nil_iff]
  constructor
  · rintro hnone ⟨row, hrow, hch⟩
    have hno : row.check = none := hnone row (List.mem_filter.mpr ⟨hrow, hch⟩)
    rw [(h.rows row hrow).2 hno] at hch
    cases hch
  · intro hno row hrow
    obtain ⟨hmem, hch⟩ := List.mem_filter.mp hrow
    exact absurd ⟨row, hmem, hch⟩ hno

theorem pressEdit_eq (h : Consistent s) :
    s.pressEdit = if s.selectedIds = [] then none else some s.selectedIds := by
  unfold Screen.pressEdit
  rw [h.edit]
  cases s.selectedIds <;> rfl

theorem pressDelete_eq (h : Consistent s) (ok : Bool) :
    s.pressDelete ok = if ok = true ∧ s.selectedIds ≠ [] then some s.selectedIds else none := by
  unfold Screen.pressDelete
  rw [h.delete]
  cases s.selectedIds <;> cases ok <;> rfl

theorem highlighted_sublist (s : Screen) (assets : List Asset) :
    (s.highlighted assets).Sublist assets := by
  have hzip : ∀ rows : List Row, ((rows.zip assets).map Prod.snd).Sublist assets := by
    induction assets with
    | nil => simp
    | cons a assets ih =>
      intro rows
      cases rows with
      | nil => exact List.nil_sublist _
      | cons row rows => exact (ih rows).cons_cons a
  exact (List.Sublist.map _ List.filter_sublist).trans (hzip s.rows)

/-- Assets have ids of their own, and so do any of them. -/
theorem nodup_idText (d : Db) {l : List Asset} (h : l.Sublist d.assets.rows) :
    (l.map Asset.idText).Nodup := by
  refine List.Nodup.map_on (fun a ha b hb he => ?_) (d.assets.nodup.sublist h)
  exact d.assets.key_injOn (h.subset ha) (h.subset hb) (Bytes.intText_injective he)

end

/-- **The selection is consistent** after every run of events on a fresh page: the class of a row
says what its checkbox says, the buttons are enabled iff a checkbox is checked, and they send the
ids of the highlighted rows, in table order and each once. -/
theorem selection_consistent (lc : LowerCase) (sv : Server) (d : Db) (es : List UserEvent) :
    let s := (Screen.load sv d.assets.rows).played lc es
    let ids := (s.highlighted d.assets.rows).map Asset.idText
    (∀ row ∈ s.rows, row.selected = true ↔ row.checked = true) ∧
      (s.editDisabled = false ↔ ∃ row ∈ s.rows, row.checked = true) ∧
      (s.deleteDisabled = false ↔ ∃ row ∈ s.rows, row.checked = true) ∧
      (s.pressEdit = if ids = [] then none else some ids) ∧
      (∀ ok, s.pressDelete ok = if ok = true ∧ ids ≠ [] then some ids else none) ∧
      (s.highlighted d.assets.rows).Sublist d.assets.rows ∧ ids.Nodup := by
  intro s ids
  have h : Consistent s := (Consistent.load sv d.assets.rows).played es
  have hids : s.selectedIds = ids := selectedIds_eq h (played_fixed (fun _ _ _ _ => rfl) _ es)
  have henabled : (s.selectedIds.length == 0) = false ↔ ∃ row ∈ s.rows, row.checked = true := by
    rw [beq_eq_false_iff_ne, Ne, List.length_eq_zero_iff, selectedIds_eq_nil h, not_not]
  have hsub := highlighted_sublist s d.assets.rows
  refine ⟨fun row hrow => ?_, ?_, ?_, ?_, ?_, hsub, ?_⟩
  · rw [(h.rows row hrow).1]
  · rw [h.edit]
    exact henabled
  · rw [h.delete]
    exact henabled
  · rw [pressEdit_eq h, hids]
  · intro ok
    rw [pressDelete_eq h, hids]
  · exact nodup_idText d hsub

/-! ## The rows on the screen -/

/-- The buttons act on rows of the screen only. -/
def OnScreen (s : Screen) : Prop :=
  ∀ ids, (s.pressEdit = some ids ∨ ∃ ok, s.pressDelete ok = some ids) →
    ∀ id ∈ ids, ∃ row ∈ s.rows, row.check = some id ∧ row.visible = true

/-- An input leaves the asset on the screen. -/
def Asset.Stays (lc : LowerCase) (sv : Server) (s : Screen) (a : Asset) : Input → Prop
  | .filter f v => a.Passes lc sv (Function.update s.value f v)
  | .search t => a.Found lc sv t

/-- The input leaves every asset of a highlighted row on the screen. -/
def Spares (lc : LowerCase) (sv : Server) (assets : List Asset) (s : Screen) (i : Input) : Prop :=
  ∀ a ∈ s.highlighted assets, a.Stays lc sv s i

/-- The checked rows are displayed. -/
def Displayed (s : Screen) : Prop := ∀ row ∈ s.rows, row.checked = true → row.visible = true

section
variable {lc : LowerCase} {sv : Server} {s : Screen} {assets : List Asset}

theorem nodup_checks (sv : Server) (d : Db) :
    ((tableRows sv d.assets.rows).map Row.check).Nodup := by
  by_cases hnil : d.assets.rows = []
  · rw [hnil]
    exact List.nodup_singleton _
  · rw [checks_tableRows hnil]
    have hids := (nodup_idText d (.refl _)).map (Option.some_injective Bytes)
    rwa [List.map_map] at hids

theorem onScreen_iff (h : Consistent s) (hn : (s.rows.map Row.check).Nodup) :
    OnScreen s ↔ Displayed s := by
  constructor
  · intro hs row hrow hch
    obtain ⟨id, hid⟩ := Option.ne_none_iff_exists'.mp fun hno =>
      Bool.false_ne_true (((h.rows row hrow).2 hno).symm.trans hch)
    have hmem : id ∈ s.selectedIds :=
      List.mem_filterMap.mpr ⟨row, List.mem_filter.mpr ⟨hrow, hch⟩, hid⟩
    have hsent : s.pressEdit = some s.selectedIds := by
      rw [pressEdit_eq h, if_neg (List.ne_nil_of_mem hmem)]
    obtain ⟨other, hother, hcheck, hvis⟩ := hs _ (.inl hsent) id hmem
    obtain rfl := List.inj_on_of_nodup_map hn hother hrow (hcheck.trans hid.symm)
    exact hvis
  · intro hk ids hsent id hid
    have hids : ids = s.selectedIds := by
      rcases hsent with hsent | ⟨ok, hsent⟩
      · rw [pressEdit_eq h] at hsent
        split at hsent
        · cases hsent
        · exact (Option.some.inj hsent).symm
      · rw [pressDelete_eq h] at hsent
        split at hsent
        · exact (Option.some.inj hsent).symm
        · cases hsent
    rw [hids] at hid
    obtain ⟨row, hrow, hcheck⟩ := List.mem_filterMap.mp hid
    obtain ⟨hmem, hch⟩ := List.mem_filter.mp hrow
    exact ⟨row, hmem, hcheck, hk row hmem hch⟩

/-- The rows after an input are displayed as their assets stay. -/
theorem on_stays (h : s.rows.map Row.cells = assets.map fun a => (assetRow sv a).cells)
    (i : Input) : List.Forall₂ (fun row a => row.visible = true ↔ a.Stays lc sv s i)
      (s.on lc i).1.rows assets := by
  cases i with
  | filter f v => exact (filterRows_assets lc _ h).2
  | search t => exact @searched_assets sv lc { s with search := t } _ h

theorem highlighted_stay {P : Asset → Prop} {rows rows' : List Row}
    (h : List.Forall₂ (fun row a => row.visible = true ↔ P a) rows' assets)
    (hcore : rows'.map Row.core = rows.map Row.core) :
    (∀ row ∈ rows', row.selected = true → row.visible = true) ↔
      ∀ a ∈ ((rows.zip assets).filter fun p => p.1.selected).map Prod.snd, P a := by
  induction h generalizing rows with
  | nil =>
    obtain rfl := List.map_eq_nil_iff.mp hcore.symm
    simp
  | @cons row' a rows' assets hrow _ ih =>
    obtain ⟨row, rows, rfl, he, hrest⟩ := List.map_eq_cons_iff.mp hcore.symm
    have hsel : row'.core.selected = row.core.selected := congrArg Row.selected he.symm
    have hsel : row'.selected = row.selected := hsel
    have hih := ih hrest.symm
    rw [List.forall_mem_cons, hih, hsel, List.zip_cons_cons, List.filter_cons]
    cases hs : row.selected with
    | false => simp
    | true => simp [hrow]

/-- **One input** keeps the checked rows displayed iff it spares the highlighted ones. -/
theorem displayed_on_iff (h : Consistent s)
    (hcells : s.rows.map Row.cells = (tableRows sv assets).map Row.cells)
    (hcheck : s.rows.map Row.check = (tableRows sv assets).map Row.check) (i : Input) :
    Displayed (s.on lc i).1 ↔ Spares lc sv assets s i := by
  have hcore := on_core lc s i
  have hon : Consistent (s.on lc i).1 := h.on i
  by_cases hnil : assets = []
  · subst hnil
    have hall : ∀ row ∈ (s.on lc i).1.rows, row.check = none := by
      have hnone : ∀ c ∈ s.rows.map Row.check, c = none := by
        rw [hcheck]
        exact fun c hc => List.mem_singleton.mp hc
      exact (forall_core (fun _ => Iff.rfl) hcore).mpr (List.forall_mem_map.mp hnone)
    refine iff_of_true (fun row hrow hch => ?_) fun a ha => ?_
    · rw [(hon.rows row hrow).2 (hall row hrow)] at hch
      cases hch
    · exact absurd ((highlighted_sublist s []).subset ha) List.not_mem_nil
  · rw [tableRows, if_neg hnil, List.map_map] at hcells
    refine Iff.trans (forall₂_congr fun row hrow => ?_) (highlighted_stay (on_stays hcells i) hcore)
    rw [(hon.rows row hrow).1]

theorem played_snoc (s : Screen) (es : List UserEvent) (e : UserEvent) :
    s.played lc (es ++ [e]) = ((s.played lc es).handle lc e).1 := by
  simp [Screen.played]

/-- **One event** keeps the checked rows displayed, if it spares them as an input. -/
theorem Displayed.handle (hk : Displayed s) {e : UserEvent}
    (he : ∀ i, e = .input i → Displayed (s.on lc i).1) : Displayed (s.handle lc e).1 := by
  rcases handle_cases lc s e with ⟨i, rfl⟩ | h | ⟨i, row, -, hvis, -, h⟩
  · exact he i rfl
  · rw [h]
    exact hk
  · rw [h]
    intro r hr hch
    rcases List.mem_or_eq_of_mem_set hr with hr | rfl
    · exact hk r hr hch
    · exact hvis

end

/-- **The buttons act on rows of the screen** in every state of a run iff every input of the run
spares the rows that are highlighted when it is made. -/
theorem acts_on_screen_iff (lc : LowerCase) (sv : Server) (d : Db) (es : List UserEvent) :
    (∀ past future, es = past ++ future →
        OnScreen ((Screen.load sv d.assets.rows).played lc past)) ↔
      ∀ past i future, es = past ++ .input i :: future →
        Spares lc sv d.assets.rows ((Screen.load sv d.assets.rows).played lc past) i := by
  have hc : ∀ past, Consistent ((Screen.load sv d.assets.rows).played lc past) :=
    (Consistent.load sv d.assets.rows).played
  have hscreen : ∀ past, OnScreen ((Screen.load sv d.assets.rows).played lc past) ↔
      Displayed ((Screen.load sv d.assets.rows).played lc past) := fun past => by
    refine onScreen_iff (hc past) ?_
    rw [played_fixed fun _ _ _ _ => rfl]
    exact nodup_checks sv d
  have hinput : ∀ past i, Displayed (((Screen.load sv d.assets.rows).played lc past).on lc i).1 ↔
      Spares lc sv d.assets.rows ((Screen.load sv d.assets.rows).played lc past) i := fun past i =>
    displayed_on_iff (hc past) (played_fixed (fun _ _ _ _ => rfl) _ past)
      (played_fixed (fun _ _ _ _ => rfl) _ past) i
  constructor
  · intro h past i future he
    have hnext := (hscreen _).mp (h (past ++ [.input i]) future (by simp [he]))
    rw [played_snoc] at hnext
    exact (hinput past i).mp hnext
  · intro h past
    induction past using List.reverseRecOn with
    | nil =>
      intro _ _
      refine (hscreen []).mpr fun row hrow hch => ?_
      rw [(load_unselected hrow).2] at hch
      cases hch
    | append_singleton past e ih =>
      intro future he
      rw [List.append_assoc] at he
      have hk := (hscreen past).mp (ih _ he)
      refine (hscreen _).mpr ?_
      rw [played_snoc]
      refine hk.handle fun i hi => (hinput past i).mpr (h past i future ?_)
      rw [he, hi]
      rfl

/-- A search hides the selected asset 33, and the buttons send it all the same. -/
theorem hidden_row_is_sent :
    ¬ OnScreen ((Screen.load .canonical sample.assets.rows).played .ascii
      [.row 0, .input (.search (str "34"))]) := by
  intro h
  obtain ⟨row, hrow, hcheck, hvis⟩ := h [str "33"] (.inl (by decide)) (str "33") List.mem_cons_self
  revert row
  decide

end Inventory
