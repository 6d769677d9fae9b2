import Inventory.Model.Export

/-!
# The master list on the screen

The table of masterlist.php as its script holds it, and the script's handlers.
`filterTable` reads the cell of every select in every row and fails at a cell
that is not there (`Row.filtered`); the search handler looks through the cells a
row has. Both write `visible`, each from its own inputs. Texts are UTF-8, and
`LowerCase` is the letter case of the browser.
-/

namespace Inventory

open Lib Php Html

/-- `String.prototype.toLowerCase`; only the empty text has an empty lower case. -/
structure LowerCase where
  toLowerCase : Bytes → Bytes
  eq_nil : ∀ s, toLowerCase s = [] ↔ s = []

/-- The letter case of ASCII. -/
def LowerCase.ascii : LowerCase where
  toLowerCase s := s.map Bytes.lower
  eq_nil _ := List.map_eq_nil_iff

/-- Line ends as a browser reads them. -/
def lineFeeds : Bytes → Bytes
  | 13 :: 10 :: s => 10 :: lineFeeds s
  | 13 :: s => 10 :: lineFeeds s
  | b :: s => b :: lineFeeds s
  | [] => []

/-- The text content of a cell that holds a text; NUL is not read. -/
def textContent (s : Bytes) : Bytes := (lineFeeds s).filter (· != 0)

def includes (s t : Bytes) : Bool := decide (t <:+: s)

/-! ## The table -/

/-- The filter selects, from left to right. -/
inductive FilterSelect where
  | type_os_type
  | processor
  | type_of_hard_disk
  | size_of_disk
  | memory
  | office_version
  | type_of_user
  | ups
  | recovery_type
  | unit_type
  deriving DecidableEq, Repr

namespace FilterSelect

def all : List FilterSelect :=
  [type_os_type, processor, type_of_hard_disk, size_of_disk, memory, office_version, type_of_user,
    ups, recovery_type, unit_type]

theorem mem_all (f : FilterSelect) : f ∈ all := by cases f <;> decide

/-- The column a select stands over. -/
def column : FilterSelect → Col
  | type_os_type => .type_os_type
  | processor => .processor
  | type_of_hard_disk => .type_of_hard_disk
  | size_of_disk => .size_of_disk
  | memory => .memory
  | office_version => .office_version
  | type_of_user => .type_of_user
  | ups => .ups
  | recovery_type => .recovery_type
  | unit_type => .unit_type

/-- The attribute `data-column`. -/
def dataColumn : FilterSelect → Nat
  | type_os_type => 6
  | processor => 7
  | type_of_hard_disk => 8
  | size_of_disk => 9
  | memory => 10
  | office_version => 11
  | type_of_user => 14
  | ups => 19
  | recovery_type => 20
  | unit_type => 21

end FilterSelect

/-- A row of the table body: the text of its cells, the id its checkbox stands for, whether that
is checked, and whether the row has the class `selected-row` and is displayed. -/
structure Row where
  cells : List Bytes
  check : Option Bytes
  checked : Bool := false
  selected : Bool := false
  visible : Bool := true
  deriving DecidableEq, Repr

/-- The text of an asset's cell. -/
def Asset.cellText (sv : Server) (a : Asset) (c : Column) : Bytes := textContent (a.readBack sv c)

/-- The row of an asset: the cell of its checkbox and one for each column. -/
def assetRow (sv : Server) (a : Asset) : Row where
  cells := [] :: Column.all.map (a.cellText sv)
  check := some (Bytes.intText a.id)

/-- The row of a table without assets. -/
def noRecords : Row where
  cells := [str "No records found."]
  check := none

def tableRows (sv : Server) (assets : List Asset) : List Row :=
  if assets = [] then [noRecords] else assets.map (assetRow sv)

/-- The state of the page. -/
structure Screen where
  rows : List Row
  value : FilterSelect → Bytes := fun _ => []
  search : Bytes := []
  editDisabled : Bool := true
  deleteDisabled : Bool := true

/-- The page as it is loaded. Its rows are those that the table body writes, which holds as long as
the option texts, printed as they are, hold no markup. -/
def Screen.load (sv : Server) (assets : List Asset) : Screen where
  rows := tableRows sv assets

/-! ## The handlers -/

section
variable (lc : LowerCase)

/-- What `filterTable` gives for a row: `none` when a cell is missing. -/
def Row.filtered (value : FilterSelect → Bytes) (row : Row) : Option Bool :=
  FilterSelect.all.foldlM (fun visible select =>
    let filterValue := lc.toLowerCase (value select)
    (row.cells[select.dataColumn]?).map fun cell =>
      if filterValue ≠ [] ∧ lc.toLowerCase cell ≠ filterValue then false else visible) true

/-- The rows after `filterTable`, and whether it failed: the rows from the failing one on are
as they were. -/
def filterRows (value : FilterSelect → Bytes) : List Row → List Row × Bool
  | [] => ([], false)
  | row :: rows =>
    match row.filtered lc value with
    | none => (row :: rows, true)
    | some visible =>
      let rest := filterRows value rows
      ({ row with visible } :: rest.1, rest.2)

def Screen.filterTable (s : Screen) : Screen × Bool :=
  let filtered := filterRows lc s.value s.rows
  ({ s with rows := filtered.1 }, filtered.2)

/-- The handler of the search box. -/
def Screen.searched (s : Screen) : Screen :=
  let searchTerm := lc.toLowerCase s.search
  { s with rows := s.rows.map fun row =>
    { row with visible := row.cells.any fun td => includes (lc.toLowerCase td) searchTerm } }

/-- A change of a filter select, or a keystroke that leaves a text in the search box. -/
inductive Input where
  | filter (select : FilterSelect) (value : Bytes)
  | search (text : Bytes)

/-- The page after an input, and whether its handler failed. -/
def Screen.on (s : Screen) : Input → Screen × Bool
  | .filter select value => { s with value := Function.update s.value select value }.filterTable lc
  | .search text => ({ s with search := text }.searched lc, false)

/-- The page after some inputs. -/
def Screen.after (s : Screen) (inputs : List Input) : Screen :=
  inputs.foldl (fun s i => (s.on lc i).1) s

/-- An input and the screen it is made on have the property, at each input of a run. -/
def Screen.Along (P : Screen → Input → Prop) (s : Screen) (inputs : List Input) : Prop :=
  ∀ past i future, inputs = past ++ i :: future → P (s.after lc past) i

end

/-! ## The selection -/

/-- The list that the buttons and `toggleButton` collect. -/
def Screen.selectedIds (s : Screen) : List Bytes :=
  (s.rows.filter Row.checked).filterMap Row.check

def Screen.toggleButton (s : Screen) : Screen :=
  let selected := s.selectedIds
  { s with editDisabled := selected.length == 0, deleteDisabled := selected.length == 0 }

/-- What a click on a row hits: its checkbox, or something else. -/
inductive Target where
  | checkbox
  | other
  deriving DecidableEq, Repr

/-- The click handler of a row, and whether it failed, as it does in a row without a checkbox. -/
def Screen.rowClicked (s : Screen) (i : Nat) (target : Target) : Screen × Bool :=
  match s.rows[i]? with
  | none => (s, false)
  | some row =>
    if target = .checkbox then (s, false)
    else if row.check = none then (s, true)
    else
      let checked := !row.checked
      let rows := s.rows.set i { row with checked, selected := checked }
      ({ s with rows }.toggleButton, false)

/-- The change handler of the checkbox in a row. -/
def Screen.checkChanged (s : Screen) (i : Nat) : Screen :=
  match s.rows[i]? with
  | none => s
  | some row => { s with rows := s.rows.set i { row with selected := row.checked } }.toggleButton

/-- A click on a row, outside of its checkbox. -/
def Screen.clickRow (s : Screen) (i : Nat) : Screen × Bool := s.rowClicked i .other

/-- A click on a checkbox: the browser changes it, then the handler of the row sees the click, and
last that of the change. -/
def Screen.clickCheckbox (s : Screen) (i : Nat) : Screen × Bool :=
  match s.rows[i]? with
  | none => (s, false)
  | some row =>
    if row.check = none then (s, false)
    else
      let changed := { s with rows := s.rows.set i { row with checked := !row.checked } }
      let clicked := changed.rowClicked i .checkbox
      (clicked.1.checkChanged i, clicked.2)

/-- The ids that Batch Edit Selected submits, if it does. -/
def Screen.pressEdit (s : Screen) : Option (List Bytes) :=
  if s.editDisabled then none
  else
    let selected := s.selectedIds
    if selected.length > 0 then some selected else none

/-- The ids that Delete Selected sends, if it does; `ok` is the answer to its question. -/
def Screen.pressDelete (s : Screen) (ok : Bool) : Option (List Bytes) :=
  if s.deleteDisabled then none
  else
    let selected := s.selectedIds
    if selected.length = 0 then none
    else if ok then some selected
    else none

/-- Is the row displayed? -/
def Screen.shows (s : Screen) (i : Nat) : Bool := ((s.rows[i]?).map Row.visible).getD false

/-- What is done on the page: inputs, and clicks on a row or on its checkbox. -/
inductive UserEvent where
  | input (i : Input)
  | row (i : Nat)
  | checkbox (i : Nat)

/-- The page after an event, and whether a handler failed; a row that is not displayed cannot be
clicked. -/
def Screen.handle (lc : LowerCase) (s : Screen) : UserEvent → Screen × Bool
  | .input i => s.on lc i
  | .row i => if s.shows i then s.clickRow i else (s, false)
  | .checkbox i => if s.shows i then s.clickCheckbox i else (s, false)

/-- The page after some events. -/
def Screen.played (lc : LowerCase) (s : Screen) (es : List UserEvent) : Screen :=
  es.foldl (fun s e => (s.handle lc e).1) s

/-! ## What the handlers do -/

section
variable {lc : LowerCase} {sv : Server}

/-- The select stands over its column. -/
theorem assetRow_cell (a : Asset) (f : FilterSelect) :
    (assetRow sv a).cells[f.dataColumn]? = some (a.cellText sv (.col f.column)) := by
  cases f <;> rfl

/-- The asset has the value of every select that has one, but for letter case. -/
def Asset.Passes (lc : LowerCase) (sv : Server) (value : FilterSelect → Bytes) (a : Asset) : Prop :=
  ∀ f, value f ≠ [] →
    lc.toLowerCase (a.cellText sv (.col f.column)) = lc.toLowerCase (value f)

/-- Some cell of the asset contains the text, but for letter case. -/
def Asset.Found (lc : LowerCase) (sv : Server) (text : Bytes) (a : Asset) : Prop :=
  ∃ c, lc.toLowerCase text <:+: lc.toLowerCase (a.cellText sv c)

theorem foldlM_visible (lc : LowerCase) {cell : FilterSelect → Bytes}
    (value : FilterSelect → Bytes) {row : Row}
    {fs : List FilterSelect} (h : ∀ f ∈ fs, row.cells[f.dataColumn]? = some (cell f)) (v : Bool) :
    ∃ w, fs.foldlM (fun visible select =>
        let filterValue := lc.toLowerCase (value select)
        (row.cells[select.dataColumn]?).map fun cell =>
          if filterValue ≠ [] ∧ lc.toLowerCase cell ≠ filterValue then false else visible) v =
        some w ∧
      (w = true ↔ v = true ∧
        ∀ f ∈ fs, value f ≠ [] → lc.toLowerCase (cell f) = lc.toLowerCase (value f)) := by
  induction fs generalizing v with
  | nil => exact ⟨v, rfl, by simp⟩
  | cons f fs ih =>
    have hf := h f List.mem_cons_self
    have hrest : ∀ g ∈ fs, row.cells[g.dataColumn]? = some (cell g) := fun g hg =>
      h g (List.mem_cons_of_mem _ hg)
    rw [List.foldlM_cons]
    simp only [hf, Option.map_some, Option.bind_eq_bind, Option.bind_some]
    obtain ⟨w, hw, hiff⟩ := ih hrest (if lc.toLowerCase (value f) ≠ [] ∧
      lc.toLowerCase (cell f) ≠ lc.toLowerCase (value f) then false else v)
    refine ⟨w, hw, hiff.trans ?_⟩
    have hnil : lc.toLowerCase (value f) ≠ [] ↔ value f ≠ [] := not_congr (lc.eq_nil _)
    rw [List.forall_mem_cons, ← and_assoc]
    apply and_congr_left
    intro _
    split
    · next hc => exact iff_of_false Bool.false_ne_true fun hv => hc.2 (hv.2 (hnil.mp hc.1))
    · next hc =>
      exact ⟨fun hv => ⟨hv, fun hne => by_contra fun hd => hc ⟨hnil.mpr hne, hd⟩⟩, And.left⟩

/-- **`filterTable` on the row of an asset** reads only cells that are there. -/
theorem assetRow_filtered (lc : LowerCase) (value : FilterSelect → Bytes) {row : Row} {a : Asset}
    (h : row.cells = (assetRow sv a).cells) :
    ∃ v, row.filtered lc value = some v ∧ (v = true ↔ a.Passes lc sv value) := by
  have hcell : ∀ f ∈ FilterSelect.all,
      row.cells[f.dataColumn]? = some (a.cellText sv (.col f.column)) := fun f _ => by
    rw [h, assetRow_cell]
  obtain ⟨v, hv, hiff⟩ := foldlM_visible lc value hcell true
  refine ⟨v, hv, hiff.trans ?_⟩
  exact ⟨fun hp f => hp.2 f f.mem_all, fun hp => ⟨rfl, fun f _ => hp f⟩⟩

/-- **The search on the row of an asset**: the cell of the checkbox adds nothing. -/
theorem assetRow_searched (text : Bytes) (a : Asset) :
    ((assetRow sv a).cells.any fun td => includes (lc.toLowerCase td) (lc.toLowerCase text)) = true ↔
      a.Found lc sv text := by
  simp only [assetRow, includes, List.any_cons, List.any_map, Bool.or_eq_true, List.any_eq_true,
    Function.comp_apply, decide_eq_true_eq]
  constructor
  · rintro (h | ⟨c, -, h⟩)
    · have he : lc.toLowerCase text = [] := by
        rw [(lc.eq_nil []).mpr rfl] at h
        exact List.eq_nil_of_infix_nil h
      exact ⟨.id, he ▸ List.nil_infix⟩
    · exact ⟨c, h⟩
  · rintro ⟨c, h⟩
    exact .inr ⟨c, c.mem_all, h⟩

/-- `filterTable` writes `visible` only. -/
theorem filterRows_cells (value : FilterSelect → Bytes) (rows : List Row) :
    (filterRows lc value rows).1.map Row.cells = rows.map Row.cells := by
  induction rows with
  | nil => rfl
  | cons row rows ih =>
    unfold filterRows
    cases row.filtered lc value with
    | none => rfl
    | some v => simp [ih]

/-- No input changes the cells. -/
theorem on_cells (s : Screen) (i : Input) :
    (s.on lc i).1.rows.map Row.cells = s.rows.map Row.cells := by
  cases i with
  | filter f v => exact filterRows_cells _ _
  | search t => simp [Screen.on, Screen.searched]

theorem after_cells (s : Screen) (inputs : List Input) :
    (s.after lc inputs).rows.map Row.cells = s.rows.map Row.cells := by
  induction inputs generalizing s with
  | nil => rfl
  | cons i inputs ih => exact (ih _).trans (on_cells s i)

/-- On the rows of assets `filterTable` does not fail, and leaves those on the screen that pass. -/
theorem filterRows_assets (lc : LowerCase) (value : FilterSelect → Bytes) {rows : List Row}
    {assets : List Asset}
    (h : rows.map Row.cells = assets.map fun a => (assetRow sv a).cells) :
    (filterRows lc value rows).2 = false ∧
      List.Forall₂ (fun row a => row.visible = true ↔ a.Passes lc sv value)
        (filterRows lc value rows).1 assets := by
  induction assets generalizing rows with
  | nil =>
    obtain rfl := List.map_eq_nil_iff.mp h
    exact ⟨rfl, .nil⟩
  | cons a assets ih =>
    obtain ⟨row, rows, rfl, hrow, hrows⟩ := List.map_eq_cons_iff.mp h
    obtain ⟨v, hv, hpass⟩ := assetRow_filtered lc value hrow
    obtain ⟨hok, hall⟩ := ih hrows
    simp only [filterRows, hv]
    exact ⟨hok, .cons hpass hall⟩

/-- The search leaves those assets on the screen that hold the text. -/
theorem searched_assets (lc : LowerCase) {s : Screen} {assets : List Asset}
    (h : s.rows.map Row.cells = assets.map fun a => (assetRow sv a).cells) :
    List.Forall₂ (fun row a => row.visible = true ↔ a.Found lc sv s.search)
      (s.searched lc).rows assets := by
  obtain ⟨rows, _, _, _⟩ := s
  induction assets generalizing rows with
  | nil =>
    obtain rfl := List.map_eq_nil_iff.mp h
    exact .nil
  | cons a assets ih =>
    obtain ⟨row, rows, rfl, hrow, hrows⟩ := List.map_eq_cons_iff.mp h
    refine .cons ?_ (ih rows hrows)
    show (row.cells.any fun td => _) = true ↔ _
    rw [hrow]
    exact assetRow_searched _ a

/-- Rows that are displayed as their assets have the property. -/
theorem shows_iff {s : Screen} {assets : List Asset} {P : Asset → Prop}
    (h : List.Forall₂ (fun row a => row.visible = true ↔ P a) s.rows assets) {i : Nat} {a : Asset}
    (ha : assets[i]? = some a) : s.shows i = true ↔ P a := by
  obtain ⟨hi, rfl⟩ := List.getElem?_eq_some_iff.mp ha
  have hlen : i < s.rows.length := by
    have := h.length_eq
    omega
  rw [Screen.shows, List.getElem?_eq_getElem hlen]
  exact h.get hlen hi

/-! ## What the clicks do -/

/-- The page with the selection of a row changed. -/
def Screen.flip (s : Screen) (i : Nat) (row : Row) : Screen :=
  let checked := !row.checked
  { s with rows := s.rows.set i { row with checked, selected := checked } }.toggleButton

/-- Setting an element to one with the same image leaves the images as they are. -/
theorem map_set_self {α β : Type} {f : α → β} {l : List α} {i : Nat} {x y : α}
    (h : l[i]? = some x) (hf : f y = f x) : (l.set i y).map f = l.map f := by
  obtain ⟨hi, rfl⟩ := List.getElem?_eq_some_iff.mp h
  have hi' : i < (l.map f).length := by rwa [List.length_map]
  have hself : f l[i] = (l.map f)[i] := by rw [List.getElem_map]
  rw [List.map_set, hf, hself, List.set_getElem_self]

theorem clickRow_eq {s : Screen} {i : Nat} {row : Row} (h : s.rows[i]? = some row)
    (hc : row.check ≠ none) : s.clickRow i = (s.flip i row, false) := by
  simp only [Screen.clickRow, Screen.rowClicked, h, if_neg hc]
  rfl

theorem clickRow_none {s : Screen} {i : Nat} {row : Row} (h : s.rows[i]? = some row)
    (hc : row.check = none) : s.clickRow i = (s, true) := by
  simp only [Screen.clickRow, Screen.rowClicked, h, if_pos hc]
  rfl

/-- **A click on a checkbox** is seen by two handlers, and does what a click beside it does. -/
theorem clickCheckbox_eq {s : Screen} {i : Nat} {row : Row} (h : s.rows[i]? = some row)
    (hc : row.check ≠ none) : s.clickCheckbox i = (s.flip i row, false) := by
  obtain ⟨hi, -⟩ := List.getElem?_eq_some_iff.mp h
  have hset : ∀ r : Row, (s.rows.set i r)[i]? = some r := fun r => List.getElem?_set_self hi
  simp only [Screen.clickCheckbox, h, if_neg hc, Screen.rowClicked, hset, ↓reduceIte,
    Screen.checkChanged, List.set_set]
  rfl

theorem clickCheckbox_none {s : Screen} {i : Nat} {row : Row} (h : s.rows[i]? = some row)
    (hc : row.check = none) : s.clickCheckbox i = (s, false) := by
  simp only [Screen.clickCheckbox, h, if_pos hc]

/-- **What an event does**: an input its own, a click nothing, or a change of the selection of a row
that is displayed. -/
theorem handle_cases (lc : LowerCase) (s : Screen) (e : UserEvent) :
    (∃ i, e = .input i) ∨ (s.handle lc e).1 = s ∨
      ∃ i row, s.rows[i]? = some row ∧ row.visible = true ∧ row.check ≠ none ∧
        (s.handle lc e).1 = s.flip i row := by
  have hclick : ∀ (i : Nat) (click : Screen × Bool),
      (∀ row, s.rows[i]? = some row → row.check = none → click.1 = s) →
      (∀ row, s.rows[i]? = some row → row.check ≠ none → click = (s.flip i row, false)) →
      (if s.shows i then click else (s, false)).1 = s ∨
        ∃ j row, s.rows[j]? = some row ∧ row.visible = true ∧ row.check ≠ none ∧
          (if s.shows i then click else (s, false)).1 = s.flip j row := by
    intro i click hnone hsome
    by_cases hv : s.shows i = true
    · rw [if_pos hv]
      unfold Screen.shows at hv
      cases h : s.rows[i]? with
      | none =>
        rw [h] at hv
        cases hv
      | some row =>
        rw [h] at hv
        by_cases hc : row.check = none
        · exact .inl (hnone row h hc)
        · exact .inr ⟨i, row, h, hv, hc, congrArg Prod.fst (hsome row h hc)⟩
    · rw [if_neg hv]
      exact .inl rfl
  cases e with
  | input i => exact .inl ⟨i, rfl⟩
  | row i =>
    refine .inr (hclick i (s.clickRow i) ?_ ?_)
    · exact fun row h hc => congrArg Prod.fst (clickRow_none h hc)
    · exact fun row h hc => clickRow_eq h hc
  | checkbox i =>
    refine .inr (hclick i (s.clickCheckbox i) ?_ ?_)
    · exact fun row h hc => congrArg Prod.fst (clickCheckbox_none h hc)
    · exact fun row h hc => clickCheckbox_eq h hc

end

end Inventory
