import Inventory.Html.Fields
import Inventory.Model.EditForm
import Inventory.Properties.FilterValues

/-!
# The form of new_entry.php

What new_entry.php prints between `<form>` and `</form>`, the same for every
request, and the fields a browser reads from it (`fields_newEntryForm`). Its
selects start with an empty option and offer what those of the edit form offer
(`offers_alike`).
-/

namespace Inventory

open Lib Php Html

/-- The options of a select after the empty one. -/
def Col.newOptions : Col → List Bytes
  | type_os_type => [str "WINDOWS XP", str "WINDOWS 7", str "WINDOWS 10", str "WINDOWS 11"]
  | processor => [str "Intel Core i3", str "Intel Core i5", str "Intel Core i7"]
  | type_of_hard_disk => [str "HDD", str "SSD"]
  | size_of_disk => [str "120 GB", str "250 GB", str "500 GB", str "1 TB"]
  | memory => [str "4 GB", str "8 GB", str "16 GB", str "24 GB"]
  | office_version => [str "MICROSOFT OFFICE 2010", str "MICROSOFT OFFICE 2013",
      str "OFFICE 365", str "N/A"]
  | type_of_user => [str "LAN USER", str "EMAIL USER", str "EMAIL AND INTERNET USER",
      str "ADMINISTRATOR"]
  | ups => [str "YES", str "NO"]
  | recovery_type => [str "DVD", str "RECOVERY FLASHDRIVE"]
  | unit_type => [str "DESKTOP", str "LAPTOP", str "SERVERS"]
  | _ => []

/-- The type of an input; the email password is shown as it is typed. -/
def Col.newType : Col → Bytes
  | date_purchased => str "date"
  | _ => str "text"

/-- The end of an input's tag. -/
def Col.newRest : Col → Bytes
  | email_address => str " placeholder=\"Leave blank for n/a\""
  | _ => str " required"

/-- An input with its label. -/
def newInput (label type name rest : Bytes) : Bytes :=
  str "      <div class=\"col-md-6\"><label class=\"form-label\">" ++ label ++
    str "</label><input type=\"" ++ type ++ str "\" name=\"" ++ name ++
    str "\" class=\"form-control\"" ++ rest ++ str "></div>\n"

/-- A select with its label, up to its options. -/
def newSelectOpen (label name : Bytes) : Bytes :=
  str "      <div class=\"col-md-6\">\n        <label class=\"form-label\">" ++ label ++
    str "</label>\n        <select name=\"" ++ name ++
    str "\" class=\"form-select\" required>\n          <option value=\"\">Select</option>\n          "

def newSelectClose : Bytes := str "\n        </select>\n      </div>\n"

/-- The columns that a blank line stands before. -/
def Col.spaced : List Col :=
  [brand_model, type_os_type, processor, type_of_hard_disk, size_of_disk, memory, office_version,
    ip_address, type_of_user, user, email_address, ups, recovery_type, unit_type]

/-- The field of a column. -/
def newField (c : Col) : Bytes :=
  (if c ∈ Col.spaced then str "\n" else []) ++
    match c.kind with
    | .select _ => newSelectOpen (heading (.col c)) c.name ++
        (c.newOptions.flatMap textOption ++ newSelectClose)
    | _ => newInput (heading (.col c)) c.newType c.name c.newRest

def newFormHead : Bytes :=
  str "  <form method=\"POST\" action=\"\">\n    <div class=\"row g-3\">\n"

def newFormTail : Bytes :=
  str "    " ++ (str "</div>\n\n    <div class=\"mt-4\">" ++
    str "\n      <button type=\"submit\" class=\"btn btn-primary\">Submit</button>" ++
    str "\n    </div>\n  </form>\n")

def newEntryForm : Bytes := newFormHead ++ (Col.all.flatMap newField ++ newFormTail)

/-! ## The fields -/

/-- How the field of a column is filled in. -/
def Col.fill (c : Col) : Fill :=
  match c.kind with
  | .select _ => .menu ([] :: c.newOptions)
  | _ => .input c.newType

/-- The field of a column as a browser reads it. -/
def Col.field (c : Col) : Field := ⟨c.name, c.fill, c != .email_address⟩

/-- The selects of both forms offer the same values, in an order of their own. -/
theorem offers_alike {c : Col} {options : List Bytes} (h : c.kind = .select options) :
    c.newOptions.Perm options := by
  cases c <;> cases h <;> decide

theorem literal_newOptions (c : Col) : ∀ o ∈ c.newOptions, Literal o ∧ collapse o = o := by
  cases c <;> decide

/-! ### Reading the pieces -/

def divToken : Token := .tag ⟨str "div", [(str "class", str "col-md-6")]⟩

def labelToken : Token := .tag ⟨str "label", [(str "class", str "form-label")]⟩

/-- The attributes at the end of an input's tag. -/
def Col.newAttrs : Col → List Attr
  | email_address => [(str "placeholder", str "Leave blank for n/a")]
  | _ => [(str "required", [])]

theorem run_newInput (c : Col) :
    run (.data []) (newInput (heading (.col c)) c.newType c.name c.newRest) =
      ([.text (str "      "), divToken, labelToken, .text (heading (.col c)),
        .tag ⟨str "/label", []⟩, .tag ⟨str "input", [(str "type", c.newType),
          (str "name", c.name), (str "class", str "form-control")] ++ c.newAttrs⟩,
        .tag ⟨str "/div", []⟩], .data (str "\n")) := by
  cases c <;> decide

theorem run_newSelectOpen (c : Col) :
    run (.data []) (newSelectOpen (heading (.col c)) c.name) =
      ([.text (str "      "), divToken, .text (str "\n        "), labelToken,
        .text (heading (.col c)), .tag ⟨str "/label", []⟩, .text (str "\n        "),
        .tag ⟨str "select", [(str "name", c.name), (str "class", str "form-select"),
          (str "required", [])]⟩, .text (str "\n          "),
        .tag ⟨str "option", [(str "value", [])]⟩, .text (str "Select"), .tag ⟨str "/option", []⟩],
        .data (str "\n          ")) := by
  cases c <;> decide

section
variable (fs : List Field)

theorem readOn_newInput {c : Col} (h : ∀ options, c.kind ≠ .select options) :
    readOn (FieldReader.feed collapse) (.data [], ⟨fs, none, none⟩)
      (newInput (heading (.col c)) c.newType c.name c.newRest) =
      (.data (str "\n"), ⟨fs ++ [c.field], none, none⟩) := by
  rw [readOn, run_newInput]
  cases c <;> first | rfl | exact absurd rfl (h _)

theorem readOn_newSelect {c : Col} {options : List Bytes} (h : c.kind = .select options) :
    ∃ u, readOn (FieldReader.feed collapse) (.data [], ⟨fs, none, none⟩)
      (newSelectOpen (heading (.col c)) c.name ++
        (c.newOptions.flatMap textOption ++ newSelectClose)) =
      (.data u, ⟨fs ++ [c.field], none, none⟩) := by
  have hopen : readOn (FieldReader.feed collapse) (.data [], ⟨fs, none, none⟩)
      (newSelectOpen (heading (.col c)) c.name) =
      (.data (str "\n          "), ⟨fs, some ⟨c.name, .menu [[]], true⟩, none⟩) := by
    rw [readOn, run_newSelectOpen]
    have hname : unescape c.name = c.name := (literal_name c).unescape
    show (_, FieldReader.mk fs (some ⟨unescape c.name, .menu [[]], true⟩) none) = _
    rw [hname]
  obtain ⟨u, hoptions⟩ := readOn_textOptions (literal_newOptions c) (str "\n          ") fs
    ⟨c.name, .menu [[]], true⟩
  have hclose : ∀ m : Field, readOn (FieldReader.feed collapse) (.data u, ⟨fs, some m, none⟩)
      newSelectClose = (.data (str "\n"), ⟨fs ++ [m], none, none⟩) := fun m => by
    have hsplit : newSelectClose = str "\n        " ++ str "</select>\n      </div>\n" := by decide
    rw [hsplit, readOn_lead _ _ _ (List.all_iff_forall_prop.mp (by decide)) rfl]
    rfl
  refine ⟨str "\n", ?_⟩
  rw [readOn_append, hopen, readOn_append, hoptions, offer_all, hclose, Col.field, Col.fill]
  simp only [h]
  have hne : (c != .email_address) = true := by
    cases c <;> first | rfl | cases h
  rw [hne]
  rfl

/-- **A field is read**, whatever text stands before it. -/
theorem readOn_newField (c : Col) (t : Bytes) :
    ∃ u, readOn (FieldReader.feed collapse) (.data t, ⟨fs, none, none⟩) (newField c) =
      (.data u, ⟨fs ++ [c.field], none, none⟩) := by
  have hspace : ∀ b ∈ str "      ", b ≠ 60 := List.all_iff_forall_prop.mp (by decide)
  have hblank : ∀ b ∈ (if c ∈ Col.spaced then str "\n" else []), b ≠ 60 := by
    split
    · exact List.all_iff_forall_prop.mp (by decide)
    · exact fun _ hb => absurd hb List.not_mem_nil
  unfold newField
  rw [readOn_append, readOn_text _ hblank]
  cases h : c.kind with
  | select options =>
    obtain ⟨y, hy, hhead⟩ : ∃ y, newSelectOpen (heading (.col c)) c.name ++
        (c.newOptions.flatMap textOption ++ newSelectClose) = str "      " ++ y ∧
        y.head? = some 60 := ⟨_, rfl, rfl⟩
    obtain ⟨u, hu⟩ := readOn_newSelect fs h
    refine ⟨u, ?_⟩
    dsimp only
    rw [hy] at hu ⊢
    rw [readOn_lead _ _ _ hspace hhead, hu]
  | _ =>
    obtain ⟨y, hy, hhead⟩ : ∃ y, newInput (heading (.col c)) c.newType c.name c.newRest =
        str "      " ++ y ∧ y.head? = some 60 := ⟨_, rfl, rfl⟩
    have hin := readOn_newInput fs (c := c) fun options => by
      rw [h]
      exact nofun
    refine ⟨str "\n", ?_⟩
    dsimp only
    rw [hy] at hin ⊢
    rw [readOn_lead _ _ _ hspace hhead, hin]

theorem readOn_newFields (cs : List Col) (t : Bytes) :
    ∃ u, readOn (FieldReader.feed collapse) (.data t, ⟨fs, none, none⟩) (cs.flatMap newField) =
      (.data u, ⟨fs ++ cs.map Col.field, none, none⟩) := by
  induction cs generalizing fs t with
  | nil => exact ⟨t, by rw [List.map_nil, List.append_nil]; rfl⟩
  | cons c cs ih =>
    obtain ⟨u, hu⟩ := readOn_newField fs c t
    obtain ⟨v, hv⟩ := ih (fs ++ [c.field]) u
    refine ⟨v, ?_⟩
    rw [List.flatMap_cons, readOn_append, hu, hv, List.map_cons, List.append_assoc]
    rfl

end

theorem readOn_newFormTail (t : Bytes) (fs : List Field) :
    (readOn (FieldReader.feed collapse) (.data t, ⟨fs, none, none⟩) newFormTail).2.fields = fs := by
  have hspace : ∀ b ∈ str "    ", b ≠ 60 := List.all_iff_forall_prop.mp (by decide)
  have hdiv : readOn (FieldReader.feed collapse) (.data [], ⟨fs, none, none⟩)
      (str "</div>\n\n    <div class=\"mt-4\">") = (.data [], ⟨fs, none, none⟩) := rfl
  have hbutton : readOn (FieldReader.feed collapse) (.data [], ⟨fs, none, none⟩)
      (str "\n      <button type=\"submit\" class=\"btn btn-primary\">Submit</button>") =
      (.data [], ⟨fs, none, none⟩) := rfl
  have hend : readOn (FieldReader.feed collapse) (.data [], ⟨fs, none, none⟩)
      (str "\n    </div>\n  </form>\n") = (.data (str "\n"), ⟨fs, none, none⟩) := rfl
  rw [newFormTail, readOn_lead _ _ _ hspace rfl, readOn_append, readOn_text _ hspace,
    readOn_between _ _ _ rfl, readOn_append, readOn_append, hdiv, hbutton, hend]

/-- **The fields of the form**: one for each column. -/
theorem fields_newEntryForm : fields collapse newEntryForm = Col.all.map Col.field := by
  have hhead : readOn (FieldReader.feed collapse) (.data [], {}) newFormHead =
      (.data (str "\n"), {}) := by
    have hrun : run (.data []) newFormHead = ([.text (str "  "), .tag ⟨str "form",
        [(str "method", str "POST"), (str "action", [])]⟩, .text (str "\n    "),
        .tag ⟨str "div", [(str "class", str "row g-3")]⟩], .data (str "\n")) := by decide
    rw [readOn, hrun]
    rfl
  obtain ⟨u, hu⟩ := readOn_newFields [] Col.all (str "\n")
  rw [fields, newEntryForm, readOn_append, hhead, readOn_append, hu, readOn_newFormTail,
    List.nil_append]

/-- The fields of the form as a browser reads them. -/
@[irreducible] def newFields : List Field := fields collapse newEntryForm

theorem newFields_eq : newFields = Col.all.map Col.field := by
  unfold newFields
  exact fields_newEntryForm

end Inventory
