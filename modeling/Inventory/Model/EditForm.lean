import Inventory.Html.Form
import Inventory.Model.Export
import Inventory.Model.Pages

/-!
# The edit form

What edit_asset.php prints for an asset between `<form>` and `</form>`, and the
controls a browser reads from it (`controls_editForm`): a text field loses what
follows its first single quote (`inputControl`), a select whose options do not
hold the value takes its first option.
-/

namespace Inventory

open Lib Php Html

/-- How the form shows a column. -/
inductive Kind where
  | text
  | password
  | date
  | select (options : List Bytes)
  deriving DecidableEq, Repr

def Col.kind : Col → Kind
  | type_os_type => .select [str "WINDOWS XP", str "WINDOWS 7", str "WINDOWS 10", str "WINDOWS 11"]
  | processor => .select [str "Intel Core i7", str "Intel Core i5", str "Intel Core i3"]
  | type_of_hard_disk => .select [str "HDD", str "SSD"]
  | size_of_disk => .select [str "120 GB", str "250 GB", str "500 GB", str "1 TB"]
  | memory => .select [str "4 GB", str "8 GB", str "16 GB", str "24 GB"]
  | office_version => .select [str "MICROSOFT OFFICE 2010", str "MICROSOFT OFFICE 2013",
      str "OFFICE 365", str "N/A"]
  | type_of_user => .select [str "LAN USER", str "EMAIL USER", str "EMAIL AND INTERNET USER",
      str "ADMINISTRATOR"]
  | ups => .select [str "YES", str "NO"]
  | recovery_type => .select [str "DVD", str "RECOVERY FLASHDRIVE"]
  | unit_type => .select [str "DESKTOP", str "LAPTOP", str "SERVERS"]
  | email_password => .password
  | date_purchased => .date
  | _ => .text

/-- A column of a row as PHP sees it. -/
def Asset.get (a : Asset) (c : Col) : Value :=
  match a.fields c with
  | some v => .str v
  | none => .null

def fieldLabel (label : Bytes) : Bytes :=
  str "<label class='form-label'>" ++ label ++ str "</label>"

def selectField (label name : Bytes) (options : List Bytes) (selected : Value) : Bytes :=
  str "<div class='mb-3'>" ++ (fieldLabel label ++
    selectHtml name options (fun opt => looseEq (.str opt) selected) ++ str "</div>")

def requiredText (name : Bytes) : Bytes :=
  if name = str "email_address" then [] else str "required"

def placeholderText (name : Bytes) : Bytes :=
  if name = str "email_address" then str "placeholder='n/a'" else []

/-- The value of an input, and what follows it in the tag. -/
def valueText (name value : Bytes) : Bytes :=
  htmlspecialchars value ++
    39 :: (str " " ++ requiredText name ++ str " " ++ placeholderText name)

/-- The button that shows a password. -/
def eye (name : Bytes) : Bytes :=
  str "<i class='fa fa-eye' style='cursor:pointer' onclick='togglePassword(\"" ++ name ++
    str "\")'></i></span>"

def inputField (label name value type : Bytes) : Bytes :=
  str "<div class='mb-3 position-relative'>" ++ (fieldLabel label ++
    str "<div class='input-group'>\n              " ++ (inputHtml type name (valueText name value) ++
    str ">" ++ (if type = str "password" then str "<span class='input-group-text'>" ++ eye name else []) ++
    str "</div></div>"))

/-- The date field up to its value. -/
def dateOpen : Bytes :=
  str "\n    <div class=\"mb-3\">" ++
    str "\n      <label class=\"form-label\">Date Purchased</label>" ++
    str "\n      <input type=\"date\" name=\"date_purchased\" class=\"form-control\" value=\""

def dateField (value : Bytes) : Bytes :=
  dateOpen ++ (htmlspecialchars value ++ 34 :: str " required>\n    </div>\n\n    ")

/-- The field of a column. -/
def formField (a : Asset) (c : Col) : Bytes :=
  match c.kind with
  | .text => inputField (heading (.col c)) c.name ((a.fields c).getD []) (str "text")
  | .password => inputField (heading (.col c)) c.name ((a.fields c).getD []) (str "password")
  | .date => dateField ((a.fields c).getD [])
  | .select options => selectField (heading (.col c)) c.name options (a.get c)

/-- The form up to its first value. -/
def formOpen : Bytes :=
  str "<form method=\"POST\">\n    <input type=\"hidden\" name=\"id\" value=\""

def formHead (a : Asset) : Bytes := formOpen ++ (Bytes.intText a.id ++ 34 :: str ">\n\n    ")

def formTail : Bytes :=
  str "\n    <button type=\"submit\" name=\"update\" class=\"btn btn-primary w-100\">" ++
    str "✅ Update & Continue</button>\n  </form>"

def editForm (a : Asset) : Bytes := formHead a ++ Col.all.flatMap (formField a) ++ formTail

/-! ## The controls -/

/-- The control of a column. -/
def Asset.control (a : Asset) (c : Col) : Option Control :=
  match c.kind with
  | .text => inputControl (str "text") c.name (valueText c.name ((a.fields c).getD []))
  | .password => inputControl (str "password") c.name (valueText c.name ((a.fields c).getD []))
  | .date => some ⟨c.name, sanitize (str "date") ((a.fields c).getD []), true⟩
  | .select options => some ⟨c.name, ((options.filter fun opt =>
      looseEq (.str opt) (a.get c)).getLast?.or options.head?).getD [], true⟩

theorem literal_name (c : Col) : Literal c.name := by
  cases c <;> decide

theorem literal_options {c : Col} {options : List Bytes} (h : c.kind = .select options) :
    ∀ opt ∈ options, Literal opt := by
  cases c <;> cases h <;> decide

def divTag (cls : Bytes) : Token := .tag ⟨str "div", [(str "class", cls)]⟩

theorem closes_field : ClosesInput (str ">" ++ (str "</div></div>" ++ str "<div class='mb-3'>")) := by
  have he : str ">" ++ (str "</div></div>" ++ str "<div class='mb-3'>") =
      62 :: (str "</div></div><div class=" ++ 39 :: str "mb-3'>") := by decide
  have hdata : run (.data []) (str "</div></div><div class=" ++ 39 :: str "mb-3'>") =
      ([.tag ⟨str "/div", []⟩, .tag ⟨str "/div", []⟩, divTag (str "mb-3")], .data []) := by
    decide
  have hcls : run (.inTag (str "input") [] .before) (str "mb-3'>") =
      ([.tag ⟨str "input", [(str "mb-3'", [])]⟩], .data []) := by decide
  rw [he]
  exact closesInput_of (List.all_iff_forall_prop.mp (by decide)) hdata hcls
    (List.all_iff_forall_prop.mp (by decide)) (fun _ => rfl)
    fun _ => rfl

theorem closes_input :
    ClosesInput (str ">" ++ (str "</div></div>" ++ str "<div class='mb-3 position-relative'>")) := by
  have he : str ">" ++ (str "</div></div>" ++ str "<div class='mb-3 position-relative'>") =
      62 :: (str "</div></div><div class=" ++ 39 :: str "mb-3 position-relative'>") := by
    decide
  have hdata : run (.data []) (str "</div></div><div class=" ++ 39 :: str "mb-3 position-relative'>") =
      ([.tag ⟨str "/div", []⟩, .tag ⟨str "/div", []⟩, divTag (str "mb-3 position-relative")],
        .data []) := by decide
  have hcls : run (.inTag (str "input") [] .before) (str "mb-3 position-relative'>") =
      ([.tag ⟨str "input", [(str "mb-3", []), (str "position-relative'", [])]⟩], .data []) := by
    decide
  rw [he]
  exact closesInput_of (List.all_iff_forall_prop.mp (by decide)) hdata hcls
    (List.all_iff_forall_prop.mp (by decide)) (fun _ => rfl)
    fun _ => rfl

theorem closes_span : ClosesInput (str ">" ++ str "<span class='input-group-text'>") := by
  have he : str ">" ++ str "<span class='input-group-text'>" =
      62 :: (str "<span class=" ++ 39 :: str "input-group-text'>") := by decide
  have hdata : run (.data []) (str "<span class=" ++ 39 :: str "input-group-text'>") =
      ([.tag ⟨str "span", [(str "class", str "input-group-text")]⟩], .data []) := by decide
  have hcls : run (.inTag (str "input") [] .before) (str "input-group-text'>") =
      ([.tag ⟨str "input", [(str "input-group-text'", [])]⟩], .data []) := by decide
  rw [he]
  exact closesInput_of (List.all_iff_forall_prop.mp (by decide)) hdata hcls
    (List.all_iff_forall_prop.mp (by decide)) (fun _ => rfl)
    fun _ => rfl

/-! ### Reading the fields -/

/-- A field that comes next is read from its label on, with the controls `r`. -/
structure Awaits (r : FormReader) (p : State × FormReader) : Prop where
  field : readOn FormReader.feed p (str "<div class='mb-3'>") = (.data [], r)
  input : readOn FormReader.feed p (str "<div class='mb-3 position-relative'>") = (.data [], r)

theorem awaits_data (r : FormReader) : Awaits r (.data [], r) := ⟨rfl, rfl⟩

theorem readOn_label (r : FormReader) (c : Col) :
    readOn FormReader.feed (.data [], r) (fieldLabel (heading (.col c))) = (.data [], r) := by
  have hopen : readOn FormReader.feed (.data [], r) (str "<label class='form-label'>") =
      (.data [], r) := rfl
  have hclose : readOn FormReader.feed (.data [], r) (str "</label>") = (.data [], r) := rfl
  rw [fieldLabel, readOn_append, readOn_append, hopen, readOn_text _ (heading_text _),
    readOn_data _ _ rfl, hclose]

theorem valueText_plain (name value : Bytes) : ∀ b ∈ valueText name value, b ≠ 62 ∧ b ≠ 34 := by
  have hrest : ∀ b ∈ 39 :: (str " " ++ requiredText name ++ str " " ++ placeholderText name),
      b ≠ 62 ∧ b ≠ 34 := by
    unfold requiredText placeholderText
    split <;> exact List.all_iff_forall_prop.mp (by decide)
  intro b hb
  rcases List.mem_append.mp hb with hb | hb
  · rw [htmlspecialchars_eq] at hb
    have h := mem_escape hb
    exact ⟨h.2.2, h.1⟩
  · exact hrest b hb

theorem quote_mem_valueText (name value : Bytes) : (39 : UInt8) ∈ valueText name value := by
  simp [valueText]

section
variable {a : Asset} {c : Col} {r : FormReader} {p : State × FormReader}

theorem readOn_select {options : List Bytes} (h : c.kind = .select options) (hp : Awaits r p)
    (hr : r.choice = none) :
    readOn FormReader.feed p (formField a c) = (.data [], r.add (a.control c)) := by
  obtain ⟨ks, _⟩ := r
  obtain rfl : _ = none := hr
  have hclose : ∀ q : FormReader, readOn FormReader.feed (.data [], q) (str "</div>") =
      (.data [], q) := fun _ => rfl
  unfold formField Asset.control
  simp only [h]
  rw [selectField, readOn_append, hp.field, readOn_append, readOn_append, readOn_label,
    readOn_selectHtml (literal_name c) (literal_options h), hclose]
  rfl

theorem readOn_group (r : FormReader) :
    readOn FormReader.feed (.data [], r) (str "<div class='input-group'>\n              ") =
      (.data (str "\n              "), r) := rfl

theorem head?_inputHtml (type name y z : Bytes) : (inputHtml type name y ++ z).head? = some 60 := rfl

/-- An input field up to the text that closes its tag. -/
theorem readOn_input (type : Bytes) {z : Bytes} (ht : Literal type) (hz : ClosesInput z) (hp : Awaits r p)
    (value : Bytes) : readOn FormReader.feed p (str "<div class='mb-3 position-relative'>" ++
      (fieldLabel (heading (.col c)) ++ (str "<div class='input-group'>\n              " ++
        (inputHtml type c.name (valueText c.name value) ++ z)))) =
      (.data [], r.add (inputControl type c.name (valueText c.name value))) := by
  rw [readOn_append, hp.input, readOn_append, readOn_label, readOn_append, readOn_group,
    readOn_data _ _ (head?_inputHtml _ _ _ _),
    readOn_inputHtml ht (literal_name c) (valueText_plain _ _) (quote_mem_valueText _ _) hz]

theorem readOn_text_field (h : c.kind = .text) (hp : Awaits r p) :
    Awaits (r.add (a.control c)) (readOn FormReader.feed p (formField a c)) := by
  have hread : ∀ o, ClosesInput (str ">" ++ (str "</div></div>" ++ o)) →
      readOn FormReader.feed (readOn FormReader.feed p (formField a c)) o =
        (.data [], r.add (a.control c)) := by
    intro o ho
    rw [← readOn_append]
    unfold formField Asset.control
    simp only [h]
    have hin := readOn_input (c := c) (str "text") (by decide) ho hp
      ((a.fields c).getD [])
    rw [inputField, if_neg (by decide)]
    simp only [List.append_assoc, List.nil_append] at hin ⊢
    exact hin
  exact ⟨hread _ closes_field, hread _ closes_input⟩

/-- The tags of the button are of no control. -/
theorem readOn_eye (h : c.kind = .password) (q : FormReader) :
    readOn FormReader.feed (.data [], q) (eye c.name) = (.data [], q) := by
  obtain rfl : c = .email_password := by cases c <;> first | rfl | cases h
  have hrun : run (.data []) (eye Col.email_password.name) =
      ([.tag ⟨str "i", [(str "class", str "fa fa-eye"), (str "style", str "cursor:pointer"),
        (str "onclick", str "togglePassword(\"email_password\")")]⟩, .tag ⟨str "/i", []⟩,
        .tag ⟨str "/span", []⟩], .data []) := by decide
  rw [readOn, hrun]
  rfl

theorem readOn_password (h : c.kind = .password) (hp : Awaits r p) :
    readOn FormReader.feed p (formField a c) = (.data [], r.add (a.control c)) := by
  unfold formField Asset.control
  simp only [h]
  have hin := readOn_input (c := c) (str "password") (by decide) closes_span hp
    ((a.fields c).getD [])
  have hclose : ∀ q : FormReader, readOn FormReader.feed (.data [], q) (str "</div></div>") =
      (.data [], q) := fun _ => rfl
  rw [inputField, if_pos rfl]
  have hsplit : str "<div class='mb-3 position-relative'>" ++ (fieldLabel (heading (.col c)) ++
      str "<div class='input-group'>\n              " ++
      (inputHtml (str "password") c.name (valueText c.name ((a.fields c).getD [])) ++ str ">" ++
        (str "<span class='input-group-text'>" ++ eye c.name) ++ str "</div></div>")) =
      (str "<div class='mb-3 position-relative'>" ++ (fieldLabel (heading (.col c)) ++
        (str "<div class='input-group'>\n              " ++ (inputHtml (str "password") c.name
          (valueText c.name ((a.fields c).getD [])) ++
            (str ">" ++ str "<span class='input-group-text'>"))))) ++
        (eye c.name ++ str "</div></div>") := by simp only [List.append_assoc]
  rw [hsplit, readOn_append, hin, readOn_append, readOn_eye h, hclose]

/-- A field that is no date is read on, with its control. -/
theorem readOn_formField (h : c.kind ≠ .date) (hp : Awaits r p) (hr : r.choice = none) :
    Awaits (r.add (a.control c)) (readOn FormReader.feed p (formField a c)) := by
  cases hk : c.kind with
  | text => exact readOn_text_field hk hp
  | password =>
    rw [readOn_password hk hp]
    exact awaits_data _
  | date => exact absurd hk h
  | select options =>
    rw [readOn_select hk hp hr]
    exact awaits_data _

end

/-- Read the controls of some columns. -/
def Asset.addControls (a : Asset) (r : FormReader) (cs : List Col) : FormReader :=
  { r with controls := r.controls ++ cs.filterMap a.control }

theorem controls_cons (a : Asset) (c : Col) (cs : List Col) :
    (c :: cs).filterMap a.control = (a.control c).toList ++ cs.filterMap a.control := by
  rw [List.filterMap_cons]
  cases a.control c <;> rfl

theorem addControls_cons (a : Asset) (r : FormReader) (c : Col) (cs : List Col) :
    a.addControls (r.add (a.control c)) cs = a.addControls r (c :: cs) := by
  simp [FormReader.add, Asset.addControls, controls_cons]

theorem readOn_formFields {a : Asset} {cs : List Col} (h : ∀ c ∈ cs, c.kind ≠ .date)
    {r : FormReader} {p : State × FormReader} (hp : Awaits r p) (hr : r.choice = none) :
    Awaits (a.addControls r cs) (readOn FormReader.feed p (cs.flatMap (formField a))) := by
  induction cs generalizing r p with
  | nil =>
    have he : a.addControls r [] = r := by simp [Asset.addControls]
    rw [he]
    exact hp
  | cons c cs ih =>
    rw [List.flatMap_cons, readOn_append, ← addControls_cons]
    exact ih (fun d hd => h d (List.mem_cons_of_mem _ hd))
      (readOn_formField (h c List.mem_cons_self) hp hr) hr

theorem mem_date {a : Asset} {b : UInt8} (hb : b ∈ (a.fields .date_purchased).getD []) :
    b = 45 ∨ Bytes.isDigit b = true := by
  cases h : a.fields .date_purchased with
  | none =>
    rw [h] at hb
    cases hb
  | some v =>
    rw [h] at hb
    exact Date.mem_of_isStored (a.fields.holds .date_purchased v h) hb

theorem literal_of_digits {v : Bytes} (h : ∀ b ∈ v, b = 45 ∨ Bytes.isDigit b = true) :
    ∀ b ∈ v, b ≠ 34 ∧ b ≠ 0 ∧ b ≠ 38 := by
  intro b hb
  have hr := Bytes.range_of_digit (h b hb)
  refine ⟨?_, ?_, ?_⟩ <;> rintro rfl <;> exact absurd hr (by decide)

/-- The date field is read from the end of the password on. -/
theorem readOn_date (a : Asset) (r : FormReader) :
    Awaits (r.add (a.control .date_purchased))
      (readOn FormReader.feed (.data [], r) (formField a .date_purchased)) := by
  have hlit := literal_of_digits fun _ => mem_date (a := a)
  have hhead : run (.data []) dateOpen =
      ([.text (str "\n    "), divTag (str "mb-3"), .text (str "\n      "),
        .tag ⟨str "label", [(str "class", str "form-label")]⟩, .text (str "Date Purchased"),
        .tag ⟨str "/label", []⟩, .text (str "\n      ")],
        .inTag (str "input") [(str "type", str "date"), (str "name", str "date_purchased"),
          (str "class", str "form-control")] (.quoted 34 (str "value") [])) := by decide
  have htail : run (.inTag (str "input") [] .before) (str " required>\n    </div>\n\n    ") =
      ([.tag ⟨str "input", [(str "required", [])]⟩, .text (str "\n    "), .tag ⟨str "/div", []⟩],
        .data (str "\n\n    ")) := by decide
  have hrun := run_doubleQuoted hhead htail fun b hb => ⟨(hlit b hb).1, (hlit b hb).2.1⟩
  have hread : readOn FormReader.feed (.data [], r) (formField a .date_purchased) =
      (.data (str "\n\n    "), r.add (a.control .date_purchased)) := by
    show readOn FormReader.feed (.data [], r) (dateField _) = _
    rw [dateField, htmlspecialchars_of_digits fun _ => mem_date, readOn, hrun]
    show (_, r.add (some ⟨_, sanitize (str "date") (unescape _), true⟩)) = _
    rw [unescape_of_plain fun b hb => (hlit b hb).2.2]
    rfl
  rw [hread]
  constructor
  · rw [readOn_data _ _ rfl]
    rfl
  · rw [readOn_data _ _ rfl]
    rfl

/-- The columns before the password, and those between the date and the unit type. -/
def Col.front : List Col := Col.all.take 15

def Col.back : List Col := [.ups, .recovery_type]

theorem Col.all_eq :
    Col.all = front ++ (.email_password :: .date_purchased :: (back ++ [.unit_type])) := by decide

theorem readOn_formHead (a : Asset) : Awaits { controls := [⟨str "id", Bytes.intText a.id, false⟩] }
    (readOn FormReader.feed (.data [], {}) (formHead a)) := by
  have hlit := literal_of_digits fun _ => Bytes.mem_intText (i := a.id)
  have hhead : run (.data []) formOpen =
      ([.tag ⟨str "form", [(str "method", str "POST")]⟩, .text (str "\n    ")],
        .inTag (str "input") [(str "type", str "hidden"), (str "name", str "id")]
          (.quoted 34 (str "value") [])) := by decide
  have htail : run (.inTag (str "input") [] .before) (str ">\n\n    ") =
      ([.tag ⟨str "input", []⟩], .data (str "\n\n    ")) := by decide
  have hrun := run_doubleQuoted hhead htail fun b hb => ⟨(hlit b hb).1, (hlit b hb).2.1⟩
  have hread : readOn FormReader.feed (.data [], {}) (formHead a) =
      (.data (str "\n\n    "), { controls := [⟨str "id", Bytes.intText a.id, false⟩] }) := by
    rw [formHead, readOn, hrun]
    show (_, FormReader.mk [⟨_, unescape _, false⟩] none) = _
    rw [unescape_of_plain fun b hb => (hlit b hb).2.2]
    rfl
  rw [hread]
  constructor
  · rw [readOn_data _ _ rfl]
    rfl
  · rw [readOn_data _ _ rfl]
    rfl

theorem readOn_formTail (r : FormReader) :
    (readOn FormReader.feed (.data [], r) formTail).2 = r.add (some ⟨str "update", [], false⟩) := by
  have hrun : run (.data []) formTail =
      ([.text (str "\n    "), .tag ⟨str "button", [(str "type", str "submit"),
        (str "name", str "update"), (str "class", str "btn btn-primary w-100")]⟩,
        .text (str "✅ Update & Continue"), .tag ⟨str "/button", []⟩, .text (str "\n  "),
        .tag ⟨str "/form", []⟩], .data []) := by decide
  rw [readOn, hrun]
  rfl

/-- **The controls of the form**: the id, one for each column that takes part, and the button. -/
theorem controls_editForm (a : Asset) : controls (editForm a) =
    ⟨str "id", Bytes.intText a.id, false⟩ :: (Col.all.filterMap a.control ++
      [⟨str "update", [], false⟩]) := by
  let r₀ : FormReader := { controls := [⟨str "id", Bytes.intText a.id, false⟩] }
  let r₁ := a.addControls r₀ Col.front
  let r₂ := (r₁.add (a.control .email_password)).add (a.control .date_purchased)
  have hfront : Awaits r₁ _ :=
    readOn_formFields (a := a) (by decide) (readOn_formHead a) rfl
  have hpassword := readOn_password (a := a) (c := .email_password) rfl hfront
  have hback : Awaits (a.addControls r₂ Col.back) _ :=
    readOn_formFields (a := a) (by decide) (readOn_date a _) rfl
  have hlast := readOn_select (a := a) (c := .unit_type) rfl hback rfl
  have hform : readOn FormReader.feed (.data [], {}) (editForm a) =
      readOn FormReader.feed (.data [], (a.addControls r₂ Col.back).add (a.control .unit_type))
        formTail := by
    rw [editForm, Col.all_eq, List.flatMap_append, List.flatMap_cons, List.flatMap_cons,
      List.flatMap_append, List.flatMap_singleton, readOn_append, readOn_append, readOn_append,
      readOn_append, readOn_append, readOn_append, hpassword, hlast]
  rw [controls, hform, readOn_formTail, Col.all_eq]
  simp [r₂, r₁, r₀, FormReader.add, Asset.addControls, controls_cons]

end Inventory
