import Inventory.Html.Form

/-!
# Filling in a form

`FieldReader` collects the fields a user can fill in from the tokens of a page:
inputs with their type, and selects with the values they offer. An option
without a value of its own has what the browser makes of its text for one. A
form is filled in with values its fields can hold (`Filling`); `controls` of a
filling are what `submission` sends.
-/

namespace Inventory.Html

/-- How a field is filled in. -/
inductive Fill where
  | input (type : Bytes)
  | menu (values : List Bytes)
  deriving DecidableEq, Repr

structure Field where
  name : Bytes
  fill : Fill
  required : Bool
  deriving DecidableEq, Repr

/-- The fields read, the select that is being read, and the text of its open option. -/
structure FieldReader where
  fields : List Field := []
  menu : Option Field := none
  text : Option Bytes := none
  deriving DecidableEq, Repr

/-- The field an input is. -/
def Tag.field (t : Tag) : Option Field :=
  (t.attr (str "name")).map fun n =>
    ⟨n, .input ((t.attr (str "type")).getD (str "text")), t.has (str "required")⟩

/-- The select that a tag opens. -/
def Tag.menu (t : Tag) : Option Field :=
  (t.attr (str "name")).map fun n => ⟨n, .menu [], t.has (str "required")⟩

/-- One more value in a select. -/
def Field.offer (f : Field) (v : Bytes) : Field :=
  match f.fill with
  | .menu values => { f with fill := .menu (values ++ [v]) }
  | .input _ => f

section
variable (value : Bytes → Bytes)

/-- `value` gives the value of an option that has none of its own, from its text. -/
def FieldReader.feed (r : FieldReader) : Token → FieldReader
  | .text t => { r with text := r.text.map (· ++ unescape t) }
  | .tag t =>
    if t.name = str "input" then { r with fields := r.fields ++ t.field.toList }
    else if t.name = str "select" then { r with menu := t.menu }
    else if t.name = str "option" then
      match t.attr (str "value") with
      | some v => { r with menu := r.menu.map fun f => f.offer v }
      | none => { r with text := some [] }
    else if t.name = str "/option" then
      match r.text with
      | some t => { r with menu := r.menu.map fun f => f.offer (value t), text := none }
      | none => r
    else if t.name = str "/select" then ⟨r.fields ++ r.menu.toList, none, none⟩
    else r

/-- The fields of a form. -/
def fields (x : Bytes) : List Field := (readOn (FieldReader.feed value) (.data [], {}) x).2.fields

end

/-! ## Fillings -/

/-- The field can hold the value: an input what its type leaves of it, a select what it offers. -/
def Fill.Holds : Fill → Bytes → Prop
  | .input type, v => sanitize type v = v ∧ Utf8.valid v = true
  | .menu values, v => v ∈ values

instance (f : Fill) (v : Bytes) : Decidable (f.Holds v) := by
  cases f <;> unfold Fill.Holds <;> infer_instance

/-- What the fields of a form hold. -/
structure Filling (fs : List Field) where
  value : Bytes → Bytes
  holds : ∀ f ∈ fs, f.fill.Holds (value f.name)

/-- The controls of a form that is filled in. -/
def Filling.controls {fs : List Field} (x : Filling fs) : List Control :=
  fs.map fun f => ⟨f.name, x.value f.name, f.required⟩

theorem entries_filling {fs : List Field} {x : Filling fs} {checks : Bool}
    {es : List (Bytes × Bytes)} (h : submission checks x.controls = some es) :
    es = fs.map fun f => (f.name, x.value f.name) := by
  unfold submission at h
  split at h
  · cases h
  · rw [Filling.controls, List.map_map] at h
    exact (Option.some.inj h).symm

/-- A browser that checks sends a form when its required fields are not empty. -/
theorem submission_filling {fs : List Field} {x : Filling fs} {es : List (Bytes × Bytes)} :
    submission true x.controls = some es ↔
      (∀ f ∈ fs, f.required = true → x.value f.name ≠ []) ∧
        es = fs.map fun f => (f.name, x.value f.name) := by
  have hany : (x.controls.any fun k => k.required && k.value.isEmpty) = true ↔
      ¬ ∀ f ∈ fs, f.required = true → x.value f.name ≠ [] := by
    rw [Filling.controls, List.any_map, List.any_eq_true]
    push Not
    exact exists_congr fun f => by
      rw [Function.comp_apply, Bool.and_eq_true, List.isEmpty_iff]
  unfold submission
  rw [Bool.true_and]
  split
  · next h => exact ⟨fun hn => (by cases hn), fun hn => absurd hn.1 (hany.mp h)⟩
  · next h =>
    have hall : ∀ f ∈ fs, f.required = true → x.value f.name ≠ [] := by
      by_contra hn
      exact h (hany.mpr hn)
    rw [and_iff_right hall, Option.some.injEq, Filling.controls, List.map_map]
    exact eq_comm

/-! ## Reading the pieces -/

section
variable {value : Bytes → Bytes}

/-- Outside of an option the text before a tag does not matter. -/
theorem readOn_between (t : Bytes) (fs : List Field) (m : Option Field) {x : Bytes}
    (hx : x.head? = some 60) : readOn (FieldReader.feed value) (.data t, ⟨fs, m, none⟩) x =
      readOn (FieldReader.feed value) (.data [], ⟨fs, m, none⟩) x := by
  cases x with
  | nil => cases hx
  | cons b x =>
    cases hx
    have hf : (flush t).foldl (FieldReader.feed value) ⟨fs, m, none⟩ = ⟨fs, m, none⟩ := by
      unfold flush
      split <;> rfl
    show (_, (flush t ++ (run (.tagName []) x).1).foldl (FieldReader.feed value) _) = _
    rw [List.foldl_append, hf]
    rfl

/-- Nor does the text before a text that a tag ends. -/
theorem readOn_lead (t : Bytes) (fs : List Field) (m : Option Field) {w x : Bytes}
    (hw : ∀ b ∈ w, b ≠ 60) (hx : x.head? = some 60) :
    readOn (FieldReader.feed value) (.data t, ⟨fs, m, none⟩) (w ++ x) =
      readOn (FieldReader.feed value) (.data [], ⟨fs, m, none⟩) (w ++ x) := by
  rw [readOn_append, readOn_append, readOn_text _ hw, readOn_text _ hw,
    readOn_between (t ++ w) _ _ hx, readOn_between ([] ++ w) _ _ hx]

/-- An option whose text is its value. -/
def textOption (opt : Bytes) : Bytes := str "<option>" ++ (opt ++ str "</option>")

theorem readOn_textOption {opt : Bytes} (h : Literal opt) (hv : value opt = opt) (t : Bytes)
    (fs : List Field) (m : Field) :
    readOn (FieldReader.feed value) (.data t, ⟨fs, some m, none⟩) (textOption opt) =
      (.data [], ⟨fs, some (m.offer opt), none⟩) := by
  have hlt : ∀ b ∈ opt, b ≠ 60 := fun b hb => (h b hb).2.2.2
  have hopen : readOn (FieldReader.feed value) (.data [], ⟨fs, some m, none⟩) (str "<option>") =
      (.data [], ⟨fs, some m, some []⟩) := rfl
  have hflush : (flush opt).foldl (FieldReader.feed value) ⟨fs, some m, some []⟩ =
      ⟨fs, some m, some (unescape opt)⟩ := by
    by_cases ho : opt = []
    · rw [ho]
      rfl
    · rw [flush, if_neg ho]
      rfl
  have hclose : readOn (FieldReader.feed value) (.data opt, ⟨fs, some m, some []⟩)
      (str "</option>") = (.data [], ⟨fs, some (m.offer (value (unescape opt))), none⟩) := by
    have hrun : run (.data opt) (str "</option>") =
        (flush opt ++ [.tag ⟨str "/option", []⟩], .data []) := rfl
    rw [readOn, hrun, List.foldl_append, hflush]
    rfl
  rw [textOption, readOn_between _ _ _ rfl, readOn_append, hopen, readOn_append, readOn_text _ hlt,
    List.nil_append, hclose, h.unescape, hv]

theorem readOn_textOptions {opts : List Bytes} (h : ∀ o ∈ opts, Literal o ∧ value o = o)
    (t : Bytes) (fs : List Field) (m : Field) :
    ∃ u, readOn (FieldReader.feed value) (.data t, ⟨fs, some m, none⟩) (opts.flatMap textOption) =
      (.data u, ⟨fs, some (opts.foldl Field.offer m), none⟩) := by
  induction opts generalizing t m with
  | nil => exact ⟨t, rfl⟩
  | cons o os ih =>
    obtain ⟨ho, hv⟩ := h o List.mem_cons_self
    rw [List.flatMap_cons, readOn_append, readOn_textOption ho hv]
    exact ih (fun p hp => h p (List.mem_cons_of_mem _ hp)) [] (m.offer o)

theorem offer_all (n : Bytes) (r : Bool) (vs opts : List Bytes) :
    opts.foldl Field.offer ⟨n, .menu vs, r⟩ = ⟨n, .menu (vs ++ opts), r⟩ := by
  induction opts generalizing vs with
  | nil => simp
  | cons o os ih =>
    rw [List.foldl_cons]
    show os.foldl Field.offer ⟨n, .menu (vs ++ [o]), r⟩ = _
    rw [ih, List.append_assoc]
    rfl

end

end Inventory.Html
