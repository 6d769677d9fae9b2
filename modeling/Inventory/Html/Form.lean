import Inventory.Html.Tokens
import Inventory.Lib.Date

/-!
# Reading a form

`FormReader` collects the controls of a form from the tokens of a page: inputs
with their value as the control holds it (`sanitize`), selects with their
selected option, or else the first, and the button that submits the form. Of an
attribute given twice the first counts. `submission` is what the browser sends;
one that checks `required` sends nothing while such a control is empty. The
attributes `pattern` and `dirname` are not read.
-/

namespace Inventory.Html

structure Control where
  name : Bytes
  value : Bytes
  required : Bool
  deriving DecidableEq, Repr

/-- A select that is being read: the first option's value and the selected one's. -/
structure Choice where
  name : Bytes
  required : Bool
  first : Option Bytes := none
  selected : Option Bytes := none
  deriving DecidableEq, Repr

structure FormReader where
  controls : List Control := []
  choice : Option Choice := none
  deriving DecidableEq, Repr

def Tag.attr (t : Tag) (n : Bytes) : Option Bytes :=
  (t.attrs.find? fun a => a.1 == n).map fun a => unescape a.2

def Tag.has (t : Tag) (n : Bytes) : Bool := t.attrs.any fun a => a.1 == n

/-- The value an input of a type holds. -/
def sanitize (type v : Bytes) : Bytes :=
  if type = str "date" then (if Date.isValid v then v else [])
  else if type = str "text" ∨ type = str "password" then v.filter fun b => b != 10 && b != 13
  else v

/-- The control an input is: none of the form's if it is disabled or of another form. A read-only
one is not checked. -/
def Tag.input (t : Tag) : Option Control :=
  match t.attr (str "name") with
  | none => none
  | some n =>
    if t.has (str "disabled") || t.has (str "form") then none
    else some ⟨n, sanitize ((t.attr (str "type")).getD (str "text"))
      ((t.attr (str "value")).getD []), t.has (str "required") && !t.has (str "readonly")⟩

/-- The button that submits the form. -/
def Tag.button (t : Tag) : Option Control :=
  (t.attr (str "name")).map fun n => ⟨n, (t.attr (str "value")).getD [], false⟩

def FormReader.add (r : FormReader) (k : Option Control) : FormReader :=
  { r with controls := r.controls ++ k.toList }

/-- An option; its value is in its `value` attribute. -/
def Choice.option (c : Choice) (t : Tag) : Choice :=
  let v := (t.attr (str "value")).getD []
  { c with
    first := c.first.or (some v)
    selected := if t.has (str "selected") then some v else c.selected }

/-- The control a select makes when it ends. -/
def Choice.control (c : Choice) : Control := ⟨c.name, (c.selected.or c.first).getD [], c.required⟩

/-- The select that a tag opens. -/
def Tag.select (t : Tag) : Option Choice :=
  (t.attr (str "name")).map fun n => { name := n, required := t.has (str "required") }

def FormReader.feed (r : FormReader) : Token → FormReader
  | .text _ => r
  | .tag t =>
    if t.name = str "input" then r.add t.input
    else if t.name = str "select" then { r with choice := t.select }
    else if t.name = str "option" then { r with choice := r.choice.map fun c => c.option t }
    else if t.name = str "/select" then
      { controls := r.controls ++ (r.choice.map Choice.control).toList, choice := none }
    else if t.name = str "button" then r.add t.button
    else r

/-- The controls of a form. -/
def controls (x : Bytes) : List Control := (readOn FormReader.feed (.data [], {}) x).2.controls

/-- What a browser sends for the controls of a form. -/
def submission (checks : Bool) (ks : List Control) : Option (List (Bytes × Bytes)) :=
  if checks && ks.any (fun k => k.required && k.value.isEmpty) then none
  else some (ks.map fun k => (k.name, k.value))

/-! ## Pieces of a form -/

/-- A text that stands for itself in an attribute and between tags. -/
def Literal (x : Bytes) : Prop := ∀ b ∈ x, b ≠ 39 ∧ b ≠ 0 ∧ b ≠ 38 ∧ b ≠ 60

instance (x : Bytes) : Decidable (Literal x) :=
  List.decidableBAll (fun b => b ≠ 39 ∧ b ≠ 0 ∧ b ≠ 38 ∧ b ≠ 60) x

theorem Literal.unescape {x : Bytes} (h : Literal x) : unescape x = x :=
  unescape_of_plain fun b hb => (h b hb).2.2.1

/-- The text before a tag does not matter. -/
theorem readOn_data (t : Bytes) (r : FormReader) {x : Bytes} (hx : x.head? = some 60) :
    readOn FormReader.feed (.data t, r) x = readOn FormReader.feed (.data [], r) x := by
  cases x with
  | nil => cases hx
  | cons b x =>
    cases hx
    have hf : (flush t).foldl FormReader.feed r = r := by
      by_cases ht : t = []
      · rw [flush, if_pos ht]
        rfl
      · rw [flush, if_neg ht]
        rfl
    show (_, ((flush t) ++ (run (.tagName []) x).1).foldl FormReader.feed r) = _
    rw [List.foldl_append, hf]
    rfl

theorem readOn_quoted {x : Bytes} (h : Literal x) (n : Bytes) (as : List Attr) (m v : Bytes)
    (r : FormReader) : readOn FormReader.feed (.inTag n as (.quoted 39 m v), r) x =
      (.inTag n as (.quoted 39 m (v ++ x)), r) := by
  have h39 : ∀ b ∈ x, b ≠ 39 := fun b hb => (h b hb).1
  have h0 : ∀ b ∈ x, b ≠ 0 := fun b hb => (h b hb).2.1
  simp [readOn, run_quoted h39, flatMap_attrByte h0]

/-- A tag whose last value stands in double quotes. -/
theorem run_doubleQuoted {head tail : Bytes} {ts ts' : List Token} {n m : Bytes}
    {as more : List Attr} {q : State}
    (hhead : run (.data []) head = (ts, .inTag n as (.quoted 34 m [])))
    (htail : run (.inTag n [] .before) tail = (.tag ⟨n, more⟩ :: ts', q))
    {v : Bytes} (hv : ∀ b ∈ v, b ≠ 34 ∧ b ≠ 0) :
    run (.data []) (head ++ (v ++ 34 :: tail)) = (ts ++ .tag ⟨n, as ++ (m, v) :: more⟩ :: ts', q) := by
  have hvalue : run (.inTag n as (.quoted 34 m [])) v = ([], .inTag n as (.quoted 34 m v)) := by
    rw [run_quoted fun b hb => (hv b hb).1, flatMap_attrByte fun b hb => (hv b hb).2]
    rfl
  have hp := run_inTag_prefix htail (as ++ [(m, v)])
  rw [List.append_nil, List.append_assoc] at hp
  rw [run_append_of hhead, run_append_of hvalue]
  show (ts ++ ([] ++ ([] ++ (run (.inTag n (as ++ [(m, v)]) .before) tail).1)),
    (run (.inTag n (as ++ [(m, v)]) .before) tail).2) = _
  rw [hp]
  rfl

/-! ### Selects -/

def optionField (opt mark : Bytes) : Bytes :=
  str "<option value='" ++ opt ++ str "' " ++ mark ++ str ">" ++ opt ++ str "</option>"

theorem readOn_optionField {opt : Bytes} (h : Literal opt) (mark : Bool) (ks : List Control)
    (c : Choice) : readOn FormReader.feed (.data [], ⟨ks, some c⟩)
      (optionField opt (if mark then str "selected" else [])) = (.data [], ⟨ks, some { c with
        first := c.first.or (some opt), selected := if mark then some opt else c.selected }⟩) := by
  have hopen : readOn FormReader.feed (.data [], ⟨ks, some c⟩) (str "<option value='") =
      (.inTag (str "option") [] (.quoted 39 (str "value") []), ⟨ks, some c⟩) := rfl
  have hlt : ∀ b ∈ opt, b ≠ 60 := fun b hb => (h b hb).2.2.2
  have hclose : ∀ r, readOn FormReader.feed (.data [], r) (str "</option>") = (.data [], r) :=
    fun _ => rfl
  have hmark : readOn FormReader.feed (.inTag (str "option") [] (.quoted 39 (str "value") opt),
      ⟨ks, some c⟩) (str "' " ++ (if mark then str "selected" else []) ++ str ">") =
      (.data [], ⟨ks, some { c with
        first := c.first.or (some (unescape opt))
        selected := if mark then some (unescape opt) else c.selected }⟩) := by
    cases mark <;> rfl
  rw [h.unescape] at hmark
  calc readOn FormReader.feed (.data [], ⟨ks, some c⟩)
        (optionField opt (if mark then str "selected" else []))
      = readOn FormReader.feed (.data [], ⟨ks, some c⟩) (str "<option value='" ++ (opt ++
          ((str "' " ++ (if mark then str "selected" else []) ++ str ">") ++
            (opt ++ str "</option>")))) := by simp only [optionField, List.append_assoc]
    _ = _ := by
      rw [readOn_append, hopen, readOn_append, readOn_quoted h, List.nil_append, readOn_append,
        hmark, readOn_append, readOn_text _ hlt, readOn_data _ _ rfl, hclose]

/-- A select takes its first option's value, and its last selected one's. -/
theorem readOn_options {opts : List Bytes} (h : ∀ o ∈ opts, Literal o) (mark : Bytes → Bool)
    (ks : List Control) (c : Choice) : readOn FormReader.feed (.data [], ⟨ks, some c⟩)
      (opts.flatMap fun o => optionField o (if mark o then str "selected" else [])) =
        (.data [], ⟨ks, some { c with
          first := c.first.or opts.head?
          selected := (opts.filter mark).getLast?.or c.selected }⟩) := by
  induction opts generalizing c with
  | nil => simp [readOn_nil]
  | cons o os ih =>
    rw [List.flatMap_cons, readOn_append, readOn_optionField (h o List.mem_cons_self),
      ih fun p hp => h p (List.mem_cons_of_mem _ hp)]
    have hfirst : (c.first.or (some o)).or os.head? = c.first.or (o :: os).head? := by
      cases c.first <;> rfl
    have hsel : (os.filter mark).getLast?.or (if mark o then some o else c.selected) =
        ((o :: os).filter mark).getLast?.or c.selected := by
      cases hm : mark o with
      | true =>
        rw [List.filter_cons_of_pos hm, List.getLast?_cons]
        cases (os.filter mark).getLast? <;> rfl
      | false =>
        rw [List.filter_cons_of_neg (by simp [hm])]
        rfl
    simp only [hfirst, hsel]

/-- The end of a tag whose last value is being read. -/
theorem run_endTag {n : Bytes} {more : List Attr} {y : Bytes}
    (h : run (.inTag n [] .before) y = ([.tag ⟨n, more⟩], .data [])) (as : List Attr) (m v : Bytes) :
    run (.inTag n as (.quoted 39 m v)) (str "' " ++ y) =
      ([.tag ⟨n, as ++ (m, v) :: more⟩], .data []) := by
  have hq : run (.inTag n as (.quoted 39 m v)) (str "' ") = ([], .inTag n (as ++ [(m, v)]) .before) := by
    show ([], State.inTag n (as ++ [(m, v)] ++ []) .before) = _
    rw [List.append_nil]
  rw [run_append_of hq]
  have hp := run_inTag_prefix h (as ++ [(m, v)])
  rw [List.append_nil] at hp
  rw [hp]
  simp

/-- A select with its options. -/
def selectHtml (name : Bytes) (opts : List Bytes) (mark : Bytes → Bool) : Bytes :=
  str "<select name='" ++ name ++ (str "' " ++ str "class='form-select' required>") ++
    (opts.flatMap fun o => optionField o (if mark o then str "selected" else [])) ++
    str "</select>"

theorem readOn_selectHtml {name : Bytes} (hn : Literal name) {opts : List Bytes}
    (h : ∀ o ∈ opts, Literal o) (mark : Bytes → Bool) (ks : List Control) :
    readOn FormReader.feed (.data [], ⟨ks, none⟩) (selectHtml name opts mark) =
      (.data [], ⟨ks ++ [⟨name, ((opts.filter mark).getLast?.or opts.head?).getD [], true⟩],
        none⟩) := by
  have hopen : readOn FormReader.feed (.data [], ⟨ks, none⟩) (str "<select name='") =
      (.inTag (str "select") [] (.quoted 39 (str "name") []), ⟨ks, none⟩) := rfl
  have hname : readOn FormReader.feed (.data [], ⟨ks, none⟩) (str "<select name='" ++ name) =
      (.inTag (str "select") [] (.quoted 39 (str "name") name), ⟨ks, none⟩) := by
    rw [readOn_append, hopen, readOn_quoted hn, List.nil_append]
  have hend : run (.inTag (str "select") [] .before) (str "class='form-select' required>") =
      ([.tag ⟨str "select", [(str "class", str "form-select"), (str "required", [])]⟩],
        .data []) := by decide
  have htag : readOn FormReader.feed (.inTag (str "select") [] (.quoted 39 (str "name") name),
      ⟨ks, none⟩) (str "' " ++ str "class='form-select' required>") =
      (.data [], ⟨ks, some ⟨name, true, none, none⟩⟩) := by
    rw [readOn, run_endTag hend]
    show (_, FormReader.mk ks (some ⟨unescape name, true, none, none⟩)) = _
    rw [hn.unescape]
  have hclose : ∀ c : Choice, readOn FormReader.feed (.data [], ⟨ks, some c⟩) (str "</select>") =
      (.data [], ⟨ks ++ [c.control], none⟩) := fun _ => rfl
  rw [selectHtml, readOn_append, readOn_append, readOn_append, hname, htag, readOn_options h, hclose]
  simp [Choice.control]

/-! ### Inputs whose value may end early -/

/-- The tokens are of no control. -/
def Ignored (ts : List Token) : Prop := ∀ r : FormReader, ts.foldl FormReader.feed r = r

/-- The attributes that decide whether an input takes part and what is checked. -/
def deciding : List Bytes := [str "required", str "readonly", str "disabled", str "form"]

/-- Whatever attribute a stray quote has left open, reading the text closes the tag, and of the
deciding attributes it adds only the one that was left open. -/
def ClosesInput (y : Bytes) : Prop :=
  ∀ a : AttrState, a.Single → ∃ (more : List Attr) (ts : List Token),
    (∀ k ∈ deciding, (more.any fun t => t.1 == k) = a.pending.any (fun n => n == k)) ∧
      Ignored ts ∧ run (.inTag (str "input") [] a) y = (.tag ⟨str "input", more⟩ :: ts, .data [])

/-- An open attribute ends at `>`, but for a quoted one: that ends at the quote before `cls`. -/
theorem closesInput_of {mid cls : Bytes} {ts ts' : List Token} {more : List Attr}
    (hmid : ∀ b ∈ mid, b ≠ 39) (hdata : run (.data []) (mid ++ 39 :: cls) = (ts, .data []))
    (hcls : run (.inTag (str "input") [] .before) cls = (.tag ⟨str "input", more⟩ :: ts', .data []))
    (hmore : ∀ k ∈ deciding, (more.any fun t => t.1 == k) = false) (hts : Ignored ts)
    (hts' : Ignored ts') : ClosesInput (62 :: (mid ++ 39 :: cls)) := by
  intro a ha
  have hopen : ∀ as : List Attr, attrStep a 62 = (as, none) →
      run (.inTag (str "input") [] a) (62 :: (mid ++ 39 :: cls)) =
        (.tag ⟨str "input", as⟩ :: ts, .data []) := fun as h => by
    simp only [run, feed, h, hdata]
    rfl
  cases a with
  | before => exact ⟨[], ts, fun _ _ => rfl, hts, hopen [] rfl⟩
  | name n => exact ⟨[(n, [])], ts, fun _ _ => rfl, hts, hopen _ rfl⟩
  | afterName n => exact ⟨[(n, [])], ts, fun _ _ => rfl, hts, hopen _ rfl⟩
  | beforeValue n => exact ⟨[(n, [])], ts, fun _ _ => rfl, hts, hopen _ rfl⟩
  | unquoted n v => exact ⟨[(n, v)], ts, fun _ _ => rfl, hts, hopen _ rfl⟩
  | quoted q n v =>
    obtain rfl : q = 39 := ha
    have hmid' : ∀ b ∈ (62 : UInt8) :: mid, b ≠ 39 := by
      intro b hb
      rcases List.mem_cons.mp hb with rfl | hb
      · decide
      · exact hmid b hb
    have hquote : ∀ w, run (.inTag (str "input") [] (.quoted 39 n w)) (39 :: cls) =
        (.tag ⟨str "input", (n, w) :: more⟩ :: ts', .data []) := fun w => by
      have hp := run_inTag_prefix hcls [(n, w)]
      rw [List.append_nil] at hp
      show ([] ++ (run (.inTag (str "input") [(n, w)] .before) cls).1,
        (run (.inTag (str "input") [(n, w)] .before) cls).2) = _
      rw [hp]
      rfl
    refine ⟨(n, v ++ (62 :: mid).flatMap attrByte) :: more, ts', ?_, hts', ?_⟩
    · intro k hk
      rw [List.any_cons, hmore k hk]
      rfl
    · rw [← List.cons_append, run_append, run_quoted hmid', hquote]
      rfl

/-- The next attribute of a tag, after a value. -/
theorem run_nextAttr {y : Bytes} (h : ∀ b ∈ y, b ≠ 62 ∧ b ≠ 34) {new : List Attr} {a : AttrState}
    (hy : attrRun .before y = (new, a)) (n : Bytes) (as : List Attr) (m v : Bytes) :
    run (.inTag n as (.quoted 39 m v)) (str "' " ++ y) =
      ([], .inTag n (as ++ (m, v) :: new) a) := by
  have hq : run (.inTag n as (.quoted 39 m v)) (str "' ") =
      ([], .inTag n (as ++ [(m, v)] ++ []) .before) := rfl
  have hrun := (run_attrs (a := .before) h n (as ++ [(m, v)] ++ []) trivial).1
  rw [run_append_of hq, hrun, hy]
  simp

/-- An input in single quotes, up to what follows its value. -/
def inputHtml (type name y : Bytes) : Bytes :=
  str "<input type='" ++ type ++ (str "' " ++ str "name='") ++ name ++ (str "' " ++ str "id='") ++
    name ++ (str "' " ++ str "class='form-control' value='") ++ y

/-- Is an attribute read behind the value? -/
def readsAttr (k y : Bytes) : Bool :=
  let rest := attrRun .before (afterQuote y)
  (rest.1.any fun a => a.1 == k) || rest.2.pending.any fun n => n == k

/-- The control of an input whose value and what follows it is `y`. -/
def inputControl (type name y : Bytes) : Option Control :=
  if readsAttr (str "disabled") y || readsAttr (str "form") y then none
  else some ⟨name, sanitize type (unescape ((y.takeWhile (· != 39)).flatMap attrByte)),
    readsAttr (str "required") y && !readsAttr (str "readonly") y⟩

def inputAttrs (type name : Bytes) : List Attr :=
  [(str "type", type), (str "name", name), (str "id", name), (str "class", str "form-control")]

theorem run_inputHtml {type name y : Bytes} (ht : Literal type) (hn : Literal name)
    (hy : ∀ b ∈ y, b ≠ 62 ∧ b ≠ 34) (hq : (39 : UInt8) ∈ y) :
    run (.data []) (inputHtml type name y) = ([], .inTag (str "input") (inputAttrs type name ++
      (str "value", (y.takeWhile (· != 39)).flatMap attrByte) ::
        (attrRun .before (afterQuote y)).1) (attrRun .before (afterQuote y)).2) := by
  have quoted : ∀ {x : Bytes}, Literal x → ∀ as m, run (.inTag (str "input") as (.quoted 39 m [])) x =
      ([], .inTag (str "input") as (.quoted 39 m x)) := fun {x} hx as m => by
    rw [run_quoted (fun b hb => (hx b hb).1), flatMap_attrByte fun b hb => (hx b hb).2.1]
    rfl
  have hopen : run (.data []) (str "<input type='") =
      ([], .inTag (str "input") [] (.quoted 39 (str "type") [])) := by decide
  have hname := run_nextAttr (y := str "name='") (List.all_iff_forall_prop.mp (by decide))
    (show attrRun .before (str "name='") = ([], .quoted 39 (str "name") []) by decide)
  have hid := run_nextAttr (y := str "id='") (List.all_iff_forall_prop.mp (by decide))
    (show attrRun .before (str "id='") = ([], .quoted 39 (str "id") []) by decide)
  have hvalue := run_nextAttr (y := str "class='form-control' value='") (List.all_iff_forall_prop.mp (by decide))
    (show attrRun .before (str "class='form-control' value='") =
      ([(str "class", str "form-control")], .quoted 39 (str "value") []) by decide)
  have h1 : run (.data []) (str "<input type='" ++ type) =
      ([], .inTag (str "input") [] (.quoted 39 (str "type") type)) := by
    rw [run_append_of hopen, quoted ht]
    rfl
  have h2 := (run_append_of h1 (str "' " ++ str "name='")).trans (by rw [hname])
  have h3 := (run_append_of h2 name).trans (by rw [quoted hn])
  have h4 := (run_append_of h3 (str "' " ++ str "id='")).trans (by rw [hid])
  have h5 := (run_append_of h4 name).trans (by rw [quoted hn])
  have h6 := (run_append_of h5 (str "' " ++ str "class='form-control' value='")).trans
    (by rw [hvalue])
  have h7 := (run_append_of h6 y).trans (by rw [(run_value hy hq _ _ _ _).1])
  exact h7

theorem feed_input (type name v : Bytes) (rest : List Attr) (r : FormReader) :
    r.feed (.tag ⟨str "input", inputAttrs type name ++ (str "value", v) :: rest⟩) =
      r.add (if (rest.any fun a => a.1 == str "disabled") || (rest.any fun a => a.1 == str "form")
        then none
        else some ⟨unescape name, sanitize (unescape type) (unescape v),
          (rest.any fun a => a.1 == str "required") &&
            !(rest.any fun a => a.1 == str "readonly")⟩) := rfl

/-- **An input is read with the value up to its first quote**, whatever the quote has made of the
rest of the tag. -/
theorem readOn_inputHtml {type name y z : Bytes} (ht : Literal type) (hn : Literal name)
    (hy : ∀ b ∈ y, b ≠ 62 ∧ b ≠ 34) (hq : (39 : UInt8) ∈ y) (hz : ClosesInput z) (r : FormReader) :
    readOn FormReader.feed (.data [], r) (inputHtml type name y ++ z) =
      (.data [], r.add (inputControl type name y)) := by
  obtain ⟨more, ts, hmore, hts, hrun⟩ := hz _ (run_value hy hq (str "input") [] [] []).2
  have hclose := run_inTag_prefix hrun (inputAttrs type name ++
    (str "value", (y.takeWhile (· != 39)).flatMap attrByte) :: (attrRun .before (afterQuote y)).1)
  rw [List.append_nil, List.append_assoc, List.cons_append] at hclose
  have hin := (run_append_of (run_inputHtml ht hn hy hq) z).trans (by rw [hclose])
  have hreads : ∀ k ∈ deciding, (((attrRun .before (afterQuote y)).1 ++ more).any
      fun a => a.1 == k) = readsAttr k y := by
    intro k hk
    rw [List.any_append, hmore k hk]
    rfl
  rw [readOn, hin, List.nil_append, List.foldl_cons, hts, feed_input, ht.unescape, hn.unescape,
    hreads _ (by decide), hreads _ (by decide), hreads _ (by decide), hreads _ (by decide)]
  rfl

/-! ### The value of an input -/

theorem unescape_attrBytes (s : Bytes) :
    unescape ((escape s).flatMap attrByte) = s.flatMap attrByte := by
  induction s with
  | nil => rfl
  | cons b s ih =>
    rw [escape, List.flatMap_cons, List.flatMap_append, List.flatMap_cons, ← escape]
    by_cases hb : b = 0
    · subst hb
      show unescape (0xEF :: 0xBF :: 0xBD :: (escape s).flatMap attrByte) =
        0xEF :: 0xBF :: 0xBD :: s.flatMap attrByte
      rw [unescape_cons (by decide), unescape_cons (by decide), unescape_cons (by decide), ih]
    · have hplain : ∀ c ∈ escapeByte b, c ≠ 0 := by
        intro c hc
        unfold escapeByte at hc
        repeat' split at hc
        · exact (List.all_iff_forall_prop.mp (by decide) : ∀ c ∈ str "&amp;", c ≠ 0) c hc
        · exact (List.all_iff_forall_prop.mp (by decide) : ∀ c ∈ str "&quot;", c ≠ 0) c hc
        · exact (List.all_iff_forall_prop.mp (by decide) : ∀ c ∈ str "&lt;", c ≠ 0) c hc
        · exact (List.all_iff_forall_prop.mp (by decide) : ∀ c ∈ str "&gt;", c ≠ 0) c hc
        · rw [List.mem_singleton.mp hc]
          exact hb
      have hself : attrByte b = [b] := if_neg (by simpa using hb)
      rw [flatMap_attrByte hplain, unescape_escapeByte, ih, hself]
      rfl

/-- The value an input holds of a text put before its closing quote. -/
def typedValue (v : Bytes) : Bytes :=
  (((readable v).takeWhile (· != 39)).flatMap attrByte).filter fun b => b != 10 && b != 13

theorem sanitize_value {type : Bytes} (ht : type = str "text" ∨ type = str "password")
    (v t : Bytes) : sanitize type (unescape
      (((htmlspecialchars v ++ 39 :: t).takeWhile (· != 39)).flatMap attrByte)) = typedValue v := by
  have hcut : (htmlspecialchars v ++ 39 :: t).takeWhile (· != 39) =
      escape ((readable v).takeWhile (· != 39)) := by
    have hquote : ∀ x : Bytes, (x ++ 39 :: t).takeWhile (· != 39) = x.takeWhile (· != 39) := by
      intro x
      induction x with
      | nil => rfl
      | cons b x ih => simp only [List.cons_append, List.takeWhile_cons, ih]
    rw [hquote, htmlspecialchars_eq, takeWhile_quote_escape]
  have hdate : type ≠ str "date" := by
    rintro rfl
    revert ht
    decide
  rw [hcut, unescape_attrBytes, sanitize, if_neg hdate, if_pos ht]
  rfl

end Inventory.Html
