import Inventory.Model.Sample
import Inventory.Model.Submission

/-!
# The edit form, submitted unchanged

The form of an asset, submitted as it is shown, keeps the row when every value
comes back from its field (`Faithful`), or when nothing is stored: the browser
refuses an empty required field (`Blocks`), or the database a value
(`Refuses`). Every other row is changed.
-/

namespace Inventory

open Lib Php Html

/-- A text that an input in single quotes holds as it is. -/
def Plain (v : Bytes) : Prop :=
  Utf8.valid v = true ∧ ∀ b ∈ v, b ≠ 39 ∧ b ≠ 0 ∧ b ≠ 10 ∧ b ≠ 13

instance (v : Bytes) : Decidable (Plain v) :=
  have := List.decidableBAll (fun b : UInt8 => b ≠ 39 ∧ b ≠ 0 ∧ b ≠ 10 ∧ b ≠ 13) v
  inferInstanceAs (Decidable (_ ∧ _))

/-- The value comes back from the field of its column; NULL and the empty text may come back from
the email address as "n/a". -/
def Faithful (c : Col) (v : Option Bytes) : Prop :=
  match c.kind with
  | .select options => ∃ opt ∈ options, v = some opt
  | .date => ∃ s, v = some s ∧ Date.isValid s = true
  | _ => (c = .email_address ∧ (v = none ∨ v = some [])) ∨
      ∃ s, v = some s ∧ Plain s ∧ (c = .email_address → ¬ Blank s)

/-- The attribute is read in the tag of the field, behind the value. -/
def TagReads (k : Bytes) (c : Col) (v : Option Bytes) : Prop :=
  readsAttr k (valueText c.name (v.getD [])) = true

/-- A quote in the value has taken the field out of the form. -/
def Dropped (c : Col) (v : Option Bytes) : Prop :=
  TagReads (str "disabled") c v ∨ TagReads (str "form") c v

/-- A browser that checks `required` does not submit the field. -/
def Blocks (c : Col) (v : Option Bytes) : Prop :=
  match c.kind with
  | .select _ => False
  | .date => Date.isValid (v.getD []) = false
  | _ => typedValue (v.getD []) = [] ∧ ¬ Dropped c v ∧ TagReads (str "required") c v ∧
      ¬ TagReads (str "readonly") c v

/-- The database refuses what the field sends. -/
def Refuses (c : Col) (v : Option Bytes) : Prop :=
  match c.kind with
  | .select _ => False
  | .date => Date.isValid (v.getD []) = false
  | _ => ¬ Dropped c v ∧ (c = .email_address → ¬ Blank (typedValue (v.getD []))) ∧
      ∃ n, c.type = .varchar n ∧ storeText n (typedValue (v.getD [])) = none

/-- The stored value is the old one; NULL and the empty text may have become "n/a" in the email
address. -/
def ValueKept (c : Col) (v w : Option Bytes) : Prop :=
  w = v ∨ c = .email_address ∧ (v = none ∨ v = some []) ∧ w = some (str "n/a")

/-- Every column of the asset's row but the timestamp is kept. -/
def RowKept (d : Db) (a : Asset) : Prop :=
  ∃ b, d.asset a.id = some b ∧ ∀ c, ValueKept c (a.fields c) (b.fields c)

section
variable {I : Type} [DecidableEq I]

/-- The asset's form is submitted as it is; a browser may refuse to. -/
def resubmitted (sys : System Reply Env Db Request Session Response) (checks : Bool)
    (c : PageState I) (i : I) (a : Asset) (env : Nat → Env) : PageState I :=
  match submission checks (controls (editForm a)) with
  | some es => c.served sys i ⟨.edit_asset, .post (formPost es)⟩ env
  | none => c

end

/-! ## What an input holds -/

theorem mem_typedValue {v : Bytes} {b : UInt8} (h : b ∈ typedValue v) :
    b ≠ 39 ∧ b ≠ 0 ∧ b ≠ 10 ∧ b ≠ 13 := by
  unfold typedValue at h
  obtain ⟨hmem, hline⟩ := List.mem_filter.mp h
  obtain ⟨x, hx, hb⟩ := List.mem_flatMap.mp hmem
  have hquote : x ≠ 39 := by simpa using List.mem_takeWhile_imp hx
  simp only [Bool.and_eq_true, bne_iff_ne] at hline
  refine ⟨?_, ?_, hline.1, hline.2⟩
  · unfold attrByte at hb
    split at hb
    · rintro rfl
      exact absurd hb (by decide)
    · rw [List.mem_singleton.mp hb]
      exact hquote
  · unfold attrByte at hb
    split at hb
    · rintro rfl
      exact absurd hb (by decide)
    · next h0 =>
      rw [List.mem_singleton.mp hb]
      simpa using h0

theorem typedValue_of_plain {v : Bytes} (h : Plain v) : typedValue v = v := by
  have hcut : v.takeWhile (· != 39) = v :=
    List.takeWhile_eq_self_iff.mpr fun b hb => by simpa using (h.2 b hb).1
  unfold typedValue readable
  rw [if_pos h.1, hcut, flatMap_attrByte fun b hb => (h.2 b hb).2.1]
  exact List.filter_eq_self.mpr fun b hb => by simpa using (h.2 b hb).2.2

/-- A text the field's value starts with is plain. -/
theorem plain_of_isPrefix {v : Bytes} (h : v <+: typedValue v) : Plain v := by
  refine ⟨?_, fun b hb => mem_typedValue (h.subset hb)⟩
  cases hv : Utf8.valid v with
  | true => rfl
  | false =>
    have ht : typedValue v = [] := by simp [typedValue, readable, hv]
    rw [ht] at h
    rw [List.prefix_nil.mp h] at hv
    exact absurd hv (by decide)

theorem afterQuote_append {x : Bytes} (h : (39 : UInt8) ∉ x) (y : Bytes) :
    afterQuote (x ++ 39 :: y) = y := by
  induction x with
  | nil => rfl
  | cons b x ih =>
    have hb : (b != 39) = true := by
      simpa using fun e : b = 39 => h (e ▸ List.mem_cons_self)
    have hx : (39 : UInt8) ∉ x := fun hm => h (List.mem_cons_of_mem _ hm)
    have hstep : afterQuote (b :: (x ++ 39 :: y)) = afterQuote (x ++ 39 :: y) := by
      simp [afterQuote, hb]
    rw [List.cons_append, hstep, ih hx]

/-- A value without a quote does not take the field out of the form. -/
theorem not_dropped {c : Col} {v : Option Bytes} (h : (39 : UInt8) ∉ v.getD []) :
    ¬ Dropped c v := by
  have hnot : (39 : UInt8) ∉ htmlspecialchars (v.getD []) := by
    rw [htmlspecialchars_eq, mem_quote_escape]
    unfold readable
    split
    · exact h
    · exact List.not_mem_nil
  have hnone : ∀ k ∈ [str "disabled", str "form"], ¬ TagReads k c v := by
    unfold TagReads readsAttr valueText
    rw [afterQuote_append hnot]
    unfold requiredText placeholderText
    split <;> decide
  rintro (hd | hd)
  · exact hnone _ (by simp) hd
  · exact hnone _ (by simp) hd

/-! ## What is sent for a column -/

theorem strEq_of_not_numeric {s : Bytes} (h : numeric s = none) (t : Bytes) :
    strEq s t = (s == t) := by
  simp [strEq, h]

theorem options_spec {c : Col} {options : List Bytes} (h : c.kind = .select options) :
    (∀ opt ∈ options, numeric opt = none ∧ opt ≠ []) ∧ options ≠ [] ∧
      ∃ n, c.type = .varchar n ∧ ∀ opt ∈ options, opt.length ≤ n := by
  cases c <;> cases h <;> exact ⟨by decide, by decide, _, rfl, by decide⟩

/-- The option that a select sends: the stored value, or else the first option. -/
theorem typed_select {a : Asset} {c : Col} {options : List Bytes} (h : c.kind = .select options) :
    ∃ opt ∈ options, a.typed (fun _ => none) c = some opt ∧
      ((∃ o ∈ options, a.fields c = some o) → a.fields c = some opt) := by
  obtain ⟨hopt, hne, -⟩ := options_spec h
  have hloose : ∀ opt ∈ options, looseEq (.str opt) (a.get c) = true ↔ a.fields c = some opt := by
    intro opt ho
    obtain ⟨hnum, hempty⟩ := hopt opt ho
    unfold Asset.get
    cases a.fields c with
    | none => simpa [looseEq] using hempty
    | some v =>
      show strEq opt v = true ↔ _
      rw [strEq_of_not_numeric hnum, beq_iff_eq, Option.some.injEq, eq_comm]
  have htyped : a.typed (fun _ => none) c =
      some (((options.filter fun opt => looseEq (.str opt) (a.get c)).getLast?.or
        options.head?).getD []) := by
    unfold Asset.typed Asset.control
    simp only [h]
    rfl
  rw [htyped]
  cases hl : (options.filter fun opt => looseEq (.str opt) (a.get c)).getLast? with
  | some opt =>
    obtain ⟨ho, hsel⟩ := List.mem_filter.mp (List.mem_of_getLast? hl)
    exact ⟨opt, ho, rfl, fun _ => (hloose opt ho).mp hsel⟩
  | none =>
    have hnil := List.getLast?_eq_none_iff.mp hl
    refine ⟨options.head hne, List.head_mem hne, by rw [List.head?_eq_some_head hne]; rfl, ?_⟩
    rintro ⟨o, ho, hv⟩
    have hmem : o ∈ options.filter fun opt => looseEq (.str opt) (a.get c) :=
      List.mem_filter.mpr ⟨ho, (hloose o ho).mpr hv⟩
    rw [hnil] at hmem
    cases hmem

/-- The control of a text field. -/
theorem control_text {a : Asset} {c : Col} (h : c.kind = .text ∨ c.kind = .password) :
    (Dropped c (a.fields c) → a.control c = none) ∧ (¬ Dropped c (a.fields c) →
      a.control c = some ⟨c.name, typedValue ((a.fields c).getD []),
        readsAttr (str "required") (valueText c.name ((a.fields c).getD [])) &&
          !readsAttr (str "readonly") (valueText c.name ((a.fields c).getD []))⟩) := by
  have hcontrol : ∃ type, (type = str "text" ∨ type = str "password") ∧
      a.control c = inputControl type c.name (valueText c.name ((a.fields c).getD [])) := by
    rcases h with h | h
    · exact ⟨str "text", .inl rfl, by unfold Asset.control; simp only [h]⟩
    · exact ⟨str "password", .inr rfl, by unfold Asset.control; simp only [h]⟩
  obtain ⟨type, htype, hc⟩ := hcontrol
  have hd : Dropped c (a.fields c) ↔
      (readsAttr (str "disabled") (valueText c.name ((a.fields c).getD [])) ||
        readsAttr (str "form") (valueText c.name ((a.fields c).getD []))) = true := by
    rw [Bool.or_eq_true]
    exact Iff.rfl
  rw [hc, hd]
  constructor
  · exact fun hdrop => if_pos hdrop
  · intro hdrop
    have hvalue := sanitize_value htype ((a.fields c).getD [])
      (str " " ++ requiredText c.name ++ str " " ++ placeholderText c.name)
    rw [inputControl, if_neg hdrop, valueText, hvalue]

theorem typed_text {a : Asset} {c : Col} (h : c.kind = .text ∨ c.kind = .password) :
    (Dropped c (a.fields c) ∧ a.typed (fun _ => none) c = none) ∨
      (¬ Dropped c (a.fields c) ∧
        a.typed (fun _ => none) c = some (typedValue ((a.fields c).getD []))) := by
  obtain ⟨hdrop, hin⟩ := control_text (a := a) h
  by_cases hd : Dropped c (a.fields c)
  · exact .inl ⟨hd, by rw [Asset.typed, hdrop hd]; rfl⟩
  · exact .inr ⟨hd, by rw [Asset.typed, hin hd]; rfl⟩

/-- The fields a browser does not submit. -/
theorem blocks_iff (a : Asset) (c : Col) :
    Blocks c (a.fields c) ↔ ∃ k, a.control c = some k ∧ k.required = true ∧ k.value = [] := by
  have text : c.kind = .text ∨ c.kind = .password → ((typedValue ((a.fields c).getD []) = [] ∧
      ¬ Dropped c (a.fields c) ∧ TagReads (str "required") c (a.fields c) ∧
      ¬ TagReads (str "readonly") c (a.fields c)) ↔
        ∃ k, a.control c = some k ∧ k.required = true ∧ k.value = []) := by
    intro h
    obtain ⟨hdrop, hin⟩ := control_text (a := a) h
    by_cases hd : Dropped c (a.fields c)
    · simp [hd, hdrop hd]
    · rw [hin hd]
      simp only [TagReads, hd, not_false_eq_true, true_and, Option.some.injEq,
        exists_eq_left', Bool.and_eq_true, Bool.not_eq_true', Bool.not_eq_true]
      exact and_comm
  unfold Blocks
  cases h : c.kind with
  | text => exact text (.inl h)
  | password => exact text (.inr h)
  | date =>
    have hc : a.control c = some ⟨c.name, if Date.isValid ((a.fields c).getD []) then
        (a.fields c).getD [] else [], true⟩ := by
      unfold Asset.control
      simp only [h]
      rfl
    rw [hc]
    constructor
    · intro hv
      exact ⟨_, rfl, rfl, if_neg (by rw [hv]; exact Bool.false_ne_true)⟩
    · rintro ⟨k, hk, -, hempty⟩
      cases hk
      cases hv : Date.isValid ((a.fields c).getD []) with
      | false => rfl
      | true =>
        rw [if_pos hv] at hempty
        rw [show (a.fields c).getD [] = [] from hempty] at hv
        exact absurd hv (by decide)
  | select options =>
    obtain ⟨opt, ho, ht, -⟩ := typed_select (a := a) h
    obtain ⟨hopt, -, -⟩ := options_spec h
    constructor
    · exact False.elim
    · rintro ⟨k, hk, -, hempty⟩
      have hv : k.value = opt := by
        rw [Asset.typed, hk] at ht
        exact Option.some.inj ht
      exact (hopt opt ho).2 (hv.symm.trans hempty)

/-! ## What is stored -/

section
variable (sv : Server) {a : Asset} {c : Col}

theorem castCol_varchar {n : Nat} (h : c.type = .varchar n) (s : Bytes) :
    sv.castCol c (some s) = (storeText n s).map some := by
  unfold Server.castCol Server.cast
  rw [h]

/-- What a column is given when its form comes back: it is refused, or else it is the old value just
if the value is `Faithful`. -/
def ComesBack (a : Asset) (c : Col) : Prop :=
  (sv.castCol c (a.resent (fun _ => none) c) = none ↔ Refuses c (a.fields c)) ∧
    ∀ w, sv.castCol c (a.resent (fun _ => none) c) = some w →
      (ValueKept c (a.fields c) w ↔ Faithful c (a.fields c))

theorem comesBack_select {options : List Bytes} (h : c.kind = .select options) :
    ComesBack sv a c := by
  obtain ⟨opt, ho, ht, hsel⟩ := typed_select (a := a) h
  obtain ⟨-, -, n, hn, hlen⟩ := options_spec h
  have hne : c ≠ .email_address := by
    rintro rfl
    cases h
  have hcast : sv.castCol c (a.resent (fun _ => none) c) = some (some opt) := by
    rw [Asset.resent, if_neg hne, ht, castCol_varchar sv hn, storeText_of_le (hlen opt ho)]
    rfl
  unfold ComesBack Refuses Faithful
  rw [hcast]
  simp only [h]
  refine ⟨by simp, ?_⟩
  rintro w ⟨rfl⟩
  constructor
  · rintro (hw | ⟨he, -⟩)
    · exact ⟨opt, ho, hw.symm⟩
    · exact absurd he hne
  · exact fun hv => .inl (hsel hv).symm

theorem comesBack_date : ComesBack sv a .date_purchased := by
  have hcast : sv.castCol .date_purchased (a.resent (fun _ => none) .date_purchased) =
      (sv.castDate (if Date.isValid ((a.fields .date_purchased).getD []) then
        (a.fields .date_purchased).getD [] else [])).map some := rfl
  unfold ComesBack
  rw [hcast]
  show (_ ↔ Date.isValid ((a.fields .date_purchased).getD []) = false) ∧ ∀ w, _ →
    (ValueKept .date_purchased (a.fields .date_purchased) w ↔ ∃ s, a.fields .date_purchased = some s ∧
      Date.isValid s = true)
  cases hf : a.fields .date_purchased with
  | none =>
    have hv : Date.isValid [] = false := by decide
    simp [hv, sv.castDate_empty]
  | some s =>
    rw [Option.getD_some]
    cases hv : Date.isValid s with
    | false => simp [sv.castDate_empty]
    | true =>
      have hs := sv.castDate_self s (a.fields.holds .date_purchased s hf)
      simp [hs, ValueKept, hv]

/-- What is stored of a text is the text itself just if it is plain. -/
theorem stored_iff_plain {n : Nat} {v : Option Bytes} {u : Bytes}
    (hu : storeText n (typedValue (v.getD [])) = some u) (hv : ∀ s, v = some s → s.length ≤ n) :
    some u = v ↔ ∃ s, v = some s ∧ Plain s := by
  constructor
  · rintro rfl
    exact ⟨u, rfl, plain_of_isPrefix (prefix_of_storeText hu)⟩
  · rintro ⟨s, rfl, hs⟩
    rw [Option.getD_some, typedValue_of_plain hs, storeText_of_le (hv s rfl)] at hu
    exact hu.symm

theorem type_of_text (h : c.kind = .text ∨ c.kind = .password) : ∃ n, c.type = .varchar n := by
  cases c <;> first | exact ⟨_, rfl⟩ | (rcases h with h | h <;> cases h)

theorem kind_of_email : Col.email_address.kind = .text := rfl

/-- `Faithful` and `Refuses` for a text field. -/
theorem faithful_text (h : c.kind = .text ∨ c.kind = .password) (v : Option Bytes) :
    (Faithful c v ↔ (c = .email_address ∧ (v = none ∨ v = some [])) ∨
      ∃ s, v = some s ∧ Plain s ∧ (c = .email_address → ¬ Blank s)) ∧
    (Refuses c v ↔ ¬ Dropped c v ∧ (c = .email_address → ¬ Blank (typedValue (v.getD []))) ∧
      ∃ n, c.type = .varchar n ∧ storeText n (typedValue (v.getD [])) = none) := by
  unfold Faithful Refuses
  rcases h with h | h <;> rw [h] <;> exact ⟨Iff.rfl, Iff.rfl⟩

theorem not_dropped_of_plain {v : Option Bytes} {s : Bytes} (hv : v = some s) (hs : Plain s) :
    ¬ Dropped c v := by
  subst hv
  exact not_dropped fun hq => (hs.2 39 hq).1 rfl

theorem comesBack_text (h : c.kind = .text ∨ c.kind = .password) (he : c ≠ .email_address) :
    ComesBack sv a c := by
  obtain ⟨n, hn⟩ := type_of_text h
  obtain ⟨hfaith, href⟩ := faithful_text h (a.fields c)
  have hkept : ∀ v w : Option Bytes, ValueKept c v w ↔ w = v := fun v w =>
    ⟨fun hk => hk.resolve_right fun hk => he hk.1, .inl⟩
  unfold ComesBack
  rw [hfaith, href, Asset.resent, if_neg he]
  simp only [he, false_and, false_or, false_implies, true_and, and_true, hkept]
  rcases typed_text (a := a) h with ⟨hd, ht⟩ | ⟨hd, ht⟩
  · -- the field is out of the form, and NULL is stored
    rw [ht]
    refine ⟨by simp [Server.castCol, hd], ?_⟩
    rintro w ⟨rfl⟩
    constructor
    · intro hv
      exact absurd hd (not_dropped (by rw [← hv]; exact List.not_mem_nil))
    · rintro ⟨s, hv, hs⟩
      exact absurd hd (not_dropped_of_plain hv hs)
  · rw [ht, castCol_varchar sv hn]
    refine ⟨?_, ?_⟩
    · simp [hd, hn]
    · intro w hw
      obtain ⟨u, hu, rfl⟩ := Option.map_eq_some_iff.mp hw
      exact stored_iff_plain hu fun s hs => by
        have := a.fields.holds c s hs
        rw [hn] at this
        exact this

theorem emailText_blank {t : Option Bytes} (h : ∀ s, t = some s → Blank s) :
    emailText t = str "n/a" := by
  cases t with
  | none => rfl
  | some s => exact if_pos (h s rfl)

/-- A blank email address is stored as "n/a". -/
theorem comesBack_blank
    (ht : ∀ s, a.typed (fun _ => none) .email_address = some s → Blank s) :
    ComesBack sv a .email_address := by
  obtain ⟨hfaith, href⟩ := faithful_text (.inl kind_of_email) (a.fields .email_address)
  have hcast : sv.castCol .email_address (a.resent (fun _ => none) .email_address) =
      some (some (str "n/a")) := by
    rw [Asset.resent, if_pos rfl, emailText_blank ht]
    rfl
  have hplain : ∀ s, a.fields .email_address = some s → Plain s → Blank s := by
    intro s hv hs
    rcases typed_text (a := a) (.inl kind_of_email) with ⟨hd, -⟩ | ⟨-, hin⟩
    · exact absurd hd (not_dropped_of_plain hv hs)
    · rw [hv, Option.getD_some, typedValue_of_plain hs] at hin
      exact ht s hin
  unfold ComesBack
  rw [hfaith, href, hcast]
  constructor
  · constructor
    · intro h
      cases h
    · rintro ⟨hd, hb, -⟩
      rcases typed_text (a := a) (.inl kind_of_email) with ⟨hd', -⟩ | ⟨-, hin⟩
      · exact absurd hd' hd
      · exact absurd (ht _ hin) (hb rfl)
  · rintro w ⟨rfl⟩
    constructor
    · rintro (hv | ⟨-, hv, -⟩)
      · exact absurd (hplain _ hv.symm (by decide)) (by decide)
      · exact .inl ⟨rfl, hv⟩
    · rintro (⟨-, hv⟩ | ⟨s, hv, hs, hb⟩)
      · exact .inr ⟨rfl, hv, rfl⟩
      · exact absurd (hplain s hv hs) (hb rfl)

theorem comesBack_email : ComesBack sv a .email_address := by
  rcases typed_text (a := a) (.inl kind_of_email) with ⟨hd, ht⟩ | ⟨hd, ht⟩
  · exact comesBack_blank sv fun s hs => by
      rw [ht] at hs
      cases hs
  · by_cases hb : Blank (typedValue ((a.fields .email_address).getD []))
    · exact comesBack_blank sv fun s hs => by
        rw [ht] at hs
        exact Option.some.inj hs ▸ hb
    · obtain ⟨hfaith, href⟩ := faithful_text (.inl kind_of_email) (a.fields .email_address)
      have hsent : a.resent (fun _ => none) .email_address =
          some (typedValue ((a.fields .email_address).getD [])) := by
        rw [Asset.resent, if_pos rfl, ht]
        exact congrArg some (if_neg hb)
      have hset : ¬ (a.fields .email_address = none ∨ a.fields .email_address = some []) := by
        intro hv
        have hempty : (a.fields .email_address).getD [] = [] := by rcases hv with hv | hv <;> rw [hv] <;> rfl
        rw [hempty] at hb
        exact hb (by decide)
      have hlen : ∀ s, a.fields .email_address = some s → s.length ≤ 100 := fun s hs =>
        a.fields.holds .email_address s hs
      have hkept : ∀ w, ValueKept .email_address (a.fields .email_address) w ↔
          w = a.fields .email_address := fun w =>
        ⟨fun hk => hk.resolve_right fun hk => hset hk.2.1, .inl⟩
      unfold ComesBack
      rw [hfaith, href, hsent, show sv.castCol .email_address (some (typedValue
        ((a.fields .email_address).getD []))) = (storeText 100 _).map some from rfl]
      refine ⟨?_, ?_⟩
      · rw [Option.map_eq_none_iff]
        constructor
        · exact fun hn => ⟨hd, fun _ => hb, 100, rfl, hn⟩
        · rintro ⟨-, -, n, hn, hs⟩
          cases hn
          exact hs
      · intro w hw
        obtain ⟨u, hu, rfl⟩ := Option.map_eq_some_iff.mp hw
        rw [hkept, stored_iff_plain hu hlen]
        constructor
        · rintro ⟨s, hv, hs⟩
          refine .inr ⟨s, hv, hs, fun _ => ?_⟩
          rw [hv, Option.getD_some, typedValue_of_plain hs] at hb
          exact hb
        · rintro (⟨-, hv⟩ | ⟨s, hv, hs, -⟩)
          · exact absurd hv hset
          · exact ⟨s, hv, hs⟩

theorem comesBack (a : Asset) (c : Col) : ComesBack sv a c := by
  cases h : c.kind with
  | text =>
    by_cases he : c = .email_address
    · rw [he]
      exact comesBack_email sv
    · exact comesBack_text sv (.inl h) he
  | password =>
    exact comesBack_text sv (.inr h) fun he => by
      rw [he] at h
      cases h
  | date =>
    obtain rfl : c = .date_purchased := by cases c <;> first | rfl | cases h
    exact comesBack_date sv
  | select options => exact comesBack_select sv h

end

/-! ## The round trip -/

/-- The condition on the values of a row. -/
def RoundTrips (checks : Bool) (f : Fields) : Prop :=
  (checks = true ∧ ∃ c, Blocks c (f c)) ∨ (∃ c, Refuses c (f c)) ∨ ∀ c, Faithful c (f c)

theorem submission_eq_none (checks : Bool) (a : Asset) :
    submission checks (controls (editForm a)) = none ↔
      checks = true ∧ ∃ c, Blocks c (a.fields c) := by
  have hany : (controls (editForm a)).any (fun k => k.required && k.value.isEmpty) = true ↔
      ∃ c, Blocks c (a.fields c) := by
    rw [List.any_eq_true, controls_editForm]
    simp only [blocks_iff, Bool.and_eq_true, List.isEmpty_iff]
    constructor
    · rintro ⟨k, hk, hreq, hv⟩
      rcases List.mem_cons.mp hk with rfl | hk
      · cases hreq
      · rcases List.mem_append.mp hk with hk | hk
        · obtain ⟨c, -, hc⟩ := List.mem_filterMap.mp hk
          exact ⟨c, k, hc, hreq, hv⟩
        · rw [List.mem_singleton.mp hk] at hreq
          cases hreq
    · rintro ⟨c, k, hc, hreq, hv⟩
      exact ⟨k, List.mem_cons_of_mem _ (List.mem_append_left _
        (List.mem_filterMap.mpr ⟨c, Col.mem_all c, hc⟩)), hreq, hv⟩
  unfold submission
  rw [← hany, ← Bool.and_eq_true]
  split
  · next h => exact ⟨fun _ => h, fun _ => rfl⟩
  · next h => exact ⟨fun hn => (by cases hn), fun hn => absurd hn h⟩

section
variable {I : Type} [DecidableEq I] {sha256 : Bytes → Bytes} {sv : Server} {c : PageState I}
  {i : I} {env env' : Nat → Env} {a : Asset}

/-- Submitting the form of a row keeps the row just under `RoundTrips`. -/
theorem rowKept_resubmitted (checks : Bool) (hu : (c.sess i).user ≠ none)
    (ha : c.db.asset a.id = some a) :
    RowKept (resubmitted (inventory sha256 sv) checks c i a env).db a ↔
      RoundTrips checks a.fields := by
  have hback := comesBack sv a
  unfold resubmitted RoundTrips
  cases hs : submission checks (controls (editForm a)) with
  | none =>
    refine ⟨fun _ => .inl ((submission_eq_none checks a).mp hs), fun _ => ?_⟩
    exact ⟨a, ha, fun c => .inl rfl⟩
  | some es =>
    have hno : ¬ (checks = true ∧ ∃ c, Blocks c (a.fields c)) := by
      rw [← submission_eq_none, hs]
      exact Option.some_ne_none es
    have hes : submission checks (retype (fun _ => none) (controls (editForm a))) = some es := by
      rw [retype_none, hs]
    have hrow := @submit_row I _ sha256 sv c i env a a checks (fun _ => none) es hu ha hes
    simp only [hno, false_or]
    unfold RowKept
    rw [hrow]
    cases hf : sv.castAll (a.resent fun _ => none) with
    | none =>
      refine ⟨fun _ => .inl ?_, fun _ => ⟨a, rfl, fun c => .inl rfl⟩⟩
      obtain ⟨c, hc⟩ := sv.castAll_eq_none.mp hf
      exact ⟨c, (hback c).1.mp hc⟩
    | some f =>
      have hcast := sv.castAll_eq_some.mp hf
      have hrefuse : ¬ ∃ c, Refuses c (a.fields c) := by
        rintro ⟨c, hc⟩
        have hnone := (hback c).1.mpr hc
        rw [hcast c] at hnone
        cases hnone
      constructor
      · rintro ⟨b, hb, hkept⟩
        cases hb
        exact .inr fun c => ((hback c).2 _ (hcast c)).mp (hkept c)
      · intro h
        have hfaith := h.resolve_left hrefuse
        exact ⟨_, rfl, fun c => ((hback c).2 _ (hcast c)).mpr (hfaith c)⟩

/-- **When the edit form keeps its row.** A session loads the form of an asset and submits it as it
is; the row is kept just if a checking browser refuses an empty field, or the database a value, or
every value comes back from its field. -/
theorem edit_form_keeps_row_iff (checks : Bool) {body : Body}
    (h : (c.answer (inventory sha256 sv) i ⟨.edit_asset, body⟩ env).form = some a) :
    RowKept (resubmitted (inventory sha256 sv) checks
      (c.served (inventory sha256 sv) i ⟨.edit_asset, body⟩ env) i a env').db a ↔
      RoundTrips checks a.fields := by
  obtain ⟨hu, ha⟩ := form_shown h
  exact rowKept_resubmitted checks hu ha

end

/-- A request for the form of the asset 33. -/
def load33 : Body := posted [(str "manual_id", str "33")]

theorem edit_form_keeps_row_iff_sample :
    RowKept (resubmitted (inventory zeroHash .canonical) true ((loggedIn sample).served
      (inventory zeroHash .canonical) 0 ⟨.edit_asset, load33⟩ fun _ => .at 100) 0
      (sampleAsset 33 (by decide) (by decide)) fun _ => .at 101).db
      (sampleAsset 33 (by decide) (by decide)) ↔ RoundTrips true sampleFields :=
  edit_form_keeps_row_iff true (by decide)

/-- The form gives an asset without a memory one. -/
theorem memory_is_invented : ¬ ∀ (d : Db) (a : Asset) (env env' : Nat → Env),
    ((loggedIn d).answer (inventory zeroHash .canonical) 0 ⟨.edit_asset, load33⟩ env).form = some a →
    RowKept (resubmitted (inventory zeroHash .canonical) true ((loggedIn d).served
      (inventory zeroHash .canonical) 0 ⟨.edit_asset, load33⟩ env) 0 a env').db a := by
  intro h
  have hform : ((loggedIn sampleNoMemory).answer (inventory zeroHash .canonical) 0
      ⟨.edit_asset, load33⟩ fun _ => .at 100).form = some assetNoMemory := by decide
  obtain ⟨hu, ha⟩ := form_shown hform
  have hkept := (rowKept_resubmitted true hu ha).mp
    (h sampleNoMemory _ (fun _ => .at 100) (fun _ => .at 101) hform)
  rcases hkept with ⟨-, c, hc⟩ | ⟨c, hc⟩ | hc
  · obtain ⟨k, hk, -, hv⟩ := (blocks_iff assetNoMemory c).mp hc
    have hfilled : ∀ c, (assetNoMemory.control c).all (fun k => k.value != []) = true := by
      decide
    have hne := hfilled c
    rw [hk] at hne
    simp [hv] at hne
  · have hstored : ∀ c, Server.canonical.castCol c (assetNoMemory.resent (fun _ => none) c) ≠ none := by
      decide
    exact hstored c ((comesBack .canonical assetNoMemory c).1.mpr hc)
  · obtain ⟨opt, -, ho⟩ := hc .memory
    cases ho

end Inventory
