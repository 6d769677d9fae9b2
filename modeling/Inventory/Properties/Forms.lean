import Inventory.Model.Contents
import Inventory.Properties.Linearizable
import Inventory.Properties.NewEntry
import Inventory.Properties.RoundTrip

/-!
# Assets written through the forms

The pages check little of what they store, but the two forms bound what a browser
sends. When assets are written through the forms only, whatever is typed, every
asset holds offered options, a date of the calendar and texts in one line
(`forms_keep_entered`), and every select of the master list can filter for it
(`forms_keep_filterable`).
-/

namespace Inventory

open Lib Php Html

/-- How the field of a column is filled in on the edit form. -/
def Col.editFill (c : Col) : Fill :=
  match c.kind with
  | .text => .input (str "text")
  | .password => .input (str "password")
  | .date => .input (str "date")
  | .select options => .menu options

/-- New values that the fields of the edit form can hold; `T` holds of them. -/
def Retyped (T : Col → Bytes → Prop) (ch : Col → Option Bytes) : Prop :=
  ∀ c t, ch c = some t → c.editFill.Holds t ∧ T c t

/-- A request writes to the assets through the forms only: it brings a form of a new entry that is
filled in, or the form of an asset with new values in some of its fields. -/
def ByForm (T : Col → Bytes → Prop) (shown : Asset → Prop) (q : Request) : Prop :=
  match q.page with
  | .new_entry => ∀ p, q.body = .post p → ∃ (x : Entry) (checks : Bool) (es : _),
      (∀ c, T c (x.text c)) ∧ submission checks x.controls = some es ∧ p = formPost es
  | .edit_asset => (q.body.fields (str "update")).isSet = true → ∃ (a : Asset) (ch : _)
      (checks : Bool) (es : _), shown a ∧ Retyped T ch ∧
      submission checks (retype ch (controls (editForm a))) = some es ∧
      q.body = .post (formPost es)
  | _ => True

/-- What the forms give a column: an offered option, a date, or a text with `P`. -/
def Entered (P : Col → Option Bytes → Prop) (c : Col) (v : Option Bytes) : Prop :=
  match c.kind with
  | .select options => ∃ opt ∈ options, v = some opt
  | .date => ∃ s, v = some s ∧ Date.isValid s = true
  | _ => P c v

section
variable {P : Col → Option Bytes → Prop} {c : Col} {v : Option Bytes}

theorem entered_select {options : List Bytes} (h : c.kind = .select options)
    (hv : ∃ opt ∈ options, v = some opt) : Entered P c v := by
  unfold Entered
  rw [h]
  exact hv

theorem entered_text (h : c.kind = .text ∨ c.kind = .password) (hv : P c v) : Entered P c v := by
  unfold Entered
  rcases h with h | h <;> rw [h] <;> exact hv

theorem text_or_password {c : Col} (hs : ∀ options, c.kind ≠ .select options)
    (hd : c ≠ .date_purchased) : c.kind = .text ∨ c.kind = .password := by
  cases c <;> first
    | exact .inl rfl
    | exact .inr rfl
    | exact absurd rfl hd
    | exact absurd rfl (hs _)

/-- A column is shown in a select, as the date or as a text. -/
theorem kind_cases (c : Col) : (∃ options, c.kind = .select options) ∨ c = .date_purchased ∨
    (c.kind = .text ∨ c.kind = .password) := by
  by_cases hs : ∃ options, c.kind = .select options
  · exact .inl hs
  · by_cases hd : c = .date_purchased
    · exact .inr (.inl hd)
    · exact .inr (.inr (text_or_password (fun options h => hs ⟨options, h⟩) hd))

end

/-- What is left of a date in its field. -/
theorem date_held {t : Bytes} (h : Fill.Holds (.input (str "date")) t) :
    t = [] ∨ Date.isValid t = true := by
  have hs : sanitize (str "date") t = t := h.1
  rw [sanitize, if_pos rfl] at hs
  split at hs
  · next hv => exact .inr hv
  · exact .inl hs.symm

theorem castDate_held {sv : Server} {t w : Bytes} (h : t = [] ∨ Date.isValid t = true)
    (hw : sv.castDate t = some w) : Date.isValid w = true := by
  rcases h with rfl | hv
  · rw [sv.castDate_empty] at hw
    cases hw
  · rw [Date.isValid, sv.castDate_date t w hv hw]
    exact hv

/-! ## The form of a new entry -/

section
variable {sv : Server} {x : Entry} {checks : Bool} {es : List (Bytes × Bytes)} {f : Fields}
  {P : Col → Option Bytes → Prop}

/-- No required field of a stored entry is empty. -/
theorem text_given (he : submission checks x.controls = some es)
    (hm : missingFields (formPost es) = []) {c : Col} (hc : c ∈ requiredFields) :
    x.text c ≠ [] := by
  have h := not_missing hm hc
  rw [filled_entry he c] at h
  rintro hnil
  rw [hnil] at h
  cases h

/-- **What new_entry.php stores of its form.** -/
theorem entered_new (he : submission checks x.controls = some es)
    (hm : missingFields (formPost es) = []) (hf : sv.castAll (newValues (formPost es)) = some f)
    (hP : ∀ c n w, storeText n (normalised newEmail x.text c) = some w → P c (some w)) (c : Col) :
    Entered P c (f c) := by
  have hc : sv.castCol c (some (normalised newEmail x.text c)) = some (f c) := by
    rw [newValues_filled (filled_entry he)] at hf
    exact sv.castAll_eq_some.mp hf c
  rcases kind_cases c with ⟨options, h⟩ | rfl | h
  · obtain ⟨-, -, n, hn, hlen⟩ := options_spec h
    have hreq : c ∈ requiredFields ∧ c ≠ .email_address := by
      cases c <;> cases h <;> exact ⟨by decide, by decide⟩
    have hmem : x.text c ∈ [] :: c.newOptions := by
      have := holds_text x c
      unfold Col.fill at this
      rw [h] at this
      exact this
    have hopt : x.text c ∈ options :=
      (offers_alike h).mem_iff.mp ((List.mem_cons.mp hmem).resolve_left (text_given he hm hreq.1))
    rw [normalised, if_neg hreq.2, castCol_varchar sv hn, storeText_of_le (hlen _ hopt)] at hc
    exact entered_select h ⟨_, hopt, (Option.some.inj hc).symm⟩
  · obtain ⟨w, hw, hfc⟩ := Option.map_eq_some_iff.mp hc
    exact ⟨w, hfc.symm, castDate_held (date_held (holds_text x .date_purchased)) hw⟩
  · obtain ⟨n, hn⟩ := type_of_text h
    rw [castCol_varchar sv hn] at hc
    obtain ⟨w, hw, hfc⟩ := Option.map_eq_some_iff.mp hc
    rw [← hfc]
    exact entered_text h (hP c n w hw)

end

/-! ## The edit form -/

section
variable {sv : Server} {a : Asset} {ch : Col → Option Bytes} {f : Fields}
  {P : Col → Option Bytes → Prop}

theorem typed_eq (a : Asset) (ch : Col → Option Bytes) (c : Col) :
    a.typed ch c = (a.typed (fun _ => none) c).map fun v => (ch c).getD v := by
  unfold Asset.typed
  cases a.control c <;> rfl

/-- **What edit_asset.php stores of a form**, of whatever asset it is. -/
theorem entered_edit {T : Col → Bytes → Prop} (ht : Retyped T ch)
    (hf : sv.castAll (a.resent ch) = some f)
    (hP : ∀ c, c.kind = .text ∨ c.kind = .password → ∀ w,
      sv.castCol c (a.resent ch c) = some w → P c w) (c : Col) : Entered P c (f c) := by
  have hc := sv.castAll_eq_some.mp hf c
  rcases kind_cases c with ⟨options, h⟩ | rfl | h
  · obtain ⟨-, -, n, hn, hlen⟩ := options_spec h
    obtain ⟨opt, ho, htyped, -⟩ := typed_select (a := a) h
    have he : c ≠ .email_address := by
      rintro rfl
      cases h
    have hopt : (ch c).getD opt ∈ options := by
      cases hch : ch c with
      | none => exact ho
      | some t =>
        have hfill := (ht c t hch).1
        unfold Col.editFill at hfill
        rw [h] at hfill
        exact hfill
    rw [Asset.resent, if_neg he, typed_eq, htyped, Option.map_some, castCol_varchar sv hn,
      storeText_of_le (hlen _ hopt)] at hc
    exact entered_select h ⟨_, hopt, (Option.some.inj hc).symm⟩
  · have hheld : ∀ t, a.typed ch .date_purchased = some t → t = [] ∨ Date.isValid t = true := by
      intro t htyped
      have hsent : a.typed (fun _ => none) .date_purchased =
          some (sanitize (str "date") ((a.fields .date_purchased).getD [])) := rfl
      rw [typed_eq, hsent, Option.map_some] at htyped
      obtain rfl := Option.some.inj htyped
      cases hch : ch .date_purchased with
      | none =>
        rw [Option.getD_none, sanitize, if_pos rfl]
        split
        · next hv => exact .inr hv
        · exact .inl rfl
      | some t => exact date_held (ht _ t hch).1
    cases htyped : a.typed ch .date_purchased with
    | none => cases htyped
    | some t =>
      rw [Asset.resent, if_neg (by decide), htyped] at hc
      obtain ⟨w, hw, hfc⟩ := Option.map_eq_some_iff.mp hc
      exact ⟨w, hfc.symm, castDate_held (hheld _ htyped) hw⟩
  · exact entered_text h (hP c h _ hc)

end

/-- **What a request brings that writes through the forms.** -/
theorem ByForm.brings {sv : Server} {P : Col → Option Bytes → Prop} {T : Col → Bytes → Prop}
    {shown : Asset → Prop} {q : Request} (hq : ByForm T shown q)
    (hnew : ∀ x : Entry, (∀ c, T c (x.text c)) → ∀ c n w,
      storeText n (normalised newEmail x.text c) = some w → P c (some w))
    (hedit : ∀ a ch, shown a → Retyped T ch → ∀ c, c.kind = .text ∨ c.kind = .password → ∀ w,
      sv.castCol c (a.resent ch c) = some w → P c w) :
    q.Brings sv fun f => ∀ c, Entered P c (f c) := by
  obtain ⟨page, b⟩ := q
  cases page with
  | new_entry =>
    intro p hp hm f hf
    obtain ⟨x, checks, es, hT, he, rfl⟩ := hq p hp
    exact entered_new he hm hf (hnew x hT)
  | edit_asset =>
    intro hset f hf
    obtain ⟨a, ch, checks, es, ha, ht, he, rfl⟩ := hq hset
    obtain ⟨hv, -, -⟩ := formPost_submission he
    have hf' : sv.castAll (editValues (formPost es)) = some f := hf
    rw [hv] at hf'
    exact entered_edit ht hf' (hedit a ch ha ht)
  | _ => trivial

/-! ## Whatever is typed -/

/-- A text of an asset stands in one line. -/
def LineText (_ : Col) (v : Option Bytes) : Prop := ∀ s, v = some s → OneLine s

theorem oneLine_typedValue (v : Bytes) : OneLine (typedValue v) := by
  refine ⟨?_, fun b hb => ⟨(mem_typedValue hb).2.2.1, (mem_typedValue hb).2.2.2⟩⟩
  have hreadable : Utf8.valid (readable v) = true := by
    unfold readable
    split
    · assumption
    · rfl
  unfold typedValue
  rw [List.filter_flatMap]
  refine Utf8.valid_flatMap (fun b hb => ?_) (fun b hb => ?_)
    (Utf8.valid_takeWhile (by decide) hreadable)
  · have hne : b ≠ 0 ∧ b ≠ 10 ∧ b ≠ 13 := by
      refine ⟨?_, ?_, ?_⟩ <;> rintro rfl <;> exact absurd hb (by decide)
    simp [attrByte, hne]
  · unfold attrByte
    split
    · decide
    · refine Utf8.valid_of_ascii fun c hc => ?_
      obtain rfl := List.mem_singleton.mp (List.mem_filter.mp hc).1
      exact hb

theorem oneLine_held {c : Col} {t : Bytes} (hc : c.kind = .text ∨ c.kind = .password)
    (h : c.editFill.Holds t) : OneLine t := by
  unfold Col.editFill at h
  rcases hc with hc | hc <;> rw [hc] at h
  · exact oneLine_sanitized (.inr (.inl rfl)) h
  · exact oneLine_sanitized (.inr (.inr rfl)) h

section
variable {sv : Server} {a : Asset} {ch : Col → Option Bytes} {T : Col → Bytes → Prop} {c : Col}

/-- What a text field sends stands in one line. -/
theorem oneLine_typed (ht : Retyped T ch) (hc : c.kind = .text ∨ c.kind = .password) {t : Bytes}
    (h : a.typed ch c = some t) : OneLine t := by
  rw [typed_eq] at h
  rcases typed_text (a := a) hc with ⟨-, hn⟩ | ⟨-, hs⟩
  · rw [hn] at h
    cases h
  · rw [hs, Option.map_some] at h
    obtain rfl := Option.some.inj h
    cases hch : ch c with
    | none => exact oneLine_typedValue _
    | some t => exact oneLine_held hc (ht c t hch).1

theorem emailText_eq (t : Option Bytes) : emailText t = str "n/a" ∨ t = some (emailText t) := by
  cases t with
  | none => exact .inl rfl
  | some s =>
    unfold emailText
    dsimp only
    split
    · exact .inl rfl
    · exact .inr rfl

theorem oneLine_resent (ht : Retyped T ch) (hc : c.kind = .text ∨ c.kind = .password) {t : Bytes}
    (h : a.resent ch c = some t) : OneLine t := by
  unfold Asset.resent at h
  split at h
  · next he =>
    obtain rfl := Option.some.inj h
    rcases emailText_eq (a.typed ch c) with hn | hs
    · rw [hn]
      exact oneLine_na
    · exact oneLine_typed ht hc hs
  · exact oneLine_typed ht hc h

theorem lineText_edit (ht : Retyped T ch) (hc : c.kind = .text ∨ c.kind = .password)
    {w : Option Bytes} (hw : sv.castCol c (a.resent ch c) = some w) : LineText c w := by
  rintro s rfl
  obtain ⟨n, hn⟩ := type_of_text hc
  cases hr : a.resent ch c with
  | none =>
    rw [hr] at hw
    cases hw
  | some t =>
    rw [hr, castCol_varchar sv hn] at hw
    obtain ⟨u, hu, hs⟩ := Option.map_eq_some_iff.mp hw
    cases hs
    exact oneLine_storeText hu (oneLine_resent ht hc hr)

end

section
variable {I : Type} [DecidableEq I] {sha256 : Bytes → Bytes} {sv : Server} {c₀ c : PageState I}
  {evs : List (PageEvent I)} {ok : PageState I → PageEvent I → Prop}

/-- The requests of a history write to the assets through the forms, of whatever assets and with
whatever values. -/
def ThroughForms (evs : List (PageEvent I)) : Prop :=
  Always (fun _ ev => ∀ i q, ev = .start i q → ByForm (fun _ _ => True) (fun _ => True) q) evs

/-- Every asset holds what the forms give. -/
def AllEntered (d : Db) : Prop := ∀ a ∈ d.assets.rows, ∀ c, Entered LineText c (a.fields c)

theorem run_entered (h0 : AtRest c₀) (hrows : AllEntered c₀.db)
    (h : Run (inventory sha256 sv) ok c₀ evs c) (hforms : ThroughForms evs) :
    c.db.Holds fun f => ∀ col, Entered LineText col (f col) := by
  have hstart : c₀.db.Holds fun f => ∀ col, Entered LineText col (f col) := holds_iff.mpr hrows
  refine run_holds hstart h0.sess h0.idle h fun before ev after he i q hev _ => ?_
  refine (hforms before ev after he i q hev).brings (fun x _ c n w hw s hs => ?_)
    fun a ch _ ht c hc w hw => lineText_edit ht hc hw
  cases hs
  exact oneLine_storeText hw (oneLine_normalised x c)

/-- **The forms bound what the assets hold.** As long as assets are written through the forms, of
whatever assets and with whatever values, every asset of every state holds offered options in the
columns with a select, a date of the calendar, and texts in one line. -/
theorem forms_keep_entered (h0 : AtRest c₀) (hrows : AllEntered c₀.db)
    (h : Run (inventory sha256 sv) ok c₀ evs c) (hforms : ThroughForms evs) : AllEntered c.db :=
  holds_iff.mp (run_entered h0 hrows h hforms)

end

/-! ## The filters -/

/-- DISTINCT keeps a value equal to each one, and the collation tells the options apart. -/
structure TellsOptions (sv : Server) : Prop where
  distinct : ∀ l v, some v ∈ l → ∃ w, some w ∈ sv.distinct l ∧ sv.same w v = true
  options : ∀ {c : Col} {options : List Bytes}, c.kind = .select options →
    ∀ o ∈ options, ∀ o' ∈ options, sv.same o o' = true → o = o'

theorem select_of_filter (f : FilterSelect) : ∃ options, f.column.kind = .select options := by
  cases f <;> exact ⟨_, rfl⟩

theorem option_read {c : Col} {options : List Bytes} (h : c.kind = .select options) :
    ∀ o ∈ options, Utf8.valid o = true ∧ textContent o = o ∧ collapse o = o ∧ o ≠ [] := by
  cases c <;> cases h <;> decide

section
variable {br : Browser} {sv : Server} {d : Db} {f : FilterSelect} {options : List Bytes}

theorem option_of_entered (hd : AllEntered d) (hf : f.column.kind = .select options) {a : Asset}
    (ha : a ∈ d.assets.rows) : ∃ o ∈ options, a.fields f.column = some o := by
  have he := hd a ha f.column
  unfold Entered at he
  rw [hf] at he
  exact he

/-- The cell of an option shows it. -/
theorem filterCell_option (hf : f.column.kind = .select options) {a : Asset} {o : Bytes}
    (ho : o ∈ options) (hv : a.fields f.column = some o) : a.filterCell sv f = o := by
  obtain ⟨hvalid, hshown, -⟩ := option_read hf o ho
  have hget : (a.fetch sv (.col f.column)).getD [] = o := by
    show (a.fields f.column).getD [] = o
    rw [hv]
    rfl
  rw [Asset.filterCell, Asset.cellText, Asset.readBack, hget, if_pos hvalid, hshown]

/-- Every option that an asset holds can be chosen. -/
theorem option_offered (hs : TellsOptions sv) (hd : AllEntered d)
    (hf : f.column.kind = .select options) {a : Asset} (ha : a ∈ d.assets.rows) {o : Bytes}
    (ho : o ∈ options) (hv : a.fields f.column = some o) :
    o ∈ br.optionValues (f.options (d.values sv)) := by
  by_cases hm : f = .memory
  · subst hm
    rw [FilterSelect.options, if_pos rfl, optionValues_memory]
    cases hf
    exact ho
  · have hvalues : ∀ v ∈ d.values sv f.column, ∃ w ∈ options, v = some w := by
      intro v hv
      obtain ⟨b, hb, rfl⟩ := List.mem_map.mp (sv.distinct_subset _ v hv)
      exact option_of_entered hd hf hb
    have htexts : ∀ t ∈ (d.values sv f.column).map (fun v => v.getD []),
        Utf8.valid t = true ∧ ∀ b ∈ t, b ≠ 60 ∧ b ≠ 38 := by
      intro t ht
      obtain ⟨v, hv, rfl⟩ := List.mem_map.mp ht
      obtain ⟨w, hw, rfl⟩ := hvalues v hv
      exact ⟨(option_read hf w hw).1, fun b hb =>
        ⟨(literal_options hf w hw b hb).2.2.2, (literal_options hf w hw b hb).2.2.1⟩⟩
    obtain ⟨w, hw, hsame⟩ := hs.distinct (d.assets.rows.map fun a => a.fields f.column) o
      (List.mem_map.mpr ⟨a, ha, hv⟩)
    obtain ⟨w', hw', he⟩ := hvalues (some w) hw
    obtain rfl := Option.some.inj he
    obtain rfl := hs.options hf w hw' o ho hsame
    obtain ⟨-, hshown, hcollapse, -⟩ := option_read hf w ho
    rw [FilterSelect.options, if_neg hm, br.optionValues_text _ htexts, List.map_map]
    refine List.mem_map.mpr ⟨some w, hw, ?_⟩
    show collapse (textContent w) = w
    rw [hshown, hcollapse]

/-- Choosing an option shows the assets that hold it. -/
theorem shows_option (hd : AllEntered d) (hf : f.column.kind = .select options) {o : Bytes}
    (ho : o ∈ options) {j : Nat} {b : Asset} (hj : d.assets.rows[j]? = some b) :
    ((Screen.load sv d.assets.rows).on br.letterCase (.filter f o)).1.shows j = true ↔
      SameCase br (b.filterValue f) o := by
  obtain ⟨w, hw, hv⟩ := option_of_entered hd hf (List.mem_of_getElem? hj)
  have hvalue : b.filterValue f = w := by
    rw [Asset.filterValue, hv]
    rfl
  obtain ⟨-, -, -, hne⟩ := option_read hf o ho
  rw [shows_choice hj o, filterCell_option hf hw hv, hvalue]
  exact ⟨fun h => h hne, fun h _ => h⟩

end

section
variable {I : Type} [DecidableEq I] {sha256 : Bytes → Bytes} {sv : Server} {c₀ c : PageState I}
  {evs : List (PageEvent I)} {ok : PageState I → PageEvent I → Prop}

/-- **Assets that went through the forms can be filtered for.** In every state every asset holds
an option of each select of the master list, the select offers it, and choosing it shows the assets
that hold it, letter case apart, and hides all others. -/
theorem forms_keep_filterable (br : Browser) (hs : TellsOptions sv) (h0 : AtRest c₀)
    (hrows : AllEntered c₀.db) (h : Run (inventory sha256 sv) ok c₀ evs c)
    (hforms : ThroughForms evs) (f : FilterSelect) {a : Asset} (ha : a ∈ c.db.assets.rows) :
    ∃ v, a.fields f.column = some v ∧ v ≠ [] ∧
      v ∈ br.optionValues (f.options (c.db.values sv)) ∧
      ∀ j b, c.db.assets.rows[j]? = some b →
        (((Screen.load sv c.db.assets.rows).on br.letterCase (.filter f v)).1.shows j = true ↔
          SameCase br (b.filterValue f) v) := by
  obtain ⟨options, hf⟩ := select_of_filter f
  have hall : AllEntered c.db := holds_iff.mp (run_entered h0 hrows h hforms)
  obtain ⟨o, ho, hv⟩ := option_of_entered hall hf ha
  obtain ⟨-, -, -, hne⟩ := option_read hf o ho
  exact ⟨o, hv, hne, option_offered hs hall hf ha ho hv, fun _ _ hj => shows_option hall hf ho hj⟩

end

/-! ## The form of an asset of the sample -/

theorem entered_sample : AllEntered sample := by
  have hall : ∀ c, Entered LineText c (some (sampleText c)) := by
    intro c
    cases c <;> first
      | exact ⟨_, by decide, rfl⟩
      | exact ⟨_, rfl, by decide⟩
      | exact fun s hs => Option.some.inj hs ▸ (by decide : OneLine (str _))
  intro a ha c
  rcases List.mem_cons.mp ha with rfl | ha
  · exact hall c
  · cases List.mem_singleton.mp ha
    exact hall c

theorem submission_unchecked (ks : List Control) :
    submission false ks = some (ks.map fun k => (k.name, k.value)) := rfl

/-- A value typed or chosen in the field of one column. -/
def typedIn (col : Col) (t : Bytes) (c : Col) : Option Bytes := if c = col then some t else none

theorem retyped_typedIn {T : Col → Bytes → Prop} {col : Col} {t : Bytes}
    (h : col.editFill.Holds t) (hT : T col t) : Retyped T (typedIn col t) := by
  intro c u hu
  unfold typedIn at hu
  split at hu
  · next hc =>
    cases hu
    rw [hc]
    exact ⟨h, hT⟩
  · cases hu

/-- The form of the asset 33 with a new value in one field. -/
def retyped33 (col : Col) (t : Bytes) : Request :=
  ⟨.edit_asset, .post (formPost ((retype (typedIn col t) (controls (editForm asset33))).map
    fun k => (k.name, k.value)))⟩

theorem byForm_retyped33 {T : Col → Bytes → Prop} {shown : Asset → Prop} {col : Col} {t : Bytes}
    (hs : shown asset33) (ht : Retyped T (typedIn col t)) : ByForm T shown (retyped33 col t) :=
  fun _ => ⟨asset33, typedIn col t, false, _, hs, ht, submission_unchecked _, rfl⟩

theorem always_nil {P : List (PageEvent Nat) → PageEvent Nat → Prop} : Always P [] :=
  fun _ _ _ he => by simp at he

/-- A run that submits the form of the asset 33 with a new value. -/
theorem throughForms_retyped33 {col : Col} {t : Bytes} (h : col.editFill.Holds t) :
    ∃ evs, Run (inventory zeroHash .canonical) (onSent anySent) (loggedIn sample) evs
        ((loggedIn sample).served (inventory zeroHash .canonical) 0 (retyped33 col t)
          fun _ => .at 100) ∧
      ThroughForms evs := by
  have hq : ByForm (fun _ _ => True) (fun _ => True) (retyped33 col t) :=
    byForm_retyped33 trivial (retyped_typedIn h trivial)
  generalize retyped33 col t = q at hq
  have hr := (run_nothing (loggedIn sample)).serve 0 q (fun _ => .at 100) rfl
    (Proc.meets_of_forall _ (fun _ _ _ => trivial) _ _ _)
  refine ⟨_, hr, always_nil.serving (fun i q' he => ?_) fun _ ev hev i q' he => absurd he (hev i q')⟩
  obtain ⟨-, rfl⟩ := Event.start.inj he
  exact hq

/-- A quote is typed. -/
theorem forms_keep_entered_sample :
    AllEntered ((loggedIn sample).served (inventory zeroHash .canonical) 0
      (retyped33 .asset_tag (str "O'Neil")) fun _ => .at 100).db := by
  obtain ⟨_, hr, hforms⟩ := @throughForms_retyped33 .asset_tag (str "O'Neil") (by decide)
  exact forms_keep_entered (atRest_loggedIn sample) entered_sample hr hforms

theorem tellsOptions_canonical : TellsOptions .canonical where
  distinct _ v hv := ⟨v, List.mem_dedup.mpr hv, beq_self_eq_true v⟩
  options _ _ _ _ _ h := beq_iff_eq.mp h

/-- Another processor is chosen for the asset 33. -/
theorem forms_keep_filterable_sample :
    let c := (loggedIn sample).served (inventory zeroHash .canonical) 0
      (retyped33 .processor (str "Intel Core i3")) fun _ => .at 100
    ∃ a, c.db.asset 33 = some a ∧ a.fields .processor = some (str "Intel Core i3") ∧
      str "Intel Core i3" ∈
        Browser.ascii.optionValues (FilterSelect.processor.options (c.db.values .canonical)) ∧
      ∀ j b, c.db.assets.rows[j]? = some b →
        (((Screen.load .canonical c.db.assets.rows).on .ascii
            (.filter .processor (str "Intel Core i3"))).1.shows j = true ↔
          SameCase .ascii (b.filterValue .processor) (str "Intel Core i3")) := by
  have hstored : (Server.canonical.castAll
      (asset33.resent (typedIn .processor (str "Intel Core i3")))).map (fun f => f .processor) =
        some (some (str "Intel Core i3")) := by
    decide
  obtain ⟨f, hf, hi3⟩ := Option.map_eq_some_iff.mp hstored
  have hrow := @submit_row Nat _ zeroHash .canonical (loggedIn sample) 0 (fun _ => .at 100)
    asset33 asset33 false (typedIn .processor (str "Intel Core i3")) _ (by decide) rfl
    (submission_unchecked _)
  rw [hf] at hrow
  obtain ⟨_, hr, hforms⟩ := @throughForms_retyped33 .processor (str "Intel Core i3") (by decide)
  unfold retyped33 at hr ⊢
  generalize (loggedIn sample).served _ _ _ _ = c at hrow hr ⊢
  obtain ⟨v, hv, -, hoffered, hshows⟩ := forms_keep_filterable .ascii tellsOptions_canonical
    (atRest_loggedIn sample) entered_sample hr hforms .processor (Table.get?_eq_some.mp hrow).1
  obtain rfl : str "Intel Core i3" = v := Option.some.inj (hi3.symm.trans hv)
  exact ⟨_, hrow, hi3, hoffered, hshows⟩

end Inventory
