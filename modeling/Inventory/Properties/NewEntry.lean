import Inventory.Model.NewEntryForm
import Inventory.Properties.Export
import Inventory.Properties.Injection
import Inventory.Properties.Writers

/-!
# A new entry, from the form to the list

A user fills in the form of new_entry.php and submits it. `entry_outcome` says
what becomes of it: a browser that checks sends no empty required field, so
new_entry.php refuses a form just for a required "0", and the database one for a
text that does not fit or a year past 9999. `entry_listed` follows an accepted
entry to the row that a browser reads in the master list.
-/

namespace Inventory

open Lib Php Html

/-- The form of new_entry.php as a browser reads it, filled in. -/
abbrev Entry := Filling newFields

namespace Entry

variable (x : Entry)

/-- What is entered for a column. -/
def text (c : Col) : Bytes := x.value c.name

/-- What the column stores of it; `none` when it does not fit. A date is stored as it is, one
whose year is written in more than four digits as the database reads it. -/
def stored (sv : Server) (c : Col) : Option Bytes :=
  match c.type with
  | .varchar n => storeText n (normalised newEmail x.text c)
  | .date => if Date.isStored (x.text c) then some (x.text c) else sv.castDate (x.text c)

/-- The required fields that hold "0". -/
def zeroes : List Col := requiredFields.filter fun c => x.text c == str "0"

/-- The entry is stored in a table. -/
structure Accepted (sv : Server) (t : Table Asset Asset.id) : Prop where
  zeroes : x.zeroes = []
  fits : ∀ c, x.stored sv c ≠ none
  room : t.next ≤ INT_MAX

instance (sv : Server) (t : Table Asset Asset.id) : Decidable (x.Accepted sv t) :=
  decidable_of_iff (x.zeroes = [] ∧ (∀ c, x.stored sv c ≠ none) ∧ t.next ≤ INT_MAX)
    ⟨fun h => ⟨h.1, h.2.1, h.2.2⟩, fun h => ⟨h.zeroes, h.fits, h.room⟩⟩

/-- What new_entry.php says to an entry that is not stored. -/
def refusal (message : Bytes) : Bytes :=
  if x.zeroes = [] then str "❌ Database error: " ++ message
  else str "⚠️ Missing fields: " ++ implode (str ", ") (x.zeroes.map Col.name)

end Entry

section
variable {x : Entry} {es : List (Bytes × Bytes)} {checks : Bool}

theorem field_mem (c : Col) : c.field ∈ newFields := by
  rw [newFields_eq]
  exact List.mem_map_of_mem (Col.mem_all c)

theorem holds_text (x : Entry) (c : Col) : c.fill.Holds (x.text c) := x.holds c.field (field_mem c)

/-- The form is posted with a text in every field. -/
theorem filled_entry (he : submission checks x.controls = some es) :
    Filled x.text (formPost es) := by
  obtain rfl := entries_filling he
  intro c
  refine formPost_of_mem ?_ (List.mem_map.mpr ⟨c.field, field_mem c, rfl⟩)
  have hnames : newFields.map Field.name = Col.all.map Col.name := by
    rw [newFields_eq, List.map_map]
    rfl
  rw [List.map_map]
  show (newFields.map Field.name).Nodup
  rw [hnames]
  decide

theorem text_ne_nil (he : submission true x.controls = some es) {c : Col}
    (hc : c ∈ requiredFields) : x.text c ≠ [] := by
  refine (submission_filling.mp he).1 c.field (field_mem c) ?_
  have hreq : ∀ c ∈ requiredFields, c.field.required = true := by decide
  exact hreq c hc

theorem missingFields_entry (he : submission true x.controls = some es) :
    missingFields (formPost es) = x.zeroes := by
  refine List.filter_congr fun c hc => ?_
  rw [filled_entry he c, Bool.eq_iff_iff, isEmpty_str, or_iff_right (text_ne_nil he hc),
    beq_iff_eq]

/-- **What is stored of an entry.** -/
theorem castCol_entry (sv : Server) (x : Entry) (c : Col) :
    sv.castCol c (some (normalised newEmail x.text c)) = (x.stored sv c).map some := by
  unfold Server.castCol Server.cast Entry.stored
  cases ht : c.type with
  | varchar n => rfl
  | date =>
    obtain rfl : c = .date_purchased := by cases c <;> first | rfl | cases ht
    show (sv.castDate (x.text .date_purchased)).map some =
      (if Date.isStored (x.text .date_purchased) then some (x.text .date_purchased)
        else sv.castDate (x.text .date_purchased)).map some
    split
    · next hs => rw [sv.castDate_self _ hs]
    · rfl

/-- The date of an entry is one. -/
theorem date_entry (he : submission true x.controls = some es) :
    Date.isValid (x.text .date_purchased) = true := by
  have hdate : sanitize (str "date") (x.text .date_purchased) = x.text .date_purchased :=
    (holds_text x .date_purchased).1
  by_contra hv
  rw [sanitize, if_pos rfl, if_neg hv] at hdate
  exact text_ne_nil he (by decide) hdate.symm

/-- The date that is stored is the one that was entered. -/
theorem stored_date {sv : Server} (he : submission true x.controls = some es) {w : Bytes}
    (hw : x.stored sv .date_purchased = some w) :
    Date.parse w = Date.parse (x.text .date_purchased) ∧ Date.isStored w = true := by
  change (if Date.isStored (x.text .date_purchased) then some (x.text .date_purchased)
    else sv.castDate (x.text .date_purchased)) = some w at hw
  split at hw
  · next hs =>
    obtain rfl := Option.some.inj hw
    exact ⟨rfl, hs⟩
  · exact ⟨sv.castDate_date _ w (date_entry he) hw, sv.castDate_stored _ w hw⟩

end

/-! ## What becomes of an entry -/

section
variable {sv : Server} {s : Session} {x : Entry} {es : List (Bytes × Bytes)} {d : Db}
  {env : Nat → Env}

/-- An accepted entry is a row under the next id, with what is stored of it. -/
theorem insert_accepted (he : submission true x.controls = some es)
    (ha : x.Accepted sv d.assets) :
    ∃ g t, sv.castAll (newValues (formPost es)) = some g ∧ (∀ c, g c = x.stored sv c) ∧
      insertNext g (env 0).now d.assets = some t := by
  have hcol : ∀ c, sv.castCol c (newValues (formPost es) c) = (x.stored sv c).map some := by
    intro c
    rw [newValues_filled (filled_entry he)]
    exact castCol_entry sv x c
  cases hg : sv.castAll (newValues (formPost es)) with
  | none =>
    obtain ⟨c, hc⟩ := sv.castAll_eq_none.mp hg
    rw [hcol] at hc
    exact absurd (Option.map_eq_none_iff.mp hc) (ha.fits c)
  | some g =>
    refine ⟨g, _, rfl, fun c => ?_, dif_pos ha.room⟩
    obtain ⟨v, hv⟩ := Option.ne_none_iff_exists'.mp (ha.fits c)
    have hgc := sv.castAll_eq_some.mp hg c
    rw [hcol, hv] at hgc
    rw [hv]
    exact (Option.some.inj hgc).symm

/-- An entry that no required "0" keeps back is refused when it is not accepted. -/
theorem insert_refused (he : submission true x.controls = some es) (hz : x.zeroes = [])
    (ha : ¬ x.Accepted sv d.assets) :
    ((sv.castAll (newValues (formPost es))).bind
      fun g => insertNext g (env 0).now d.assets) = none := by
  by_contra hne
  obtain ⟨t, ht⟩ := Option.ne_none_iff_exists'.mp hne
  obtain ⟨g, hg, hins⟩ := Option.bind_eq_some_iff.mp ht
  refine ha ⟨hz, fun c hc => ?_, ?_⟩
  · have hgc := sv.castAll_eq_some.mp hg c
    rw [newValues_filled (filled_entry he), castCol_entry sv x, hc] at hgc
    cases hgc
  · by_contra hroom
    rw [insertNext, dif_neg hroom] at hins
    cases hins

/-- new_entry.php after the reply to its INSERT. -/
def afterInsert (s : Session) (username : Bytes) : Except Bytes Int → Handler
  | .ok new_id => do
    writeLog username (addedAction new_id)
    pure (s, .redirect (str "masterlist.php"))
  | .error e => pure (s, .new_entry (str "❌ Database error: " ++ e))

theorem new_entry_run {u : Bytes} {p : Post} (hu : s.user = some u) (hm : missingFields p = []) :
    (new_entry s (.post p)).run (exec sv) env d =
      (afterInsert s u (exec sv (env 0) (.insertAsset (newValues p)) d).1).run (exec sv)
        (fun n => env (n + 1)) (exec sv (env 0) (.insertAsset (newValues p)) d).2 := by
  unfold new_entry
  rw [hu]
  dsimp only
  rw [if_neg (not_not.mpr hm)]
  rfl

theorem new_entry_stored (hu : s.user ≠ none) (he : submission true x.controls = some es)
    (ha : x.Accepted sv d.assets) :
    ((new_entry s (.post (formPost es))).run (exec sv) env d).1.2 =
        .redirect (str "masterlist.php") ∧
      ∃ r : Asset, r.id = d.assets.next ∧ (∀ c, r.fields c = x.stored sv c) ∧
        ((new_entry s (.post (formPost es))).run (exec sv) env d).2.assets.rows =
          d.assets.rows ++ [r] := by
  have hm : missingFields (formPost es) = [] := (missingFields_entry he).trans ha.zeroes
  obtain ⟨g, t, hg, hfields, hins⟩ := @insert_accepted sv x es d env he ha
  obtain ⟨r, hid, hr, hrows, -⟩ := insertNext_row hins
  refine ⟨?_, r, hid, fun c => by rw [hr, hfields], ?_⟩
  · obtain ⟨u, hu⟩ := Option.ne_none_iff_exists'.mp hu
    have hok : (exec sv (env 0) (.insertAsset (newValues (formPost es))) d).1 =
        Except.ok (ε := Bytes) (α := Int) d.assets.next := by
      simp only [exec, hg, Option.bind_some, hins]
      rfl
    have hends : (afterInsert s u (.ok d.assets.next)).Ends
        fun a => a.2 = .redirect (str "masterlist.php") :=
      (ends_true _).bind fun _ _ => rfl
    rw [new_entry_run hu hm, hok]
    exact hends.run (exec sv) _ _
  · rw [new_entry_assets hu, newAssets, if_pos hm]
    simp only [execAssets, hg, Option.bind_some, hins, Option.getD_some]
    exact hrows

theorem new_entry_refused (hu : s.user ≠ none) (he : submission true x.controls = some es)
    (ha : ¬ x.Accepted sv d.assets) :
    (new_entry s (.post (formPost es))).run (exec sv) env d =
      ((s, .new_entry (x.refusal (env 0).message)), d) := by
  obtain ⟨u, hu⟩ := Option.ne_none_iff_exists'.mp hu
  have hm := missingFields_entry he
  unfold Entry.refusal
  by_cases hz : x.zeroes = []
  · have herr : exec sv (env 0) (.insertAsset (newValues (formPost es))) d =
        ((.error (env 0).message : Except Bytes Int), d) := by
      simp only [exec, @insert_refused sv x es d env he hz ha]
      rfl
    rw [new_entry_run hu (hm.trans hz), herr, if_pos hz]
    rfl
  · unfold new_entry
    rw [hu]
    dsimp only
    rw [hm, if_pos hz, if_neg hz]
    rfl

end

section
variable {I : Type} [DecidableEq I] {sha256 : Bytes → Bytes} {sv : Server} {c : PageState I}
  {i : I} {env : Nat → Env} {x : Entry} {es : List (Bytes × Bytes)}

/-- **What becomes of a new entry.** A checking browser sends the form; it is accepted iff no
required field holds "0", every text fits its column and there is an id left. Then the table gains
one row, under the next id and with what was entered, the date in a year of four digits; else
nothing changes, and the page says what is wrong. -/
theorem entry_outcome (hu : (c.sess i).user ≠ none) (he : submission true x.controls = some es) :
    let q : Request := ⟨.new_entry, .post (formPost es)⟩
    let c' := c.served (inventory sha256 sv) i q env
    if x.Accepted sv c.db.assets then
      c.answer (inventory sha256 sv) i q env = .redirect (str "masterlist.php") ∧
        ∃ r : Asset, r.id = c.db.assets.next ∧ (∀ col, r.fields col = x.stored sv col) ∧
          c'.db.assets.rows = c.db.assets.rows ++ [r] ∧
          ∃ p : Date.Parts, Date.parse (x.text .date_purchased) = some p ∧ p.year ≤ 9999 ∧
            (r.fields .date_purchased).bind Date.parse = some p
    else
      c.answer (inventory sha256 sv) i q env = .new_entry (x.refusal (env 0).message) ∧
        c'.db = c.db := by
  intro q c'
  split
  · next ha =>
    obtain ⟨hanswer, r, hid, hr, hrows⟩ := @new_entry_stored sv (c.sess i) x es c.db env hu he ha
    obtain ⟨w, hw⟩ := Option.ne_none_iff_exists'.mp (ha.fits .date_purchased)
    obtain ⟨hparse, hstored⟩ := stored_date he hw
    cases hp : Date.parse w with
    | none => simp [Date.isStored, hp] at hstored
    | some p =>
      refine ⟨hanswer, r, hid, hr, hrows, p, hparse.symm.trans hp,
        Date.year_of_isStored hstored hp, ?_⟩
      rw [hr, hw, Option.bind_some, hp]
  · next ha =>
    have hrun : ((inventory sha256 sv).handle q (c.sess i)).run (exec sv) env c.db = _ :=
      new_entry_refused hu he ha
    exact ⟨congrArg (fun r => r.1.2) hrun, congrArg Prod.snd hrun⟩

end

/-- The sample text of the column with a name. -/
def sampleValue (n : Bytes) : Bytes :=
  ((Col.all.find? fun c => c.name == n).map sampleText).getD []

/-- The form filled in with the sample texts. -/
def sampleEntry : Entry where
  value := sampleValue
  holds := by
    rw [newFields_eq]
    decide

theorem sampleEntry_sent : submission true sampleEntry.controls =
    some (newFields.map fun f => (f.name, sampleEntry.value f.name)) := by
  have hvalue : ∀ f ∈ Col.all.map Col.field, f.required = true → sampleValue f.name ≠ [] := by
    decide
  refine submission_filling.mpr ⟨fun f hf => hvalue f ?_, rfl⟩
  rw [← newFields_eq]
  exact hf

theorem sampleEntry_accepted : sampleEntry.Accepted .canonical sample.assets where
  zeroes := by decide
  fits := by decide
  room := by decide

theorem entry_outcome_sample :
    let es := newFields.map fun f => (f.name, sampleEntry.value f.name)
    let q : Request := ⟨.new_entry, .post (formPost es)⟩
    (loggedIn sample).answer (inventory zeroHash .canonical) 0 q (fun _ => .at 100) =
      .redirect (str "masterlist.php") := by
  intro es q
  have h := @entry_outcome Nat _ zeroHash .canonical (loggedIn sample) 0 (fun _ => .at 100)
    sampleEntry es (by decide) sampleEntry_sent
  have ha : sampleEntry.Accepted .canonical (loggedIn sample).db.assets := sampleEntry_accepted
  dsimp only at h
  rw [if_pos ha] at h
  exact h.1

/-! ## The entry on the pages -/

/-- A UTF-8 text in one line. -/
def OneLine (s : Bytes) : Prop := Utf8.valid s = true ∧ ∀ b ∈ s, b ≠ 10 ∧ b ≠ 13

instance (s : Bytes) : Decidable (OneLine s) :=
  have := List.decidableBAll (fun b : UInt8 => b ≠ 10 ∧ b ≠ 13) s
  inferInstanceAs (Decidable (_ ∧ _))

/-- What the pages show of an accepted entry. -/
def Entry.shown (x : Entry) (sv : Server) (c : Col) : Bytes := (x.stored sv c).getD []

theorem utf8_storeText {n : Nat} {s t : Bytes} (h : storeText n s = some t)
    (hs : Utf8.valid s = true) : Utf8.valid t = true := by
  unfold storeText at h
  split at h
  · cases h
    exact hs
  · split at h
    · next hlen hsp =>
      cases h
      rw [← List.take_append_drop n s] at hs
      cases hd : s.drop n with
      | nil => exact absurd (List.drop_eq_nil_iff.mp hd) hlen
      | cons b rest =>
        rw [hd] at hs hsp
        obtain ⟨hb, -⟩ := Bool.and_eq_true_iff.mp (List.all_cons ▸ hsp)
        rw [beq_iff_eq.mp hb] at hs
        exact Utf8.valid_of_append_ascii (by decide) hs
    · cases h

theorem oneLine_storeText {n : Nat} {s t : Bytes} (h : storeText n s = some t) (hs : OneLine s) :
    OneLine t :=
  ⟨utf8_storeText h hs.1, fun b hb => hs.2 b ((prefix_of_storeText h).subset hb)⟩

theorem oneLine_options (c : Col) : ∀ o ∈ [] :: c.newOptions, OneLine o := by
  cases c <;> decide

theorem oneLine_date {s : Bytes} (h : ∀ b ∈ s, b = 45 ∨ Bytes.isDigit b = true) : OneLine s := by
  refine ⟨Utf8.valid_of_ascii fun b hb => ?_, fun b hb => ?_⟩
  · have hr := Bytes.range_of_digit (h b hb)
    omega
  · have hr := Bytes.range_of_digit (h b hb)
    refine ⟨?_, ?_⟩ <;> rintro rfl <;> exact absurd hr (by decide)

/-- What an input holds stands in one line. -/
theorem oneLine_sanitized {type v : Bytes}
    (ht : type = str "date" ∨ type = str "text" ∨ type = str "password")
    (h : sanitize type v = v ∧ Utf8.valid v = true) : OneLine v := by
  have hs := h.1
  rcases ht with rfl | ht
  · rw [sanitize, if_pos rfl] at hs
    split at hs
    · next hv => exact oneLine_date fun _ => Date.mem_of_isValid hv
    · rw [← hs]
      exact ⟨rfl, fun _ hb => absurd hb List.not_mem_nil⟩
  · refine ⟨h.2, ?_⟩
    have hdate : type ≠ str "date" := by rcases ht with rfl | rfl <;> decide
    rw [sanitize, if_neg hdate, if_pos ht] at hs
    intro b hb
    rw [← hs] at hb
    simpa using (List.mem_filter.mp hb).2

section
variable (x : Entry) (sv : Server) (c : Col)

/-- What is entered stands in one line. -/
theorem oneLine_text : OneLine (x.text c) := by
  have ht : c.newType = str "date" ∨ c.newType = str "text" ∨ c.newType = str "password" := by
    cases c <;> first | exact .inl rfl | exact .inr (.inl rfl)
  have h := holds_text x c
  unfold Col.fill at h
  split at h
  · exact oneLine_options c _ h
  · exact oneLine_sanitized ht h

theorem newEmail_eq (t : Bytes) : newEmail t = str "n/a" ∨ newEmail t = t := by
  unfold newEmail
  split
  · exact .inl rfl
  · exact .inr rfl

theorem oneLine_na : OneLine (str "n/a") := by decide

theorem oneLine_normalised : OneLine (normalised newEmail x.text c) := by
  unfold normalised
  split
  · rcases newEmail_eq (x.text c) with he | he
    · rw [he]
      exact oneLine_na
    · rw [he]
      exact oneLine_text x c
  · exact oneLine_text x c

end

section
variable {sv : Server} {x : Entry} {r : Asset}

end

section
variable {I : Type} [DecidableEq I] {sha256 : Bytes → Bytes} {sv : Server} {c : PageState I}
  {i j : I} {x : Entry} {es : List (Bytes × Bytes)} {b : Body} {env env' : Nat → Env}

end

end Inventory
