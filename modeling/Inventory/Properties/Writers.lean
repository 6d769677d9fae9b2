import Inventory.Model.Parameters
import Inventory.Model.Sample
import Inventory.Model.Submission

/-!
# The two writers

new_entry.php inserts and edit_asset.php updates the same twenty columns.
`writes_land` says where the values of each go. `writers_alike_iff` compares the
two: they part on a required field "0", which `empty()` calls empty, and on an
email address that only `trim` empties.
-/

namespace Inventory

open Lib Php

/-- A form with a text in every field. -/
def Filled (f : Col → Bytes) (p : Post) : Prop := ∀ c : Col, p c.name = .str (f c)

/-- The email address that new_entry.php stores for the one that was sent. -/
def newEmail (t : Bytes) : Bytes := if (Value.str t).isEmpty then str "n/a" else t

/-- The email address that edit_asset.php stores for the one that was sent. -/
def editEmail (t : Bytes) : Bytes := if Blank t then str "n/a" else t

/-- The texts with the email address normalised. -/
def normalised (email : Bytes → Bytes) (f : Col → Bytes) (c : Col) : Bytes :=
  if c = .email_address then email (f c) else f c

/-- What a column accepts it stores as it is. -/
def Server.Unconverted (sv : Server) (vals : Col → Bytes) : Prop :=
  ∀ c w, sv.cast c.type (vals c) = some w → w = vals c

/-- `$email_address` of new_entry.php. -/
def newAddress (p : Post) : Value :=
  if (p (str "email_address")).isEmpty then .str (str "n/a") else p (str "email_address")

/-- `$email_address` of edit_asset.php. -/
def editAddress (p : Post) : Value :=
  if (trim (p (str "email_address"))).isEmpty then .str (str "n/a") else p (str "email_address")

section
variable (sv : Server) (s : Session) (e : Env) (p : Post) (d : Db)

/-- new_entry.php executes its INSERT, with the value that stands at the position of each column. -/
def InsertExecutes : Prop :=
  s.user ≠ none ∧ missingFields p = [] ∧ ∃ vals, insertValues p (newAddress p) = some vals ∧
    ∃ n, (exec sv e (.insertAsset vals) d).1 = Except.ok (ε := Bytes) (α := Int) n

/-- edit_asset.php executes its UPDATE, with the value that stands at the position of each column. -/
def UpdateExecutes : Prop :=
  s.user ≠ none ∧ (p (str "update")).isSet = true ∧
    ∃ vals id, updateValues p (editAddress p) = some (vals, id) ∧
      (exec sv e (.updateAsset vals id) d).1 = true

end

/-- The table gains one row, with a fresh id and the given values. -/
def GainsRow (vals : Col → Bytes) (t t' : Table Asset Asset.id) : Prop :=
  ∃ r : Asset, t.get? r.id = none ∧ (∀ c, r.fields c = some (vals c)) ∧ t'.rows = t.rows ++ [r]

/-- The ids stay, the row under `id` holds the given values, and no other row changes. -/
structure RewritesRow (id : Option Int) (vals : Col → Bytes) (t t' : Table Asset Asset.id) :
    Prop where
  ids : t'.rows.map Asset.id = t.rows.map Asset.id
  row : ∀ r, id.bind t'.get? = some r → ∀ c, r.fields c = some (vals c)
  others : ∀ i, id ≠ some i → t'.get? i = t.get? i

/-! ## What the statements are given -/

section
variable {f : Col → Bytes} {p : Post}

theorem newValues_filled (hp : Filled f p) :
    newValues p = fun c => some (normalised newEmail f c) := by
  have he : newAddress p = .str (newEmail (f .email_address)) := by
    unfold newAddress newEmail
    rw [show p (str "email_address") = .str (f .email_address) from hp .email_address]
    exact (apply_ite Value.str _ _ _).symm
  funext c
  show submitted p (newAddress p) c = _
  unfold submitted normalised
  split
  · next hc =>
    rw [he, hc]
    rfl
  · rw [hp c]
    rfl

theorem editValues_filled (hp : Filled f p) :
    editValues p = fun c => some (normalised editEmail f c) := by
  have he : editAddress p = .str (editEmail (f .email_address)) := by
    unfold editAddress editEmail
    rw [show p (str "email_address") = .str (f .email_address) from hp .email_address]
    exact (apply_ite Value.str _ _ _).symm
  funext c
  show submitted p (editAddress p) c = _
  unfold submitted normalised
  split
  · next hc =>
    rw [he, hc]
    rfl
  · rw [hp c]
    rfl

/-- Values that are stored are stored as they are. -/
theorem castAll_unconverted {sv : Server} {vals : Col → Bytes} {g : Fields}
    (h : sv.Unconverted vals) (hg : sv.castAll (fun c => some (vals c)) = some g) (c : Col) :
    g c = some (vals c) := by
  have hc := sv.castAll_eq_some.mp hg c
  obtain ⟨w, hw, he⟩ := Option.map_eq_some_iff.mp hc
  rw [← he, h c w hw]

end

section
variable {sv : Server} {s : Session} {e : Env} {p : Post} {d : Db}

theorem insertExecutes_iff : InsertExecutes sv s e p d ↔ s.user ≠ none ∧ missingFields p = [] ∧
    ((sv.castAll (newValues p)).bind fun f => insertNext f e.now d.assets) ≠ none := by
  unfold InsertExecutes
  rw [insertValues_eq, ← insertAsset_ok]
  simp only [Option.some.injEq, exists_eq_left']
  rfl

theorem updateExecutes_iff : UpdateExecutes sv s e p d ↔
    s.user ≠ none ∧ (p (str "update")).isSet = true ∧
      (exec sv e (.updateAsset (editValues p) (p (str "id")).bindInt) d).1 = true := by
  unfold UpdateExecutes
  rw [updateValues_eq]
  constructor
  · rintro ⟨hu, hset, vals, id, hv, hr⟩
    cases hv
    exact ⟨hu, hset, hr⟩
  · rintro ⟨hu, hset, hr⟩
    exact ⟨hu, hset, _, _, rfl, hr⟩

end

/-! ## The assets after a statement -/

theorem gainsRow_insertNext {g : Fields} {stamp : Nat} {vals : Col → Bytes}
    {t t' : Table Asset Asset.id} (h : insertNext g stamp t = some t')
    (hg : ∀ c, g c = some (vals c)) : GainsRow vals t t' := by
  obtain ⟨r, hid, hfields, hrows, -⟩ := insertNext_row h
  refine ⟨r, ?_, fun c => ?_, hrows⟩
  · rw [hid, Table.get?_next]
  · rw [hfields, hg c]

/-- Where no row is updated nothing is rewritten. -/
theorem rewritesRow_none {id : Option Int} {vals : Col → Bytes} {t : Table Asset Asset.id}
    (h : id.bind t.get? = none) : RewritesRow id vals t t where
  ids := rfl
  row r hr := by
    rw [h] at hr
    cases hr
  others _ _ := rfl

theorem ids_setRow (r : Asset) (g : Fields) (now : Nat) (t : Table Asset Asset.id) :
    (setRow r g now t).rows.map Asset.id = t.rows.map Asset.id := by
  show (t.rows.map _).map Asset.id = _
  rw [List.map_map]
  refine List.map_congr_left fun a _ => ?_
  show (if a.id = r.id then _ else a).id = a.id
  split <;> rfl

theorem rewritesRow_setRow {t : Table Asset Asset.id} {r : Asset} (hr : t.get? r.id = some r)
    {g : Fields} {now : Nat} {vals : Col → Bytes} (hg : ∀ c, g c = some (vals c)) :
    RewritesRow (some r.id) vals t (setRow r g now t) where
  ids := ids_setRow r g now t
  row a ha := by
    rw [Option.bind_some, get?_setRow, if_pos rfl, hr] at ha
    cases ha
    exact hg
  others i hi := by
    rw [get?_setRow, if_neg fun he => hi (by rw [he])]

section
variable {sv : Server} {s : Session} {p : Post} {env : Nat → Env} {d : Db}

/-- A form that is refused, or whose INSERT fails, leaves the assets as they are. -/
theorem new_entry_unchanged (h : ¬ InsertExecutes sv s (env 0) p d) :
    ((new_entry s (.post p)).run (exec sv) env d).2.assets = d.assets := by
  rw [insertExecutes_iff] at h
  cases hu : s.user with
  | none =>
    rw [new_entry_guest hu]
    rfl
  | some u =>
    have hne : s.user ≠ none := by
      rw [hu]
      exact Option.some_ne_none u
    rw [new_entry_assets hne, newAssets]
    split
    · next hm =>
      have hnone : ((sv.castAll (newValues p)).bind fun f => insertNext f (env 0).now d.assets) =
          none := by
        by_contra hb
        exact h ⟨hne, hm, hb⟩
      show Option.getD _ _ = _
      rw [hnone]
      rfl
    · rfl

theorem new_entry_gains {f : Col → Bytes} (hp : Filled f p)
    (hv : sv.Unconverted (normalised newEmail f)) (h : InsertExecutes sv s (env 0) p d) :
    GainsRow (normalised newEmail f) d.assets
      ((new_entry s (.post p)).run (exec sv) env d).2.assets := by
  obtain ⟨hu, hm, hex⟩ := insertExecutes_iff.mp h
  obtain ⟨t, ht⟩ := Option.ne_none_iff_exists'.mp hex
  obtain ⟨g, hg, hins⟩ := Option.bind_eq_some_iff.mp ht
  have hrun : ((new_entry s (.post p)).run (exec sv) env d).2.assets = t := by
    rw [new_entry_assets hu, newAssets, if_pos hm]
    show Option.getD _ _ = _
    rw [ht]
    rfl
  rw [newValues_filled hp] at hg
  rw [hrun]
  exact gainsRow_insertNext hins (castAll_unconverted hv hg)

/-- A form without an UPDATE, or one that fails, leaves the assets as they are. -/
theorem edit_asset_unchanged (h : ¬ UpdateExecutes sv s (env 0) p d) :
    ((edit_asset s (.post p)).run (exec sv) env d).2.assets = d.assets := by
  rw [updateExecutes_iff, updateAsset_ok] at h
  cases hu : s.user with
  | none =>
    rw [edit_asset_guest hu]
    rfl
  | some u =>
    rw [edit_asset_assets hu, editAssets, Body.fields]
    split
    · next hset =>
      have hnone : sv.castAll (editValues p) = none := by
        by_contra hb
        exact h ⟨by rw [hu]; exact Option.some_ne_none u, hset, .inr hb⟩
      simp only [execAssets, hnone]
      cases (p (str "id")).bindInt.bind d.assets.get? <;> rfl
    · rfl

theorem edit_asset_rewrites {f : Col → Bytes} (hp : Filled f p)
    (hv : sv.Unconverted (normalised editEmail f)) (h : UpdateExecutes sv s (env 0) p d) :
    RewritesRow (p (str "id")).bindInt (normalised editEmail f) d.assets
      ((edit_asset s (.post p)).run (exec sv) env d).2.assets := by
  obtain ⟨hu, hset, hex⟩ := updateExecutes_iff.mp h
  obtain ⟨u, hu⟩ := Option.ne_none_iff_exists'.mp hu
  rw [edit_asset_assets hu, editAssets, Body.fields, if_pos hset]
  cases hr : (p (str "id")).bindInt.bind d.asset with
  | none =>
    have hr' : (p (str "id")).bindInt.bind d.assets.get? = none := hr
    simp only [execAssets, hr']
    exact rewritesRow_none hr'
  | some r =>
    obtain ⟨i, hi, hri⟩ := Option.bind_eq_some_iff.mp hr
    obtain rfl : r.id = i := Table.key_of_get? hri
    obtain ⟨g, hg⟩ := Option.ne_none_iff_exists'.mp
      ((updateAsset_ok.mp hex).resolve_left (by rw [hr]; exact Option.some_ne_none r))
    rw [hi, execAssets_update hri, hg]
    rw [editValues_filled hp] at hg
    exact rewritesRow_setRow hri (castAll_unconverted hv hg)

/-- **The writes land in the right columns and rows.** The values that stand at the positions of the
columns are those that the two pages send. -/
theorem writes_land {f : Col → Bytes} (hp : Filled f p)
    (hnew : sv.Unconverted (normalised newEmail f))
    (hedit : sv.Unconverted (normalised editEmail f)) :
    insertValues p (newAddress p) = some (newValues p) ∧
    updateValues p (editAddress p) = some (editValues p, (p (str "id")).bindInt) ∧
    (InsertExecutes sv s (env 0) p d →
      GainsRow (normalised newEmail f) d.assets
        ((new_entry s (.post p)).run (exec sv) env d).2.assets) ∧
    (UpdateExecutes sv s (env 0) p d →
      RewritesRow (p (str "id")).bindInt (normalised editEmail f) d.assets
        ((edit_asset s (.post p)).run (exec sv) env d).2.assets) ∧
    (¬ InsertExecutes sv s (env 0) p d →
      ((new_entry s (.post p)).run (exec sv) env d).2.assets = d.assets) ∧
    (¬ UpdateExecutes sv s (env 0) p d →
      ((edit_asset s (.post p)).run (exec sv) env d).2.assets = d.assets) :=
  ⟨insertValues_eq _ _, updateValues_eq _ _, new_entry_gains hp hnew, edit_asset_rewrites hp hedit,
    new_entry_unchanged, edit_asset_unchanged⟩

end

/-- What the columns can hold they store as it is. -/
theorem unconverted_of_holds {sv : Server} {vals : Col → Bytes}
    (h : ∀ c : Col, c.type.Holds (vals c)) : sv.Unconverted vals := by
  intro c w hw
  rw [sv.cast_self (h c)] at hw
  exact (Option.some.inj hw).symm

theorem samplePost_filled : Filled sampleText samplePost := by
  intro c
  cases c <;> rfl

/-- The sample values are inserted, and written over the asset 33. -/
theorem writes_land_sample :
    GainsRow (normalised newEmail sampleText) sample.assets
      ((new_entry { user := some (str "admin") } (.post samplePost)).run (exec .canonical)
        (fun _ => .at 100) sample).2.assets ∧
    RewritesRow (some 33) (normalised editEmail sampleText) sample.assets
      ((edit_asset { user := some (str "admin") } (.post samplePost)).run (exec .canonical)
        (fun _ => .at 100) sample).2.assets := by
  have hnew : ∀ c : Col, c.type.Holds (normalised newEmail sampleText c) := by
    intro c
    cases c <;> decide
  have hedit : ∀ c : Col, c.type.Holds (normalised editEmail sampleText c) := by
    intro c
    cases c <;> decide
  obtain ⟨-, -, hgain, hrewrite, -⟩ := @writes_land .canonical { user := some (str "admin") } samplePost
    (fun _ => .at 100) sample sampleText samplePost_filled (unconverted_of_holds hnew)
    (unconverted_of_holds hedit)
  refine ⟨hgain (insertExecutes_iff.mpr ⟨Option.some_ne_none _, by decide, ?_⟩),
    hrewrite (updateExecutes_iff.mpr ⟨Option.some_ne_none _, rfl, updateAsset_ok.mpr (.inr ?_)⟩)⟩
  · decide
  · decide

/-! ## The two pages compared -/

section
variable (sv : Server) (s : Session) (env : Nat → Env) (p : Post) (d : Db)

/-- Both pages accept the form or neither does, and what they store in the new row and in the row
`i` is equal. -/
structure Alike (i : Int) : Prop where
  accepts : InsertExecutes sv s (env 0) p d ↔ UpdateExecutes sv s (env 0) p d
  stores : InsertExecutes sv s (env 0) p d → UpdateExecutes sv s (env 0) p d → ∀ a b : Asset,
    ((new_entry s (.post p)).run (exec sv) env d).2.asset d.assets.next = some a →
    ((edit_asset s (.post p)).run (exec sv) env d).2.asset i = some b → a.fields = b.fields

end

/-- Both pages normalise the email address, or neither does. -/
def SameEmail (t : Bytes) : Prop := Blank t → t = [] ∨ t = str "0"

theorem mem_trimText {b : UInt8} {t : Bytes} (hb : b ∈ t) (h : isTrimmed b = false) :
    b ∈ trimText t := by
  have hdrop : ∀ {l : Bytes}, b ∈ l → b ∈ l.dropWhile isTrimmed := by
    intro l hl
    rw [← List.takeWhile_append_dropWhile (p := isTrimmed) (l := l)] at hl
    refine (List.mem_append.mp hl).resolve_left fun hmem => ?_
    have htrim := List.mem_takeWhile_imp hmem
    rw [h] at htrim
    cases htrim
  exact List.mem_reverse.mpr (hdrop (List.mem_reverse.mpr (hdrop hb)))

section
variable {t : Bytes}

theorem blank_iff : Blank t ↔ trimText t = [] ∨ trimText t = str "0" := by
  unfold Blank
  simp [Value.isEmpty, Value.truthy]

theorem isEmpty_str : (Value.str t).isEmpty = true ↔ t = [] ∨ t = str "0" := by
  simp [Value.isEmpty, Value.truthy]

/-- A blank text is not stored as "n/a". -/
theorem not_na_of_blank {n : Nat} (h : Blank t) : storeText n t ≠ some (str "n/a") := by
  intro hs
  have hmem : (110 : UInt8) ∈ t := (prefix_of_storeText hs).subset (by decide)
  have htrim : (110 : UInt8) ∈ trimText t := mem_trimText hmem (by decide)
  rcases blank_iff.mp h with he | he
  · rw [he] at htrim
    cases htrim
  · rw [he] at htrim
    revert htrim
    decide

theorem newEmail_of_not_blank (h : ¬ Blank t) : newEmail t = t := by
  unfold newEmail
  rw [if_neg]
  intro he
  rcases isEmpty_str.mp he with rfl | rfl
  · exact h (by decide)
  · exact h (by decide)

theorem storeText_na : storeText 100 (str "n/a") = some (str "n/a") := by decide

/-- When the two pages store one email address. -/
theorem storeText_emails_eq :
    storeText 100 (newEmail t) = storeText 100 (editEmail t) ↔ SameEmail t := by
  by_cases hb : Blank t
  · rw [editEmail, if_pos hb, storeText_na, SameEmail, imp_iff_right hb, ← isEmpty_str, newEmail]
    by_cases he : (Value.str t).isEmpty = true
    · rw [if_pos he]
      exact iff_of_true storeText_na he
    · rw [if_neg he]
      exact iff_of_false (not_na_of_blank hb) he
  · rw [newEmail_of_not_blank hb, editEmail, if_neg hb]
    exact iff_of_true rfl fun h => absurd h hb

end

section
variable {sv : Server} {s : Session} {env : Nat → Env} {p : Post} {d : Db} {f : Col → Bytes}
  {r : Asset} {email : Bytes → Bytes}

theorem required_or_email (c : Col) : c ∈ requiredFields ∨ c = .email_address := by
  cases c <;> decide

/-- With acceptable required fields a row is stored if its email address is. -/
theorem castAll_normalised
    (hreq : ∀ c ∈ requiredFields, f c ≠ [] ∧ sv.cast c.type (f c) ≠ none) :
    sv.castAll (fun c => some (normalised email f c)) = none ↔
      storeText 100 (email (f .email_address)) = none := by
  rw [sv.castAll_eq_none]
  constructor
  · rintro ⟨c, hc⟩
    have hcast : sv.cast c.type (normalised email f c) = none := Option.map_eq_none_iff.mp hc
    by_cases he : c = .email_address
    · subst he
      exact hcast
    · rw [normalised, if_neg he] at hcast
      exact absurd hcast (hreq c ((required_or_email c).resolve_right he)).2
  · intro h
    exact ⟨.email_address, Option.map_eq_none_iff.mpr h⟩

theorem missingFields_filled (hp : Filled f p)
    (hreq : ∀ c ∈ requiredFields, f c ≠ [] ∧ sv.cast c.type (f c) ≠ none) :
    missingFields p = [] ↔ ∀ c ∈ requiredFields, f c ≠ str "0" := by
  unfold missingFields
  rw [List.filter_eq_nil_iff]
  refine forall₂_congr fun c hc => ?_
  rw [hp c, isEmpty_str, or_iff_right (hreq c hc).1]

theorem insertExecutes_filled (hu : s.user ≠ none) (hp : Filled f p)
    (hreq : ∀ c ∈ requiredFields, f c ≠ [] ∧ sv.cast c.type (f c) ≠ none) :
    InsertExecutes sv s (env 0) p d ↔ (∀ c ∈ requiredFields, f c ≠ str "0") ∧
      storeText 100 (newEmail (f .email_address)) ≠ none ∧ d.assets.next ≤ INT_MAX := by
  have hnone : sv.castAll (newValues p) = none ↔ storeText 100 (newEmail (f .email_address)) = none := by
    rw [newValues_filled hp]
    exact castAll_normalised hreq
  rw [insertExecutes_iff, and_iff_right hu, missingFields_filled hp hreq]
  refine and_congr_right fun _ => ?_
  rw [ne_eq (storeText _ _), ← hnone]
  cases sv.castAll (newValues p) with
  | none => simp
  | some g => simp [insertNext]

theorem updateExecutes_filled (hu : s.user ≠ none) (hp : Filled f p)
    (hset : (p (str "update")).isSet = true) (hid : (p (str "id")).bindInt = some r.id)
    (hr : d.asset r.id = some r)
    (hreq : ∀ c ∈ requiredFields, f c ≠ [] ∧ sv.cast c.type (f c) ≠ none) :
    UpdateExecutes sv s (env 0) p d ↔ storeText 100 (editEmail (f .email_address)) ≠ none := by
  rw [updateExecutes_iff, and_iff_right hu, and_iff_right hset, updateAsset_ok, hid,
    Option.bind_some, hr, or_iff_right (Option.some_ne_none r), editValues_filled hp, ne_eq,
    castAll_normalised hreq]

/-- Rows that are stored for two email addresses differ in nothing but these. -/
theorem castAll_eq_iff {email' : Bytes → Bytes} {g g' : Fields}
    (hg : sv.castAll (fun c => some (normalised email f c)) = some g)
    (hg' : sv.castAll (fun c => some (normalised email' f c)) = some g') :
    g = g' ↔ storeText 100 (email (f .email_address)) = storeText 100 (email' (f .email_address)) := by
  have hc := sv.castAll_eq_some.mp hg
  have hc' := sv.castAll_eq_some.mp hg'
  have hmail : (storeText 100 (email (f .email_address))).map some = some (g .email_address) :=
    hc .email_address
  have hmail' : (storeText 100 (email' (f .email_address))).map some = some (g' .email_address) :=
    hc' .email_address
  constructor
  · rintro rfl
    exact Option.map_injective (Option.some_injective _) (hmail.trans hmail'.symm)
  · intro he
    refine Fields.ext fun c => ?_
    by_cases hce : c = .email_address
    · subst hce
      rw [he, hmail'] at hmail
      exact (Option.some.inj hmail).symm
    · have h := hc c
      have h' := hc' c
      rw [normalised, if_neg hce] at h h'
      exact Option.some.inj (h.symm.trans h')

/-- The row that new_entry.php inserts. -/
theorem inserted_row (hp : Filled f p) (h : InsertExecutes sv s (env 0) p d) :
    ∃ a, ((new_entry s (.post p)).run (exec sv) env d).2.asset d.assets.next = some a ∧
      sv.castAll (fun c => some (normalised newEmail f c)) = some a.fields := by
  obtain ⟨hu, hm, hex⟩ := insertExecutes_iff.mp h
  obtain ⟨t, ht⟩ := Option.ne_none_iff_exists'.mp hex
  obtain ⟨g, hg, hins⟩ := Option.bind_eq_some_iff.mp ht
  have hrun : ((new_entry s (.post p)).run (exec sv) env d).2.assets = t := by
    rw [new_entry_assets hu, newAssets, if_pos hm]
    show Option.getD _ _ = _
    rw [ht]
    rfl
  obtain ⟨r, -, hfields, -, hrow⟩ := insertNext_row hins
  refine ⟨r, ?_, ?_⟩
  · show ((new_entry s (.post p)).run (exec sv) env d).2.assets.get? _ = _
    rw [hrun, hrow]
  · rw [← newValues_filled hp, hg, hfields]

/-- The row that edit_asset.php writes over an asset. -/
theorem updated_row (hp : Filled f p) (hid : (p (str "id")).bindInt = some r.id)
    (hr : d.asset r.id = some r) (h : UpdateExecutes sv s (env 0) p d) :
    ∃ b, ((edit_asset s (.post p)).run (exec sv) env d).2.asset r.id = some b ∧
      sv.castAll (fun c => some (normalised editEmail f c)) = some b.fields := by
  obtain ⟨hu, hset, hex⟩ := updateExecutes_iff.mp h
  obtain ⟨u, hu⟩ := Option.ne_none_iff_exists'.mp hu
  have hr' : d.assets.get? r.id = some r := hr
  rw [updateAsset_ok, hid, Option.bind_some, hr, or_iff_right (Option.some_ne_none r)] at hex
  obtain ⟨g, hg⟩ := Option.ne_none_iff_exists'.mp hex
  rw [← editValues_filled hp, hg]
  refine ⟨{ r with fields := g, timestamp := (env 0).now }, ?_, rfl⟩
  show ((edit_asset s (.post p)).run (exec sv) env d).2.assets.get? _ = _
  rw [edit_asset_assets hu, editAssets, Body.fields, if_pos hset, hid, execAssets_update hr',
    hg, Option.elim_some, get?_setRow, if_pos rfl, hr']
  rfl

/-- The two pages are alike when both or neither store the form, with one email address. -/
theorem alike_iff (hp : Filled f p) (hid : (p (str "id")).bindInt = some r.id)
    (hr : d.asset r.id = some r) :
    Alike sv s env p d r.id ↔
      (InsertExecutes sv s (env 0) p d ↔ UpdateExecutes sv s (env 0) p d) ∧
        (InsertExecutes sv s (env 0) p d → UpdateExecutes sv s (env 0) p d →
          storeText 100 (newEmail (f .email_address)) =
            storeText 100 (editEmail (f .email_address))) := by
  constructor
  · intro h
    refine ⟨h.accepts, fun hi hup => ?_⟩
    obtain ⟨a, ha, hga⟩ := inserted_row hp hi
    obtain ⟨b, hb, hgb⟩ := updated_row hp hid hr hup
    exact (castAll_eq_iff hga hgb).mp (h.stores hi hup a b ha hb)
  · intro h
    refine ⟨h.1, fun hi hup a' b' ha' hb' => ?_⟩
    obtain ⟨a, ha, hga⟩ := inserted_row hp hi
    obtain ⟨b, hb, hgb⟩ := updated_row hp hid hr hup
    obtain rfl : a = a' := Option.some.inj (ha.symm.trans ha')
    obtain rfl : b = b' := Option.some.inj (hb.symm.trans hb')
    exact (castAll_eq_iff hga hgb).mpr (h.2 hi hup)

/-- **When the two pages treat a form alike.** The form has acceptable texts in its required fields;
it is posted to new_entry.php, and to edit_asset.php as an update of the asset `r`. -/
theorem writers_alike_iff (hu : s.user ≠ none) (hp : Filled f p)
    (hset : (p (str "update")).isSet = true) (hid : (p (str "id")).bindInt = some r.id)
    (hr : d.asset r.id = some r)
    (hreq : ∀ c ∈ requiredFields, f c ≠ [] ∧ sv.cast c.type (f c) ≠ none) :
    Alike sv s env p d r.id ↔
      (¬ Blank (f .email_address) ∧ storeText 100 (f .email_address) = none) ∨
        (d.assets.next ≤ INT_MAX ∧ (∀ c ∈ requiredFields, f c ≠ str "0") ∧
          SameEmail (f .email_address)) := by
  rw [alike_iff hp hid hr, insertExecutes_filled hu hp hreq,
    updateExecutes_filled hu hp hset hid hr hreq, storeText_emails_eq]
  by_cases hb : Blank (f .email_address)
  · have hedit : storeText 100 (editEmail (f .email_address)) ≠ none := by
      rw [editEmail, if_pos hb, storeText_na]
      exact Option.some_ne_none _
    rw [iff_true_right hedit, or_iff_right fun h => h.1 hb]
    constructor
    · rintro ⟨hi, hq⟩
      exact ⟨hi.2.2, hi.1, hq hi hedit⟩
    · rintro ⟨hmax, hzero, hq⟩
      rw [storeText_emails_eq.mpr hq]
      exact ⟨⟨hzero, hedit, hmax⟩, fun _ _ => hq⟩
  · have hq : SameEmail (f .email_address) := fun h => absurd h hb
    rw [newEmail_of_not_blank hb, editEmail, if_neg hb, and_iff_right hb]
    by_cases ht : storeText 100 (f .email_address) = none
    · simp [ht]
    · simp only [ht, hq, ne_eq, not_false_eq_true, true_and, and_true, false_or, iff_true,
        implies_true]
      exact and_comm

end

theorem sample_acceptable : ∀ c ∈ requiredFields,
    sampleText c ≠ [] ∧ Server.canonical.cast c.type (sampleText c) ≠ none := by
  decide

/-- Both pages store the sample values. -/
theorem writers_alike_sample : Alike .canonical { user := some (str "admin") } (fun _ => .at 100)
    samplePost sample 33 := by
  have hid : (samplePost (str "id")).bindInt = some asset33.id := rfl
  have hr : sample.asset asset33.id = some asset33 := rfl
  refine (writers_alike_iff (r := asset33) (Option.some_ne_none _) samplePost_filled rfl hid hr
    sample_acceptable).mpr (.inr ⟨by decide, by decide, ?_⟩)
  intro hb
  exact absurd hb (by decide)

/-- The sample values with the asset tag "0". -/
def zeroTag (c : Col) : Bytes := if c = .asset_tag then str "0" else sampleText c

def zeroTagPost : Post := fun n => if n = str "asset_tag" then .str (str "0") else samplePost n

/-- new_entry.php refuses the asset tag "0", and edit_asset.php stores it. -/
theorem zero_tag_not_alike : Filled zeroTag zeroTagPost ∧
    (∀ c ∈ requiredFields,
      zeroTag c ≠ [] ∧ Server.canonical.cast c.type (zeroTag c) ≠ none) ∧
    ¬ Alike .canonical { user := some (str "admin") } (fun _ => .at 100) zeroTagPost sample 33 := by
  refine ⟨?_, by decide, fun h => ?_⟩
  · intro c
    cases c <;> rfl
  · have hupdate : UpdateExecutes .canonical { user := some (str "admin") } (.at 100) zeroTagPost
        sample := by
      refine updateExecutes_iff.mpr ⟨Option.some_ne_none _, rfl, updateAsset_ok.mpr (.inr ?_)⟩
      decide
    have hinsert := insertExecutes_iff.mp (h.accepts.mpr hupdate)
    revert hinsert
    decide

end Inventory
