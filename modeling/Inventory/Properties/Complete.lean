import Inventory.Model.Sample
import Inventory.Model.Serving

/-!
# Complete assets

new_entry.php refuses a form with an empty required field, edit_asset.php stores
what it is sent; an email address of blanks passes the first, and not the
second. The assets stay complete as long as no update of an existing asset
brings an empty required field and no new entry a blank email address
(`stepCompletes`).
-/

namespace Inventory

open Lib Php

/-- The text holds a character that `trim` would not cut off. -/
def NonBlank (s : Bytes) : Prop := ∃ b ∈ s, isTrimmed b = false

structure CompleteRow (f : Fields) : Prop where
  required : ∀ c ∈ requiredFields, ∃ s, f c = some s ∧ s ≠ []
  email : ∃ s, f .email_address = some s ∧ NonBlank s

/-- Every row of the table is complete. -/
def CompleteTable (t : Table Asset Asset.id) : Prop :=
  ∀ i r, t.get? i = some r → CompleteRow r.fields

def Complete (d : Db) : Prop := CompleteTable d.assets

/-- `$_POST` holds texts and arrays only. -/
def IsPosted : Value → Prop
  | .null | .str _ | .arr _ => True
  | _ => False

section
variable {I : Type} (sv : Server)

/-- The condition on a request: a new entry that is stored has no email address of blanks, and an
update of an existing asset that is stored has every required field. -/
def stepCompletes (c : PageState I) (i : I) (q : Request) : Prop :=
  match q.page with
  | .new_entry => (c.sess i).user ≠ none → missingFields q.body.fields = [] →
      sv.castAll (newValues q.body.fields) ≠ none → c.db.assets.next ≤ INT_MAX →
      (∀ n, IsPosted (q.body.fields n)) ∧
        ((q.body.fields (str "email_address")).isEmpty = true ∨
          NonBlank (q.body.fields (str "email_address")).toText)
  | .edit_asset => (c.sess i).user ≠ none → (q.body.fields (str "update")).isSet = true →
      (q.body.fields (str "id")).bindInt.bind c.db.asset ≠ none →
      sv.castAll (editValues q.body.fields) ≠ none →
      ∀ col ∈ requiredFields, ∃ s, (q.body.fields col.name).bindStr = some s ∧ s ≠ []
  | _ => True

end

/-! ## What is stored -/

theorem storeText_ne_nil {n : Nat} {s t : Bytes} (h : storeText n s = some t) (hn : 0 < n)
    (hs : s ≠ []) : t ≠ [] := by
  unfold storeText at h
  split at h
  · cases h
    exact hs
  · split at h
    · cases h
      intro ht
      rcases List.take_eq_nil_iff.mp ht with h0 | h0
      · omega
      · exact hs h0
    · cases h

/-- Only spaces are cut off. -/
theorem nonBlank_storeText {n : Nat} {s t : Bytes} (h : storeText n s = some t) (hs : NonBlank s) :
    NonBlank t := by
  unfold storeText at h
  split at h
  · cases h
    exact hs
  · split at h
    · next hsp =>
      cases h
      obtain ⟨b, hb, htrim⟩ := hs
      refine ⟨b, ?_, htrim⟩
      rw [← List.take_append_drop n s] at hb
      rcases List.mem_append.mp hb with hb | hb
      · exact hb
      · have hspace : b = 32 := by simpa using List.all_eq_true.mp hsp b hb
        subst hspace
        cases htrim
    · cases h

theorem castCol_ne_nil {sv : Server} {c : Col} {s : Bytes} {w : Option Bytes}
    (h : sv.castCol c (some s) = some w) (hs : s ≠ []) : ∃ t, w = some t ∧ t ≠ [] := by
  obtain ⟨t, ht, rfl⟩ := Option.map_eq_some_iff.mp h
  refine ⟨t, rfl, ?_⟩
  unfold Server.cast at ht
  cases hc : c.type with
  | varchar n =>
    rw [hc] at ht
    have hn : 0 < n := by
      cases c <;> cases hc <;> decide
    exact storeText_ne_nil ht hn hs
  | date =>
    rw [hc] at ht
    exact Date.isStored_ne_nil (sv.castDate_stored s t ht)

theorem castCol_nonBlank {sv : Server} {s : Bytes} {w : Option Bytes}
    (h : sv.castCol .email_address (some s) = some w) (hs : NonBlank s) :
    ∃ t, w = some t ∧ NonBlank t := by
  obtain ⟨t, ht, rfl⟩ := Option.map_eq_some_iff.mp h
  exact ⟨t, rfl, nonBlank_storeText ht hs⟩

theorem nonBlank_na : NonBlank (str "n/a") := ⟨47, by decide, by decide⟩

/-- What `trim` leaves is no blank. -/
theorem nonBlank_of_trim {s : Bytes} (h : trimText s ≠ []) : NonBlank s := by
  by_contra hno
  have hall : ∀ b ∈ s, isTrimmed b = true := by
    intro b hb
    cases ht : isTrimmed b with
    | true => rfl
    | false => exact absurd ⟨b, hb, ht⟩ hno
  have hdrop : s.dropWhile isTrimmed = [] := List.dropWhile_eq_nil_iff.mpr hall
  exact h (by rw [trimText, hdrop]; rfl)

theorem posted_text {v : Value} (h : IsPosted v) (he : v.isEmpty = false) :
    ∃ s, v.bindStr = some s ∧ s ≠ [] := by
  cases v with
  | str s =>
    refine ⟨s, rfl, ?_⟩
    rintro rfl
    cases he
  | arr es => exact ⟨str "Array", rfl, by decide⟩
  | null => cases he
  | bool b => exact h.elim
  | int n => exact h.elim
  | float x => exact h.elim

theorem trimmed_text {v : Value} (h : (trim v).isEmpty = false) :
    ∃ s, v.bindStr = some s ∧ NonBlank s := by
  have hne : ∀ t, (Value.str (trimText t)).isEmpty = false → NonBlank t := by
    intro t ht
    apply nonBlank_of_trim
    intro hnil
    rw [hnil] at ht
    cases ht
  cases v with
  | null => cases h
  | arr es => cases h
  | str s => exact ⟨s, rfl, hne s h⟩
  | bool b => exact ⟨_, rfl, hne _ h⟩
  | int n => exact ⟨_, rfl, hne _ h⟩
  | float x => exact ⟨_, rfl, hne _ h⟩

theorem email_not_required : Col.email_address ∉ requiredFields := by decide

/-- The stored row of a submission is complete if the submission is. -/
theorem completeRow_castAll {sv : Server} {p : Post} {email : Value} {f : Fields}
    (hf : sv.castAll (submitted p email) = some f)
    (hreq : ∀ c ∈ requiredFields, ∃ s, (p c.name).bindStr = some s ∧ s ≠ [])
    (hemail : ∃ s, email.bindStr = some s ∧ NonBlank s) : CompleteRow f := by
  have hcast := sv.castAll_eq_some.mp hf
  constructor
  · intro c hc
    obtain ⟨s, hs, hne⟩ := hreq c hc
    have hce : c ≠ .email_address := by
      rintro rfl
      exact email_not_required hc
    have hcol := hcast c
    rw [submitted, if_neg hce, hs] at hcol
    exact castCol_ne_nil hcol hne
  · obtain ⟨s, hs, hb⟩ := hemail
    have hcol := hcast .email_address
    rw [submitted, if_pos rfl, hs] at hcol
    exact castCol_nonBlank hcol hb

theorem new_email {v : Value} (hp : IsPosted v)
    (h : v.isEmpty = true ∨ NonBlank v.toText) :
    ∃ s, (if v.isEmpty then Value.str (str "n/a") else v).bindStr = some s ∧ NonBlank s := by
  cases he : v.isEmpty with
  | true => exact ⟨str "n/a", rfl, nonBlank_na⟩
  | false =>
    have hb : NonBlank v.toText := h.resolve_left (by rw [he]; exact Bool.false_ne_true)
    rw [if_neg Bool.false_ne_true]
    cases v with
    | null => cases he
    | str s => exact ⟨s, rfl, hb⟩
    | arr es => exact ⟨_, rfl, hb⟩
    | bool b => exact hp.elim
    | int n => exact hp.elim
    | float x => exact hp.elim

theorem edit_email (v : Value) :
    ∃ s, (if (trim v).isEmpty then Value.str (str "n/a") else v).bindStr = some s ∧ NonBlank s := by
  cases he : (trim v).isEmpty with
  | true => exact ⟨str "n/a", rfl, nonBlank_na⟩
  | false =>
    rw [if_neg Bool.false_ne_true]
    exact trimmed_text he

/-! ## The steps -/

section
variable {sv : Server} {t : Table Asset Asset.id}

theorem completeTable_insert {e : Env} {vals : Col → Option Bytes} (h : CompleteTable t)
    (hv : t.next ≤ INT_MAX → ∀ f, sv.castAll vals = some f → CompleteRow f) :
    CompleteTable (execAssets sv e (.insertAsset vals) t) := by
  intro i r hr
  simp only [execAssets] at hr
  cases hf : sv.castAll vals with
  | none =>
    rw [hf] at hr
    exact h i r hr
  | some f =>
    rw [hf, Option.bind_some] at hr
    unfold insertNext at hr
    split at hr
    · next hnext =>
      rw [Option.getD_some, Table.get?_insert] at hr
      split at hr
      · cases hr
        exact hv hnext f hf
      · exact h i r hr
    · exact h i r hr

theorem completeTable_update {e : Env} {vals : Col → Option Bytes} {id : Option Int}
    (h : CompleteTable t)
    (hv : id.bind t.get? ≠ none → ∀ f, sv.castAll vals = some f → CompleteRow f) :
    CompleteTable (execAssets sv e (.updateAsset vals id) t) := by
  intro i r hr
  simp only [execAssets] at hr
  split at hr
  · next b f hb hf =>
    rw [get?_setRow] at hr
    split at hr
    · obtain ⟨r', hr', rfl⟩ := Option.map_eq_some_iff.mp hr
      exact hv (by rw [hb]; exact Option.some_ne_none b) f hf
    · exact h i r hr
  · exact h i r hr

theorem completeTable_remove (h : CompleteTable t) (ids : List (Option Int)) :
    CompleteTable (removeRows ids t) := by
  intro i r hr
  rw [get?_removeRows] at hr
  split at hr
  · cases hr
  · exact h i r hr

end

section
variable {I : Type} {sv : Server} {c : PageState I} {i : I} {env : Nat → Env}

/-- The assets are complete and nothing is kept for undo. -/
structure CompleteInv (c : PageState I) : Prop where
  rows : Complete c.db
  sess : ∀ j, NothingDeleted (c.sess j)

theorem complete_new_entry {b : Body} (h : Complete c.db)
    (ho : stepCompletes sv c i ⟨.new_entry, b⟩) :
    CompleteTable ((new_entry (c.sess i) b).run (exec sv) env c.db).2.assets := by
  have same : ∀ r, new_entry (c.sess i) b = .done r →
      CompleteTable ((new_entry (c.sess i) b).run (exec sv) env c.db).2.assets := by
    intro r hr
    rw [hr]
    exact h
  cases hu : (c.sess i).user with
  | none => exact same _ (by unfold new_entry; rw [hu]; rfl)
  | some u =>
    cases b with
    | get => exact same _ (by unfold new_entry; rw [hu])
    | post p =>
      have hne : (c.sess i).user ≠ none := by rw [hu]; exact Option.some_ne_none u
      rw [new_entry_assets hne, newAssets]
      split
      · next hm =>
        refine completeTable_insert h fun hnext f hf => ?_
        have hstored : sv.castAll (newValues p) ≠ none := by
          rw [hf]
          exact Option.some_ne_none f
        obtain ⟨hposted, hemail⟩ := ho hne hm hstored hnext
        exact completeRow_castAll hf
          (fun col hcol => posted_text (hposted col.name) (not_missing hm hcol))
          (new_email (hposted _) hemail)
      · exact h

theorem complete_edit_asset {b : Body} (h : Complete c.db)
    (ho : stepCompletes sv c i ⟨.edit_asset, b⟩) :
    CompleteTable ((edit_asset (c.sess i) b).run (exec sv) env c.db).2.assets := by
  cases hu : (c.sess i).user with
  | none =>
    rw [edit_asset_guest hu]
    exact h
  | some u =>
    rw [edit_asset_assets hu, editAssets]
    split
    · next hset =>
      refine completeTable_update h fun hid f hf => ?_
      have hfilled := ho (by rw [hu]; exact Option.some_ne_none u) hset hid
        (by rw [hf]; exact Option.some_ne_none f)
      exact completeRow_castAll hf hfilled (edit_email _)
    · exact h

end

section
variable {I : Type} [DecidableEq I] {sha256 : Bytes → Bytes} {sv : Server} {c₀ c : PageState I}
  {i : I} {q : Request} {env : Nat → Env}

/-- A request that meets `stepCompletes` keeps the assets complete. -/
theorem CompleteInv.step (h : CompleteInv c) (ho : stepCompletes sv c i q) :
    CompleteInv (c.served (inventory sha256 sv) i q env) := by
  have hl := (handle_leaves (c.sess i) sha256 q).run (exec sv) env c.db
  refine ⟨?_, fun j => ?_⟩
  · show CompleteTable ((handle sha256 q (c.sess i)).run (exec sv) env c.db).2.assets
    obtain ⟨page, b⟩ := q
    by_cases h1 : page = .new_entry
    · subst h1
      exact complete_new_entry h.rows ho
    by_cases h2 : page = .edit_asset
    · subst h2
      exact complete_edit_asset h.rows ho
    by_cases h3 : page = .delete_selected
    · subst h3
      rcases delete_selected_assets b env c.db with ⟨ids, hd⟩ | hd
      · exact hd ▸ completeTable_remove h.rows ids
      · exact hd ▸ h.rows
    by_cases h4 : page = .undo_delete
    · subst h4
      show CompleteTable ((undo_delete (c.sess i)).run (exec sv) env c.db).2.assets
      rw [undo_nothing (h.sess i)]
      exact h.rows
    · rw [handle_keeps_assets h1 h2 h3 h4]
      exact h.rows
  · show NothingDeleted (Function.update c.sess i _ j)
    by_cases hj : j = i
    · rw [hj, Function.update_self]
      exact hl.nothingDeleted (h.sess i)
    · rw [Function.update_of_ne hj]
      exact h.sess j

/-- **The assets stay complete** in every state that requests meeting `stepCompletes` reach. -/
theorem assets_stay_complete (h0 : Complete c₀.db) (hs : ∀ j, NothingDeleted (c₀.sess j))
    (h : Serial (inventory sha256 sv) (stepCompletes sv) c₀ c) : Complete c.db :=
  (h.invariant CompleteInv ⟨h0, hs⟩ fun _ _ _ _ hi ho => hi.step ho).rows

end

theorem complete_sample : Complete sample := by
  intro i r hr
  have hmem : r ∈ sample.assets.rows := (Table.get?_eq_some.mp hr).1
  have hfields : r.fields = sampleFields := by
    rcases List.mem_cons.mp hmem with rfl | hmem
    · rfl
    · cases List.mem_singleton.mp hmem
      rfl
  rw [hfields]
  constructor
  · intro c _
    exact ⟨sampleText c, rfl, by cases c <;> decide⟩
  · exact ⟨_, rfl, 117, by decide, by decide⟩

/-- The asset 33 is updated with the sample values. -/
theorem assets_stay_complete_sample : Complete ((loggedIn sample).served
    (inventory zeroHash .canonical) 0 (sampleEdit (str "33")) fun _ => .at 100).db := by
  have hs : ∀ j, NothingDeleted ((loggedIn sample).sess j) := fun _ => rfl
  refine assets_stay_complete complete_sample hs (.snoc _ .nil ?_)
  intro _ _ _ _ col _
  exact ⟨sampleText col, by cases col <;> decide, by cases col <;> decide⟩

/-- The sample values with an empty asset tag, posted for the asset 33. -/
def emptyTagEdit : Request :=
  ⟨.edit_asset, posted ((str "asset_tag", []) :: (Col.all.map (fun c => (c.name, sampleText c)) ++
    [(str "id", str "33"), (str "update", [])]))⟩

/-- An update stores an empty asset tag. -/
theorem empty_tag_stored : ¬ ∀ c : PageState Nat,
    Serial (inventory zeroHash .canonical) (fun _ _ _ => True) (loggedIn sample) c →
    Complete c.db := by
  intro h
  have hc := h _ (.snoc (i := 0) (q := emptyTagEdit) (fun _ => .at 100) .nil trivial)
  have hrow : ∃ r, ((loggedIn sample).served (inventory zeroHash .canonical) 0 emptyTagEdit
      fun _ => .at 100).db.assets.get? 33 = some r ∧ r.fields .asset_tag = some [] :=
    ⟨_, rfl, by decide⟩
  obtain ⟨r, hr, htag⟩ := hrow
  obtain ⟨s, hs, hne⟩ := (hc 33 r hr).required .asset_tag (by decide)
  rw [htag] at hs
  cases hs
  exact hne rfl

end Inventory
