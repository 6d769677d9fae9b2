import Inventory.Model.EditForm
import Inventory.Model.Serving

/-!
# Loading and submitting the edit form

A session that was shown the form of an asset types new values into some of its
fields (`retype`) and submits it: `editValues_formPost` gives the values the
update stores, `submit_run` what becomes of the row.
-/

namespace Inventory

open Lib Php Html

/-- `$_POST` for the entries of a form; the last one of a name counts. -/
def formPost (es : List (Bytes × Bytes)) : Post := fun n =>
  match es.reverse.find? fun e => e.1 == n with
  | some e => .str e.2
  | none => .null

/-- New values typed into the fields of some columns. -/
def retype (ch : Col → Option Bytes) (ks : List Control) : List Control :=
  ks.map fun k =>
    { k with value := ((Col.all.find? fun c => c.name == k.name).bind ch).getD k.value }

/-- The text that the form sends for a column. -/
def Asset.typed (a : Asset) (ch : Col → Option Bytes) (c : Col) : Option Bytes :=
  (a.control c).map fun k => (ch c).getD k.value

/-- `trim` leaves nothing but an empty text or "0". -/
def Blank (t : Bytes) : Prop := (Value.str (trimText t)).isEmpty = true

instance (t : Bytes) : Decidable (Blank t) := by unfold Blank; infer_instance

/-- The email address edit_asset.php stores for the one that was sent. -/
def emailText : Option Bytes → Bytes
  | some t => if (Value.str (trimText t)).isEmpty then str "n/a" else t
  | none => str "n/a"

/-- The value that the submitted form stores in a column. -/
def Asset.resent (a : Asset) (ch : Col → Option Bytes) (c : Col) : Option Bytes :=
  if c = .email_address then some (emailText (a.typed ch c)) else a.typed ch c

theorem formPost_of_mem {es : List (Bytes × Bytes)} (hd : (es.map Prod.fst).Nodup) {n v : Bytes}
    (h : (n, v) ∈ es) : formPost es n = .str v := by
  unfold formPost
  cases hf : es.reverse.find? fun e => e.1 == n with
  | none => exact absurd (by simp) (List.find?_eq_none.mp hf (n, v) (List.mem_reverse.mpr h))
  | some e =>
    have hmem : e ∈ es := List.mem_reverse.mp (List.mem_of_find?_eq_some hf)
    have hn : e.1 = n := by simpa using List.find?_some hf
    have he : e = (n, v) := List.inj_on_of_nodup_map hd hmem h hn
    rw [he]

theorem formPost_of_not_mem {es : List (Bytes × Bytes)} {n : Bytes} (h : n ∉ es.map Prod.fst) :
    formPost es n = .null := by
  unfold formPost
  have hf : es.reverse.find? (fun e => e.1 == n) = none := by
    rw [List.find?_eq_none]
    intro e he hn
    exact h (List.mem_map.mpr ⟨e, List.mem_reverse.mp he, beq_iff_eq.mp hn⟩)
  rw [hf]

/-! ## The entries of the edit form -/

section
variable {a : Asset} {ch : Col → Option Bytes} {c : Col}

theorem name_of_control {k : Control} (h : a.control c = some k) : k.name = c.name := by
  unfold Asset.control at h
  split at h
  · unfold inputControl at h
    split at h
    · cases h
    · cases h
      rfl
  · unfold inputControl at h
    split at h
    · cases h
    · cases h
      rfl
  · cases h
    rfl
  · cases h
    rfl

theorem find?_name (c : Col) : (Col.all.find? fun d => d.name == c.name) = some c := by
  cases hf : Col.all.find? fun d => d.name == c.name with
  | none => exact absurd (by simp) (List.find?_eq_none.mp hf c (Col.mem_all c))
  | some d =>
    have hn : d.name = c.name := by simpa using List.find?_some hf
    rw [Col.name_injective hn]

theorem retype_none (ks : List Control) : retype (fun _ => none) ks = ks := by
  have hk : ∀ k : Control, { k with value :=
      ((Col.all.find? fun c => c.name == k.name).bind fun _ => none).getD k.value } = k := by
    intro k
    cases Col.all.find? fun c => c.name == k.name <;> rfl
  unfold retype
  simp only [hk, List.map_id']

/-- The entries of the columns. -/
def Asset.entries (a : Asset) (ch : Col → Option Bytes) : List (Bytes × Bytes) :=
  Col.all.filterMap fun c => (a.typed ch c).map fun v => (c.name, v)

theorem mem_entries {n v : Bytes} :
    (n, v) ∈ a.entries ch ↔ ∃ c : Col, c.name = n ∧ a.typed ch c = some v := by
  unfold Asset.entries
  rw [List.mem_filterMap]
  constructor
  · rintro ⟨c, -, hc⟩
    obtain ⟨w, hw, he⟩ := Option.map_eq_some_iff.mp hc
    cases he
    exact ⟨c, rfl, hw⟩
  · rintro ⟨c, rfl, hc⟩
    exact ⟨c, Col.mem_all c, by rw [hc]; rfl⟩

theorem names_entries_sublist : ((a.entries ch).map Prod.fst).Sublist (Col.all.map Col.name) := by
  unfold Asset.entries
  generalize Col.all = cs
  induction cs with
  | nil => exact List.Sublist.refl _
  | cons c cs ih =>
    rw [List.filterMap_cons]
    cases a.typed ch c with
    | none => exact ih.cons _
    | some v => exact ih.cons_cons _

theorem submission_retype {checks : Bool} {es : List (Bytes × Bytes)}
    (h : submission checks (retype ch (controls (editForm a))) = some es) :
    es = (str "id", Bytes.intText a.id) :: (a.entries ch ++ [(str "update", [])]) := by
  have hid : (Col.all.find? fun c => c.name == str "id") = none := by decide
  have hupdate : (Col.all.find? fun c => c.name == str "update") = none := by decide
  have hcols : ∀ cs : List Col, ((retype ch (cs.filterMap a.control)).map fun k => (k.name, k.value)) =
      cs.filterMap fun c => (a.typed ch c).map fun v => (c.name, v) := by
    intro cs
    induction cs with
    | nil => rfl
    | cons c cs ih =>
      rw [List.filterMap_cons, List.filterMap_cons, Asset.typed]
      cases hk : a.control c with
      | none => exact ih
      | some k =>
        simp only [Option.map_some, retype, List.map_cons, name_of_control hk, find?_name,
          Option.bind_some]
        exact congrArg (_ :: ·) ih
  unfold submission at h
  split at h
  · cases h
  · cases h
    rw [controls_editForm, retype, List.map_cons, List.map_append, ← retype, List.map_cons,
      List.map_append, hcols]
    simp only [hid, hupdate, List.map_cons, List.map_nil]
    rfl

/-- **What the update stores for the submitted form**, and the id it is for. -/
theorem formPost_submission {checks : Bool} {es : List (Bytes × Bytes)}
    (h : submission checks (retype ch (controls (editForm a))) = some es) :
    editValues (formPost es) = a.resent ch ∧
      formPost es (str "id") = .str (Bytes.intText a.id) ∧
      formPost es (str "update") = .str [] := by
  have hes := submission_retype h
  have hsub : (es.map Prod.fst).Sublist (str "id" :: (Col.all.map Col.name ++ [str "update"])) := by
    rw [hes, List.map_cons, List.map_append]
    exact (names_entries_sublist.append (List.Sublist.refl _)).cons_cons _
  have hnodup : (str "id" :: (Col.all.map Col.name ++ [str "update"])).Nodup := by decide
  have hd : (es.map Prod.fst).Nodup := hsub.nodup hnodup
  have hcol : ∀ c : Col, (formPost es c.name).bindStr = a.typed ch c ∧
      formPost es c.name = (a.typed ch c).elim .null .str := by
    intro c
    cases ht : a.typed ch c with
    | some v =>
      have hmem : (c.name, v) ∈ es := by
        rw [hes]
        exact List.mem_cons_of_mem _ (List.mem_append_left _ (mem_entries.mpr ⟨c, rfl, ht⟩))
      rw [formPost_of_mem hd hmem]
      exact ⟨rfl, rfl⟩
    | none =>
      have hnot : c.name ∉ es.map Prod.fst := by
        have hid : c.name ≠ str "id" ∧ c.name ≠ str "update" := by cases c <;> decide
        rw [hes, List.map_cons, List.map_append, List.mem_cons, List.mem_append, List.mem_map]
        rintro (hn | ⟨⟨n, v⟩, hmem, hn⟩ | hn)
        · exact hid.1 hn
        · obtain ⟨d, hd, hv⟩ := mem_entries.mp hmem
          rw [Col.name_injective (hd.trans hn), ht] at hv
          cases hv
        · exact hid.2 (List.mem_singleton.mp hn)
      rw [formPost_of_not_mem hnot]
      exact ⟨rfl, rfl⟩
  refine ⟨?_, ?_, ?_⟩
  · funext c
    unfold editValues submitted Asset.resent
    by_cases hc : c = .email_address
    · rw [if_pos hc, if_pos hc, show str "email_address" = Col.email_address.name from rfl,
        (hcol .email_address).2, hc]
      cases a.typed ch .email_address with
      | none => rfl
      | some t =>
        show (if (Value.str (trimText t)).isEmpty = true then Value.str (str "n/a")
            else Value.str t).bindStr =
          some (if (Value.str (trimText t)).isEmpty = true then str "n/a" else t)
        split <;> rfl
    · rw [if_neg hc, if_neg hc, (hcol c).1]
  · exact formPost_of_mem hd (by rw [hes]; exact List.mem_cons_self)
  · exact formPost_of_mem hd (by rw [hes]; simp)

end

/-! ## The requests -/

section
variable {I : Type} [DecidableEq I] {sha256 : Bytes → Bytes} {sv : Server} {c : PageState I}
  {i : I} {env : Nat → Env} {a b : Asset}

/-- A request to edit_asset.php logs nobody in or out. -/
theorem edit_keeps_user (body : Body) (k : I) :
    ((c.served (inventory sha256 sv) i ⟨.edit_asset, body⟩ env).sess k).user = (c.sess k).user := by
  show (Function.update c.sess i _ k).user = _
  by_cases hk : k = i
  · rw [hk, Function.update_self]
    obtain ⟨queue, hq⟩ := (ends_edit_asset (c.sess i) body).run (exec sv) env c.db
    show ((edit_asset (c.sess i) body).run (exec sv) env c.db).1.1.user = _
    rw [hq]
  · rw [Function.update_of_ne hk]

/-- A form that was shown is that of a row, to a user who stays logged in. -/
theorem form_shown {body : Body}
    (h : (c.answer (inventory sha256 sv) i ⟨.edit_asset, body⟩ env).form = some a) :
    ((c.served (inventory sha256 sv) i ⟨.edit_asset, body⟩ env).sess i).user ≠ none ∧
      (c.served (inventory sha256 sv) i ⟨.edit_asset, body⟩ env).db.asset a.id = some a := by
  obtain ⟨hu, ha⟩ := edit_asset_form h
  rw [edit_keeps_user]
  exact ⟨hu, ha⟩

/-- **What becomes of the row when its form is submitted.** -/
theorem submit_row {checks : Bool} {ch : Col → Option Bytes} {es : List (Bytes × Bytes)}
    (hu : (c.sess i).user ≠ none) (hb : c.db.asset a.id = some b)
    (he : submission checks (retype ch (controls (editForm a))) = some es) :
    (c.served (inventory sha256 sv) i ⟨.edit_asset, .post (formPost es)⟩ env).db.asset a.id =
      (sv.castAll (a.resent ch)).elim (some b)
        fun f => some { b with fields := f, timestamp := (env 0).now } := by
  obtain ⟨u, hu⟩ := Option.ne_none_iff_exists'.mp hu
  obtain ⟨hv, hid, hup⟩ := formPost_submission he
  have hkey : b.id = a.id := Table.key_of_get? hb
  have hbind : (formPost es (str "id")).bindInt = some b.id := by
    rw [hid, hkey]
    exact bindInt_intText a.idMin a.idMax
  have hset : (formPost es (str "update")).isSet = true := by
    rw [hup]
    rfl
  have hrow : c.db.assets.get? b.id = some b := by
    rw [hkey]
    exact hb
  show ((edit_asset (c.sess i) (.post (formPost es))).run (exec sv) env c.db).2.assets.get? a.id = _
  rw [edit_asset_assets hu, editAssets, Body.fields, if_pos hset, hv, hbind,
    execAssets_update hrow, ← hkey]
  cases sv.castAll (a.resent ch) with
  | none => exact hrow
  | some f =>
    rw [Option.elim_some, get?_setRow, if_pos rfl, hrow]
    rfl

end

end Inventory
