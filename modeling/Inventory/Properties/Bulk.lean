import Inventory.Model.Submission
import Inventory.Properties.Batch
import Inventory.Properties.Linearizable
import Inventory.Properties.Selection

/-!
# From the list to the assets

What Delete Selected and Batch Edit Selected do in the end. The list was loaded
from some reachable state, the user selected rows on it, and the button is
pressed in a later state, after other sessions have done what they did:
`stale_delete` says which assets are gone then. `batch_edits_selection` follows
a batch from the selection to its last form. As for the selection, the list is
one whose option texts hold no markup (`Screen.load`).
-/

namespace Inventory

open Lib Php Html

/-- The form data of both buttons: `selected_ids` with `JSON.stringify(selected)`. -/
def selectionPost (selected : List Bytes) : Post := fun n =>
  if n = str "selected_ids" then .str (Json.stringify selected) else .null

/-- The ids of assets. -/
def idsOf (l : List Asset) : List Int := l.map Asset.id

/-- The list as a user sees it after some events on a page that was loaded. -/
def Screen.of (lc : LowerCase) (sv : Server) (d : Db) (es : List UserEvent) : Screen :=
  (Screen.load sv d.assets.rows).played lc es

/-- The assets of the highlighted rows of the list. -/
def selection (lc : LowerCase) (sv : Server) (d : Db) (es : List UserEvent) : List Asset :=
  (Screen.of lc sv d es).highlighted d.assets.rows

section
variable {lc : LowerCase} {sv : Server} {d : Db} {es : List UserEvent} {ids : List Bytes}

theorem selectedIds_of : (Screen.of lc sv d es).selectedIds =
    (idsOf (selection lc sv d es)).map Bytes.intText := by
  have hcons : Consistent (Screen.of lc sv d es) := (Consistent.load sv d.assets.rows).played es
  have hcheck : (Screen.of lc sv d es).rows.map Row.check =
      (tableRows sv d.assets.rows).map Row.check :=
    played_fixed (fun _ _ _ _ => rfl) (Screen.load sv d.assets.rows) es
  rw [selectedIds_eq hcons hcheck, idsOf, List.map_map]
  rfl

/-- What Delete Selected sends. -/
theorem pressDelete_selection {ok : Bool} (h : (Screen.of lc sv d es).pressDelete ok = some ids) :
    ids = (idsOf (selection lc sv d es)).map Bytes.intText ∧ ids ≠ [] := by
  have hcons : Consistent (Screen.of lc sv d es) := (Consistent.load sv d.assets.rows).played es
  rw [pressDelete_eq hcons] at h
  split at h
  · next hne =>
    cases h
    exact ⟨selectedIds_of, hne.2⟩
  · cases h

/-- What Batch Edit Selected submits. -/
theorem pressEdit_selection (h : (Screen.of lc sv d es).pressEdit = some ids) :
    ids = (idsOf (selection lc sv d es)).map Bytes.intText ∧ ids ≠ [] := by
  have hcons : Consistent (Screen.of lc sv d es) := (Consistent.load sv d.assets.rows).played es
  rw [pressEdit_eq hcons] at h
  split at h
  · cases h
  · next hne =>
    cases h
    exact ⟨selectedIds_of, hne⟩

theorem selection_subset : selection lc sv d es ⊆ d.assets.rows :=
  (highlighted_sublist _ _).subset

theorem nodup_selection : (idsOf (selection lc sv d es)).Nodup := by
  have h := nodup_idText d (highlighted_sublist (Screen.of lc sv d es) d.assets.rows)
  have he : (selection lc sv d es).map Asset.idText =
      (idsOf (selection lc sv d es)).map Bytes.intText := by
    rw [idsOf, List.map_map]
    rfl
  exact List.Nodup.of_map Bytes.intText (he ▸ h)

end

/-! ## Delete Selected -/

section
variable {s : Session} {u : Bytes} {l : List Asset}

theorem selectionPost_ids (l : List Asset) :
    selectionPost ((idsOf l).map Bytes.intText) (str "selected_ids") = selectedIds (idsOf l) :=
  if_pos rfl

theorem unpackable_list (vs : List Value) : unpackable (.list vs) = true := by
  show List.all _ _ = true
  rw [List.all_eq_true]
  intro e he
  obtain ⟨p, -, rfl⟩ := List.mem_map.mp he
  rfl

theorem bindInt_ids (l : List Asset) :
    (Value.list ((idsOf l).map idValue)).elems.map Value.bindInt = (idsOf l).map some := by
  rw [Value.elems_list, idsOf, List.map_map, List.map_map, List.map_map]
  exact List.map_congr_left fun a _ => bindInt_intText a.idMin a.idMax

/-- The request of Delete Selected deletes the listed rows, if they are not too many. -/
theorem delete_selection (hu : s.user = some u) (hn : (Value.str u).isEmpty = false) (hl : l ≠ []) :
    delete_selected s (.post (selectionPost ((idsOf l).map Bytes.intText))) =
      if MAX_PLACEHOLDERS < l.length then .done (s, .text (str "prep_error"))
      else deleteRows s u (.list ((idsOf l).map idValue)) := by
  have hlen : (Value.list ((idsOf l).map idValue)).elems.length = l.length := by
    simp [idsOf]
  have hne : (Value.list ((idsOf l).map idValue)).elems ≠ [] := fun e => by
    rw [← List.length_eq_zero_iff, hlen] at e
    exact hl (List.length_eq_zero_iff.mp e)
  unfold delete_selected
  rw [hu]
  dsimp only
  rw [if_neg (by rw [hn]; exact Bool.false_ne_true), selectionPost_ids, json_decode_selectedIds,
    if_neg hne, hlen]
  split
  · rfl
  · rw [if_neg (by rw [unpackable_list]; exact fun h => h rfl)]

end

section
variable {I : Type} [DecidableEq I] {sha256 : Bytes → Bytes} {sv : Server} {lc : LowerCase}
  {c₀ c₁ c₂ : PageState I} {evs₁ : List (PageEvent I)}
  {ok : PageState I → PageEvent I → Prop} {i : I} {es : List UserEvent} {ids : List Bytes}
  {u : Bytes} {env : Nat → Env}

/-- **Delete Selected on a list that may be out of date.** When the button is pressed, the answer is
"success", the highlighted assets are gone and all others are as they were; and each highlighted
asset that was still there had been there ever since the list was loaded, so it is the one the
user saw. Only a selection of more than 65535 rows is refused, and changes nothing. -/
theorem stale_delete (h0 : AtRest c₀) (h₁ : Run (inventory sha256 sv) ok c₀ evs₁ c₁)
    (hu : (c₂.sess i).user = some u) (hn : (Value.str u).isEmpty = false)
    (hp : (Screen.of lc sv c₁.db es).pressDelete true = some ids) :
    let q : Request := ⟨.delete_selected, .post (selectionPost ids)⟩
    let c₃ := c₂.served (inventory sha256 sv) i q env
    if MAX_PLACEHOLDERS < (selection lc sv c₁.db es).length then
      c₂.answer (inventory sha256 sv) i q env = .text (str "prep_error") ∧
        c₃.db.assets = c₂.db.assets
    else
      c₂.answer (inventory sha256 sv) i q env = .text (str "success") ∧
        (∀ j, c₃.db.asset j =
          if j ∈ idsOf (selection lc sv c₁.db es) then none else c₂.db.asset j) ∧
        ∀ j ∈ idsOf (selection lc sv c₁.db es), c₂.db.asset j ≠ none →
          ∀ before after c, Run (inventory sha256 sv) ok c₁ before c →
            Run (inventory sha256 sv) ok c after c₂ → c.db.asset j ≠ none := by
  intro q c₃
  obtain ⟨rfl, hne⟩ := pressDelete_selection hp
  have hl : selection lc sv c₁.db es ≠ [] := fun e => hne (by rw [e]; rfl)
  have hh : (inventory sha256 sv).handle q (c₂.sess i) = _ := delete_selection hu hn hl
  have hassets : c₃.db.assets =
      (((inventory sha256 sv).handle q (c₂.sess i)).run (exec sv) env c₂.db).2.assets := rfl
  have hanswer : c₂.answer (inventory sha256 sv) i q env =
      (((inventory sha256 sv).handle q (c₂.sess i)).run (exec sv) env c₂.db).1.2 := rfl
  rw [hanswer, hassets, hh]
  split
  · exact ⟨rfl, rfl⟩
  · refine ⟨rfl, fun j => ?_, fun j hj ht before after c hb ha => ?_⟩
    · show c₃.db.assets.get? j = _
      rw [hassets, hh, if_neg (by assumption), deleteRows_assets, bindInt_ids, get?_removeRows]
      simp only [List.mem_map, Option.some.injEq, exists_eq_right]
      rfl
    · obtain ⟨a, hmem, rfl⟩ := List.mem_map.mp hj
      exact there_before h0 h₁ hb ha (c₁.db.assets.below a (selection_subset hmem)) ht

end

/-! ## Batch Edit Selected -/

/-- What is typed into the fields of a form. -/
abbrev Typed := Col → Option Bytes

/-- A batch of session `i`, from the press of the button on: the forms that were shown, with what
was typed into each before it was submitted. -/
inductive Edits {I : Type} [DecidableEq I] (sha256 : Bytes → Bytes) (sv : Server) (i : I)
    (selected : List Bytes) (c₀ : PageState I) :
    List (Asset × Typed) → PageState I → Response → Prop where
  | start (env : Nat → Env) :
      Edits sha256 sv i selected c₀ []
        (c₀.served (inventory sha256 sv) i ⟨.edit_asset, .post (selectionPost selected)⟩ env)
        (c₀.answer (inventory sha256 sv) i ⟨.edit_asset, .post (selectionPost selected)⟩ env)
  | submit {done : List (Asset × Typed)} {c : PageState I} {r : Response} {a : Asset} {ch : Typed}
      {checks : Bool} {es : List (Bytes × Bytes)} (env : Nat → Env)
      (h : Edits sha256 sv i selected c₀ done c r) (ha : r.form = some a)
      (he : submission checks (retype ch (controls (editForm a))) = some es) :
      Edits sha256 sv i selected c₀ (done ++ [(a, ch)])
        (c.served (inventory sha256 sv) i ⟨.edit_asset, .post (formPost es)⟩ env)
        (c.answer (inventory sha256 sv) i ⟨.edit_asset, .post (formPost es)⟩ env)

theorem starts_selection (l : List Asset) :
    Starts (idsOf l) (selectionPost ((idsOf l).map Bytes.intText)) :=
  ⟨selectionPost_ids l, rfl⟩

section
variable {a : Asset} {ch : Typed} {checks : Bool} {es : List (Bytes × Bytes)}

/-- The form sends nothing under another name. -/
theorem formPost_other (he : submission checks (retype ch (controls (editForm a))) = some es)
    {n : Bytes} (hid : n ≠ str "id") (hup : n ≠ str "update") (hcol : ∀ c : Col, c.name ≠ n) :
    formPost es n = .null := by
  refine formPost_of_not_mem ?_
  rw [submission_retype he, List.map_cons, List.map_append, List.mem_cons, List.mem_append]
  rintro (h | h | h)
  · exact hid h
  · obtain ⟨⟨m, v⟩, hmem, rfl⟩ := List.mem_map.mp h
    obtain ⟨c, hc, -⟩ := mem_entries.mp hmem
    exact hcol c hc
  · exact hup (List.mem_singleton.mp h)

theorem submits_form (he : submission checks (retype ch (controls (editForm a))) = some es) :
    Submits a.id (formPost es) ∧ (formPost es (str "manual_id")).isSet = false := by
  obtain ⟨-, hid, hup⟩ := formPost_submission he
  refine ⟨⟨by rw [hup]; rfl, hid, ?_⟩, ?_⟩
  · rw [formPost_other he (by decide) (by decide) (by decide)]
    rfl
  · rw [formPost_other he (by decide) (by decide) (by decide)]
    rfl

variable {I : Type} [DecidableEq I] {sha256 : Bytes → Bytes} {sv : Server} {c : PageState I}
  {i : I} {env : Nat → Env}

/-- A form that is submitted leaves the other rows as they are. -/
theorem submit_other (hu : (c.sess i).user ≠ none)
    (he : submission checks (retype ch (controls (editForm a))) = some es) {j : Int}
    (hj : j ≠ a.id) :
    (c.served (inventory sha256 sv) i ⟨.edit_asset, .post (formPost es)⟩ env).db.asset j =
      c.db.asset j := by
  obtain ⟨u, hu⟩ := Option.ne_none_iff_exists'.mp hu
  obtain ⟨-, hid, hup⟩ := formPost_submission he
  have hbind : (formPost es (str "id")).bindInt = some a.id := by
    rw [hid]
    exact bindInt_intText a.idMin a.idMax
  have hset : (formPost es (str "update")).isSet = true := by
    rw [hup]
    rfl
  show ((edit_asset (c.sess i) (.post (formPost es))).run (exec sv) env c.db).2.assets.get? j = _
  rw [edit_asset_assets hu, editAssets, Body.fields, if_pos hset, hbind]
  simp only [execAssets, Option.bind_some]
  cases hr : c.db.assets.get? a.id with
  | none => rfl
  | some r =>
    have hne : j ≠ r.id := by rwa [Table.key_of_get? hr]
    cases sv.castAll (editValues (formPost es)) with
    | none => rfl
    | some f => exact (get?_setRow ..).trans (if_neg hne)

/-- The form that is shown is that of the first asset in the queue, while its row is as it was. -/
theorem form_head {p : Post} {left : List Asset} (hu : (c.sess i).user ≠ none)
    (hq : nextQueue p (c.sess i).edit_queue = some (.list ((idsOf left).map idValue)))
    (hm : (p (str "manual_id")).isSet = false) (hpos : ∀ a ∈ left, 0 < a.id)
    (hex : ∀ a ∈ left, c.db.asset a.id ≠ none)
    (hrows : ∀ a ∈ left,
      (c.served (inventory sha256 sv) i ⟨.edit_asset, .post p⟩ env).db.asset a.id = some a) :
    (c.answer (inventory sha256 sv) i ⟨.edit_asset, .post p⟩ env).form = left.head? := by
  obtain ⟨-, -, d', hd', hform⟩ := @afterEdit_eq sv _ p env c.db _ hu hq
  have hanswer : (c.answer (inventory sha256 sv) i ⟨.edit_asset, .post p⟩ env).form =
      formAsset d' (.list ((idsOf left).map idValue)) p := hform
  have hids : (formAsset d' (.list ((idsOf left).map idValue)) p).map Asset.id =
      (idsOf left).head? := by
    refine formAsset_ids hm (fun j hj => ?_) fun j hj hn => ?_
    · obtain ⟨a, ha, rfl⟩ := List.mem_map.mp hj
      exact hpos a ha
    · obtain ⟨a, ha, rfl⟩ := List.mem_map.mp hj
      exact hex a ha ((hd' _).mp hn)
  rw [← hanswer] at hids
  cases left with
  | nil => exact Option.map_eq_none_iff.mp hids
  | cons a rest =>
    obtain ⟨b, hb, hid⟩ := Option.map_eq_some_iff.mp hids
    have hrow := (form_shown hb).2
    rw [hid, hrows a List.mem_cons_self] at hrow
    rw [hb, ← hrow]
    rfl

/-- The session after a request to edit_asset.php whose queue is known. -/
theorem sess_next {p : Post} {next : Value} (hu : (c.sess i).user ≠ none)
    (hq : nextQueue p (c.sess i).edit_queue = some next) :
    ((c.served (inventory sha256 sv) i ⟨.edit_asset, .post p⟩ env).sess i).user ≠ none ∧
      ((c.served (inventory sha256 sv) i ⟨.edit_asset, .post p⟩ env).sess i).edit_queue = next := by
  have hs : (c.served (inventory sha256 sv) i ⟨.edit_asset, .post p⟩ env).sess i =
      (afterEdit sv (c.sess i) p env c.db).1 := Function.update_self ..
  obtain ⟨h1, h2, -⟩ := @afterEdit_eq sv _ p env c.db _ hu hq
  rw [hs]
  exact ⟨h1, h2⟩

end

/-- How far a batch is: what is left of the selection is in the queue, the rows that were edited
hold what was typed, and no other row has changed. -/
structure Progress {I : Type} (sv : Server) (i : I) (c₀ : PageState I) (selected : List Asset)
    (done : List (Asset × Typed)) (left : List Asset) (c : PageState I) (r : Response) : Prop where
  selected : selected = done.map Prod.fst ++ left
  user : (c.sess i).user ≠ none
  queue : (c.sess i).edit_queue = .list ((idsOf left).map idValue)
  form : r.form = left.head?
  edited : ∀ a ch, (a, ch) ∈ done →
    (c.db.asset a.id).map Asset.fields = some ((sv.castAll (a.resent ch)).getD a.fields)
  others : ∀ j, j ∉ idsOf (done.map Prod.fst) → c.db.asset j = c₀.db.asset j

section
variable {I : Type} {sv : Server} {c₀ c : PageState I} {i : I} {r : Response}
  {done : List (Asset × Typed)} {selected left : List Asset}

theorem Progress.disjoint (h : Progress sv i c₀ selected done left c r)
    (hnd : (idsOf selected).Nodup) {j : Int} (hj : j ∈ idsOf (done.map Prod.fst)) :
    j ∉ idsOf left := by
  intro hj'
  have hids : idsOf selected = idsOf (done.map Prod.fst) ++ idsOf left := by
    rw [h.selected, idsOf, List.map_append]
    rfl
  rw [hids] at hnd
  exact (List.nodup_append.mp hnd).2.2 j hj j hj' rfl

/-- What is left has not changed since the list was loaded. -/
theorem Progress.unchanged (h : Progress sv i c₀ selected done left c r)
    (hnd : (idsOf selected).Nodup) (hrows : ∀ a ∈ selected, c₀.db.asset a.id = some a) {b : Asset}
    (hb : b ∈ left) : c.db.asset b.id = some b := by
  have hmem : b ∈ selected := by
    rw [h.selected]
    exact List.mem_append_right _ hb
  have hdone : b.id ∉ idsOf (done.map Prod.fst) := fun hj =>
    h.disjoint hnd hj (List.mem_map_of_mem hb)
  rw [h.others _ hdone, hrows b hmem]

end

section
variable {I : Type} [DecidableEq I] {sha256 : Bytes → Bytes} {sv : Server} {lc : LowerCase}
  {c₀ c : PageState I} {i : I} {es : List UserEvent} {ids : List Bytes} {r : Response}
  {done : List (Asset × Typed)} {selected left : List Asset}

/-- The first request starts the batch. -/
theorem progress_start {env : Nat → Env} (hu : (c₀.sess i).user ≠ none)
    (hpos : ∀ a ∈ selected, 0 < a.id) (hrows : ∀ a ∈ selected, c₀.db.asset a.id = some a) :
    let q : Request := ⟨.edit_asset, .post (selectionPost ((idsOf selected).map Bytes.intText))⟩
    Progress sv i c₀ selected [] selected (c₀.served (inventory sha256 sv) i q env)
      (c₀.answer (inventory sha256 sv) i q env) := by
  intro q
  have hq := nextQueue_starts (starts_selection selected) (c₀.sess i).edit_queue
  obtain ⟨huser, hqueue⟩ := @sess_next I _ sha256 sv c₀ i env _ _ hu hq
  have hassets : (c₀.served (inventory sha256 sv) i q env).db.assets = c₀.db.assets := by
    obtain ⟨u, hu⟩ := Option.ne_none_iff_exists'.mp hu
    have hno : ¬ (q.body.fields (str "update")).isSet = true :=
      fun e => absurd ((starts_selection selected).noUpdate.symm.trans e) Bool.false_ne_true
    exact (edit_asset_assets hu _ env c₀.db).trans (if_neg hno)
  have hasset : ∀ j, (c₀.served (inventory sha256 sv) i q env).db.asset j = c₀.db.asset j :=
    fun j => by rw [Db.asset, Db.asset, hassets]
  refine ⟨rfl, huser, hqueue, ?_, ?_, fun j _ => hasset j⟩
  · refine form_head hu hq rfl hpos (fun a ha => ?_) fun a ha => ?_
    · rw [hrows a ha]
      exact Option.some_ne_none a
    · rw [hasset, hrows a ha]
  · intro a ch hm
    cases hm

/-- **One form of the batch** is submitted: its row is edited, and the next one is shown. -/
theorem Progress.submit {a : Asset} {ch : Typed} {checks : Bool} {fs : List (Bytes × Bytes)}
    {env : Nat → Env} (h : Progress sv i c₀ selected done left c r)
    (hnd : (idsOf selected).Nodup) (hpos : ∀ a ∈ selected, 0 < a.id)
    (hrows : ∀ a ∈ selected, c₀.db.asset a.id = some a) (ha : r.form = some a)
    (he : submission checks (retype ch (controls (editForm a))) = some fs) :
    ∃ rest, left = a :: rest ∧ Progress sv i c₀ selected (done ++ [(a, ch)]) rest
      (c.served (inventory sha256 sv) i ⟨.edit_asset, .post (formPost fs)⟩ env)
      (c.answer (inventory sha256 sv) i ⟨.edit_asset, .post (formPost fs)⟩ env) := by
  obtain ⟨rest, rfl⟩ : ∃ rest, left = a :: rest := by
    have hf := h.form.symm.trans ha
    cases left with
    | nil => cases hf
    | cons b rest =>
      cases hf
      exact ⟨rest, rfl⟩
  refine ⟨rest, rfl, ?_⟩
  obtain ⟨hsub, hm⟩ := submits_form he
  have hne : ∀ b ∈ rest, b.id ≠ a.id := by
    have hleft : (idsOf (a :: rest)).Nodup := by
      rw [h.selected, idsOf, List.map_append] at hnd
      exact (List.nodup_append.mp hnd).2.1
    exact fun b hb e => (List.nodup_cons.mp hleft).1 (e ▸ List.mem_map_of_mem hb)
  have hbefore : ∀ b ∈ a :: rest, c.db.asset b.id = some b := fun b hb =>
    h.unchanged hnd hrows hb
  have hother : ∀ j, j ≠ a.id → (c.served (inventory sha256 sv) i
      ⟨.edit_asset, .post (formPost fs)⟩ env).db.asset j = c.db.asset j := fun j hj =>
    submit_other h.user he hj
  have hq : nextQueue (formPost fs) (c.sess i).edit_queue =
      some (.list ((idsOf rest).map idValue)) := by
    rw [h.queue, nextQueue_submits hsub, show idsOf (a :: rest) = a.id :: idsOf rest from rfl,
      List.erase_cons_head]
  obtain ⟨huser, hqueue⟩ := @sess_next I _ sha256 sv c i env _ _ h.user hq
  refine ⟨?_, huser, hqueue, ?_, fun b ch' hb => ?_, fun j hj => ?_⟩
  · rw [h.selected, List.map_append, List.append_assoc]
    rfl
  · refine form_head h.user hq hm (fun b hb => hpos b ?_) (fun b hb => ?_) fun b hb => ?_
    · rw [h.selected]
      exact List.mem_append_right _ (List.mem_cons_of_mem _ hb)
    · rw [hbefore b (List.mem_cons_of_mem _ hb)]
      exact Option.some_ne_none b
    · rw [hother _ (hne b hb), hbefore b (List.mem_cons_of_mem _ hb)]
  · rcases List.mem_append.mp hb with hb | hb
    · have hj : b.id ∈ idsOf (done.map Prod.fst) :=
        List.mem_map_of_mem (List.mem_map_of_mem hb)
      rw [hother _ fun e : b.id = a.id => h.disjoint hnd hj (e ▸ List.mem_cons_self)]
      exact h.edited b ch' hb
    · cases List.mem_singleton.mp hb
      rw [submit_row h.user (hbefore a List.mem_cons_self) he]
      cases sv.castAll (a.resent ch) <;> rfl
  · have hj' : j ∉ idsOf (done.map Prod.fst) ∧ j ≠ a.id := by
      simpa [idsOf, not_or] using hj
    rw [hother j hj'.2]
    exact h.others j hj'.1

/-- **A batch edit rewrites the assets of the selection.** The forms come in the order of the list,
each with the row as it was listed; a form that is submitted stores in its row what was typed, or
nothing if the columns do not accept it; no other row changes, and after the last row no form is
shown. -/
theorem batch_edits_selection (hu : (c₀.sess i).user ≠ none)
    (hpos : ∀ a ∈ c₀.db.assets.rows, 0 < a.id)
    (hp : (Screen.of lc sv c₀.db es).pressEdit = some ids)
    (h : Edits sha256 sv i ids c₀ done c r) :
    ∃ left, selection lc sv c₀.db es = done.map Prod.fst ++ left ∧ r.form = left.head? ∧
      (∀ a ch, (a, ch) ∈ done →
        (c.db.asset a.id).map Asset.fields = some ((sv.castAll (a.resent ch)).getD a.fields)) ∧
      ∀ j, j ∉ idsOf (done.map Prod.fst) → c.db.asset j = c₀.db.asset j := by
  obtain ⟨rfl, -⟩ := pressEdit_selection hp
  have hsub : selection lc sv c₀.db es ⊆ c₀.db.assets.rows := selection_subset
  have hpos' : ∀ a ∈ selection lc sv c₀.db es, 0 < a.id := fun a ha => hpos a (hsub ha)
  have hrows : ∀ a ∈ selection lc sv c₀.db es, c₀.db.asset a.id = some a := fun a ha =>
    Table.get?_eq_some.mpr ⟨hsub ha, rfl⟩
  have hprog : ∃ left, Progress sv i c₀ (selection lc sv c₀.db es) done left c r := by
    induction h with
    | start env => exact ⟨_, progress_start hu hpos' hrows⟩
    | submit env _ ha he ih =>
      obtain ⟨left, hl⟩ := ih
      obtain ⟨rest, -, hr⟩ := hl.submit nodup_selection hpos' hrows ha he
      exact ⟨rest, hr⟩
  obtain ⟨left, hl⟩ := hprog
  exact ⟨left, hl.selected, hl.form, hl.edited, hl.others⟩

end

/-! ## The two assets of the sample -/

/-- The form of the asset 33 is submitted by session 1. -/
def otherEdited : PageState Nat :=
  (loggedIn sample).served (inventory zeroHash .canonical) 1 (sampleEdit (str "33"))
    fun _ => .at 100

/-- The asset 33 is deleted from a list that shows it as it was. -/
theorem stale_delete_sample :
    let q : Request := ⟨.delete_selected, .post (selectionPost [str "33"])⟩
    let c := otherEdited.served (inventory zeroHash .canonical) 0 q fun _ => .at 101
    otherEdited.answer (inventory zeroHash .canonical) 0 q (fun _ => .at 101) =
        .text (str "success") ∧
      c.db.asset 33 = none ∧ c.db.asset 34 = otherEdited.db.asset 34 := by
  have h := @stale_delete Nat _ zeroHash .canonical .ascii (loggedIn sample) (loggedIn sample)
    otherEdited [] (onSent anySent) 0 [.row 0] [str "33"] (str "admin") (fun _ => .at 101)
    (atRest_loggedIn sample) .nil rfl rfl (by decide)
  rw [if_neg (by decide)] at h
  refine ⟨h.1, (h.2.1 33).trans ?_, (h.2.1 34).trans ?_⟩
  · exact if_pos (by decide)
  · exact if_neg (by decide)

/-- The form of the asset 33 is submitted as it is, and the form of 34 is shown. -/
theorem batch_edits_selection_sample : ∃ (c : PageState Nat) (r : Response) (left : List Asset),
    selection .ascii .canonical sample [.checkbox 1, .row 0] = [asset33] ++ left ∧
      r.form = left.head? ∧ ∀ j, j ≠ 33 → c.db.asset j = sample.asset j := by
  have h0 : Edits zeroHash .canonical 0 [str "33", str "34"] (loggedIn sample) [] _ _ :=
    .start fun _ => .at 100
  have h1 : Edits zeroHash .canonical 0 [str "33", str "34"] (loggedIn sample)
      ([] ++ [(asset33, fun _ => none)]) _ _ :=
    @Edits.submit _ _ _ _ _ _ _ _ _ _ _ _ false _ (fun _ => .at 101) h0 (by rfl) rfl
  obtain ⟨left, hsel, hform, -, hother⟩ := @batch_edits_selection _ _ zeroHash .canonical .ascii
    _ _ _ [.checkbox 1, .row 0] _ _ _ (by decide) (by decide) (by decide) h1
  exact ⟨_, _, left, hsel, hform, fun j hj => hother j fun hm => hj (List.mem_singleton.mp hm)⟩

end Inventory
