import Inventory.Model.Sample
import Inventory.Model.Serving

/-!
# The order of a batch

The queue of a batch holds the selected ids that were not submitted yet, in their
order, under the keys `0, 1, …` (`Batch.queue`). So each form that is shown is the
one of the next id, it sends the UPDATE of that id (`submits_update`), and after
the last one none is shown. Whether the UPDATE was
executed plays no part in it: `leaves_when_saved_iff` says when an id leaves the
queue only after its row was saved.
-/

namespace Inventory

open Lib Php

/-- An id as a form holds it. -/
def idValue (i : Int) : Value := .str (Bytes.intText i)

/-- `selected_ids` as the list page writes it. -/
def selectedIds (ids : List Int) : Value := .str (Json.stringify (ids.map Bytes.intText))

/-- The form that starts a batch. -/
structure Starts (ids : List Int) (p : Post) : Prop where
  selected : p (str "selected_ids") = selectedIds ids
  noUpdate : (p (str "update")).isSet = false

/-- An edit form submitted for an id. -/
structure Submits (i : Int) (p : Post) : Prop where
  update : (p (str "update")).isSet = true
  id : p (str "id") = idValue i
  noStart : (p (str "selected_ids")).isSet = false

/-- The session and the response after a form is posted to edit_asset.php. -/
def afterEdit (sv : Server) (s : Session) (p : Post) (env : Nat → Env) (d : Db) :
    Session × Response :=
  ((edit_asset s (.post p)).run (exec sv) env d).1

/-- A batch of a session in which edit forms were submitted for the listed ids. What other sessions
do in between leaves any database at each request. -/
inductive Batch (sv : Server) (ids : List Int) : List Int → Session → Response → Prop where
  | start {s : Session} {p : Post} (env : Nat → Env) (d : Db) (hu : s.user ≠ none)
      (hp : Starts ids p) : Batch sv ids [] (afterEdit sv s p env d).1 (afterEdit sv s p env d).2
  | submit {is : List Int} {s : Session} {r : Response} {i : Int} {p : Post} (env : Nat → Env)
      (d : Db) (h : Batch sv ids is s r) (hi : 0 < i) (hp : Submits i p) :
      Batch sv ids (is ++ [i]) (afterEdit sv s p env d).1 (afterEdit sv s p env d).2

/-- A batch in which each form that is shown is submitted once, while all its assets exist. -/
inductive BatchShown (sv : Server) (ids : List Int) : List Int → Session → Response → Prop where
  | start {s : Session} {p : Post} (env : Nat → Env) (d : Db) (hu : s.user ≠ none)
      (hp : Starts ids p) (hm : (p (str "manual_id")).isSet = false)
      (hd : ∀ i ∈ ids, d.asset i ≠ none) :
      BatchShown sv ids [] (afterEdit sv s p env d).1 (afterEdit sv s p env d).2
  | submit {is : List Int} {s : Session} {r : Response} {a : Asset} {p : Post} (env : Nat → Env)
      (d : Db) (h : BatchShown sv ids is s r) (ha : r.form = some a) (hp : Submits a.id p)
      (hm : (p (str "manual_id")).isSet = false) (hd : ∀ i ∈ ids, d.asset i ≠ none) :
      BatchShown sv ids (is ++ [a.id]) (afterEdit sv s p env d).1 (afterEdit sv s p env d).2

/-- The selected ids that were not submitted. -/
def unsubmitted (ids is : List Int) : List Int := ids.filter fun i => i ∉ is

/-- The id looked up when the listed ids are left: the first of them, or else `manual_id`. -/
def lookedUp (left : List Int) (p : Post) : Value :=
  match left with
  | i :: _ => idValue i
  | [] => if (p (str "manual_id")).isSet then p (str "manual_id") else .null

/-! ## The queue -/

theorem unescaped_intText {i : Int} : Json.Unescaped (Bytes.intText i) := by
  intro b hb
  have hr := Bytes.range_of_digit (Bytes.mem_intText hb)
  refine ⟨by omega, by omega, ?_, ?_⟩ <;> rintro rfl <;> exact absurd hr (by decide)

theorem json_decode_selectedIds (ids : List Int) :
    json_decode (selectedIds ids) = .list (ids.map idValue) := by
  have h : ∀ t ∈ ids.map Bytes.intText, Json.Unescaped t :=
    List.forall_mem_map.mpr fun _ _ => unescaped_intText
  show Json.decodeText (Json.stringify (ids.map Bytes.intText)) = _
  rw [Json.decodeText_stringify h, List.map_map]
  rfl

/-- A list loses its first element that is loosely equal to the id. -/
theorem dropQueued_list (id : Value) (vs : List Value) :
    dropQueued id (.list vs) = some (.list (vs.eraseP (looseEq id))) := by
  obtain ⟨es, hes⟩ : ∃ es, Value.list vs = .arr es := ⟨_, rfl⟩
  have hk : (Value.arr es).KeysNodup := hes ▸ Value.keysNodup_list vs
  have helems : es.map Prod.snd = vs := by
    rw [← Value.elems_list vs, hes]
    rfl
  rw [hes]
  unfold dropQueued
  cases ha : array_search id es with
  | none =>
    have hnone := array_search_eq_none.mp ha
    rw [helems] at hnone
    simp only [ha, List.eraseP_of_forall_not hnone, hes]
  | some key => simp only [ha, elems_unsetKey hk ha, helems]

theorem looseEq_idValue (i j : Int) : looseEq (idValue i) (idValue j) = decide (i = j) := by
  show looseEq (.str _) (.str _) = _
  rw [looseEq, strEq_intText]

theorem dropQueued_ids (i : Int) (left : List Int) :
    dropQueued (idValue i) (.list (left.map idValue)) =
      some (.list ((left.erase i).map idValue)) := by
  have hp : looseEq (idValue i) ∘ idValue = (i == ·) := by
    funext j
    exact looseEq_idValue i j
  rw [dropQueued_list, List.eraseP_map, hp, ← List.erase_eq_eraseP]

theorem unsubmitted_concat {ids : List Int} (hd : ids.Nodup) (is : List Int) (i : Int) :
    unsubmitted ids (is ++ [i]) = (unsubmitted ids is).erase i := by
  have hnd : (unsubmitted ids is).Nodup := hd.filter _
  rw [hnd.erase_eq_filter]
  unfold unsubmitted
  rw [List.filter_filter]
  refine List.filter_congr fun j _ => ?_
  by_cases hj : j = i <;> simp [hj]

theorem unsubmitted_nil (ids : List Int) : unsubmitted ids [] = ids := by
  simp [unsubmitted]

theorem nextId_ids (left : List Int) (p : Post) :
    nextId (.list (left.map idValue)) p = lookedUp left p := by
  cases left with
  | nil => rfl
  | cons i left =>
    have ht : (Value.list (idValue i :: left.map idValue)).truthy = true := rfl
    unfold nextId
    rw [List.map_cons, if_pos ht, Value.index0_list]
    rfl

section
variable {sv : Server} {ids is : List Int} {s : Session} {r : Response}

theorem startBatch_starts {p : Post} (hp : Starts ids p) (queue : Value) :
    startBatch p queue = .list (ids.map idValue) := by
  have hset : (selectedIds ids).isSet = true := rfl
  unfold startBatch
  rw [hp.selected, if_pos hset, json_decode_selectedIds]

theorem nextQueue_starts {p : Post} (hp : Starts ids p) (queue : Value) :
    nextQueue p queue = some (.list (ids.map idValue)) := by
  unfold nextQueue
  rw [if_neg (by rw [hp.noUpdate]; exact Bool.false_ne_true), startBatch_starts hp]

theorem nextQueue_submits {i : Int} {p : Post} (hp : Submits i p) (left : List Int) :
    nextQueue p (.list (left.map idValue)) = some (.list ((left.erase i).map idValue)) := by
  unfold nextQueue startBatch
  rw [if_pos hp.update, if_neg (by rw [hp.noStart]; exact Bool.false_ne_true), hp.id,
    dropQueued_ids]

/-- The session after a request whose queue is known. -/
theorem afterEdit_eq {p : Post} {env : Nat → Env} {d : Db} {next : Value} (hu : s.user ≠ none)
    (hn : nextQueue p s.edit_queue = some next) :
    (afterEdit sv s p env d).1.user ≠ none ∧ (afterEdit sv s p env d).1.edit_queue = next ∧
      ∃ d' : Db, (∀ i, d'.asset i = none ↔ d.asset i = none) ∧
        (afterEdit sv s p env d).2.form = formAsset d' next p := by
  obtain ⟨u, hu'⟩ := Option.ne_none_iff_exists'.mp hu
  obtain ⟨d', hd', hrun⟩ := @edit_asset_run sv _ _ hu' (.post p) env d
  rw [Body.fields, hn] at hrun
  unfold afterEdit
  rw [hrun]
  refine ⟨hu, rfl, d', fun i => ?_, rfl⟩
  show d'.assets.get? i = none ↔ _
  rw [hd']
  exact editAssets_eq_none

/-- **The queue of a batch** holds the ids that were not submitted. -/
theorem Batch.queue (hd : ids.Nodup) (h : Batch sv ids is s r) :
    s.user ≠ none ∧ s.edit_queue = .list ((unsubmitted ids is).map idValue) := by
  induction h with
  | start env d hu hp =>
    obtain ⟨hu', hq, -⟩ := @afterEdit_eq sv _ _ env d _ hu (nextQueue_starts hp _)
    exact ⟨hu', by rw [hq, unsubmitted_nil]⟩
  | @submit is s r i p env d h hi hp ih =>
    obtain ⟨hu, hq⟩ := ih
    have hn := nextQueue_submits hp (unsubmitted ids is)
    rw [← hq] at hn
    obtain ⟨hu', hq', -⟩ := @afterEdit_eq sv _ _ env d _ hu hn
    exact ⟨hu', by rw [hq', unsubmitted_concat hd]⟩

/-! ## The forms that are shown -/

theorem truthy_idValue {i : Int} (hi : i ≠ 0) : (idValue i).truthy = true := by
  have hne : Bytes.intText i ≠ str "0" := fun h => hi (Bytes.intText_injective h)
  simp [idValue, Value.truthy, Bytes.intText_ne_nil, hne]

/-- With the listed ids in the queue, the form of the first one is shown. -/
theorem formAsset_ids {d : Db} {p : Post} {left : List Int} (hm : (p (str "manual_id")).isSet = false)
    (hpos : ∀ i ∈ left, 0 < i) (hd : ∀ i ∈ left, d.asset i ≠ none) :
    (formAsset d (.list (left.map idValue)) p).map Asset.id = left.head? := by
  unfold formAsset
  rw [nextId_ids]
  cases left with
  | nil =>
    unfold lookedUp
    dsimp only
    rw [if_neg (by rw [hm]; exact Bool.false_ne_true)]
    rfl
  | cons i left =>
    have hi : 0 < i := hpos i List.mem_cons_self
    obtain ⟨a, ha⟩ := Option.ne_none_iff_exists'.mp (hd i List.mem_cons_self)
    obtain rfl : a.id = i := Table.key_of_get? ha
    have hbind : (idValue a.id).bindInt = some a.id := bindInt_intText a.idMin a.idMax
    unfold lookedUp
    dsimp only
    rw [if_pos (truthy_idValue (by omega)), hbind, Option.bind_some, ha]
    rfl

theorem unsubmitted_append {left : List Int} (hd : (is ++ left).Nodup) :
    unsubmitted (is ++ left) is = left := by
  have hdisj := (List.nodup_append.mp hd).2.2
  unfold unsubmitted
  rw [List.filter_append]
  have hnone : is.filter (fun i => i ∉ is) = [] := by
    rw [List.filter_eq_nil_iff]
    intro i hi
    simpa using hi
  have hall : left.filter (fun i => i ∉ is) = left := by
    rw [List.filter_eq_self]
    intro i hi
    simpa using fun his => hdisj i his i hi rfl
  rw [hnone, hall, List.nil_append]

/-- The submitted ids come first, and the form that is shown is the one of the next id. -/
theorem BatchShown.batch (hpos : ∀ i ∈ ids, 0 < i) (hd : ids.Nodup) (h : BatchShown sv ids is s r) :
    Batch sv ids is s r ∧ ∃ left, ids = is ++ left ∧ r.form.map Asset.id = left.head? := by
  induction h with
  | @start s p env d hu hp hm hex =>
    refine ⟨.start env d hu hp, ids, rfl, ?_⟩
    obtain ⟨-, -, d', hd', hform⟩ :=
      @afterEdit_eq sv _ _ env d _ hu (nextQueue_starts hp _)
    rw [hform]
    exact formAsset_ids hm hpos fun i hi hn => hex i hi ((hd' i).mp hn)
  | @submit is s r a p env d h ha hp hm hex ih =>
    obtain ⟨hbatch, left, hids, hshown⟩ := ih
    rw [ha, Option.map_some] at hshown
    obtain ⟨rest, rfl⟩ : ∃ rest, left = a.id :: rest := by
      cases left with
      | nil => cases hshown
      | cons i rest =>
        cases hshown
        exact ⟨rest, rfl⟩
    have hleft : ∀ i ∈ a.id :: rest, i ∈ ids := by
      intro i hi
      rw [hids]
      exact List.mem_append_right _ hi
    have hqueue : s.edit_queue = .list ((a.id :: rest).map idValue) := by
      rw [(hbatch.queue hd).2]
      subst hids
      rw [unsubmitted_append hd]
    have hn : nextQueue p s.edit_queue = some (.list (rest.map idValue)) := by
      rw [hqueue, nextQueue_submits hp, List.erase_cons_head]
    obtain ⟨-, -, d', hd', hform⟩ :=
      @afterEdit_eq sv _ _ env d _ (hbatch.queue hd).1 hn
    refine ⟨.submit env d hbatch (hpos _ (hleft _ List.mem_cons_self)) hp, rest, ?_, ?_⟩
    · rw [hids, List.append_assoc]
      rfl
    · rw [hform]
      exact formAsset_ids hm (fun i hi => hpos i (hleft i (List.mem_cons_of_mem _ hi)))
        fun i hi hn => hex i (hleft i (List.mem_cons_of_mem _ hi)) ((hd' i).mp hn)

/-- The first statement of a form that is submitted updates its asset. -/
theorem submits_update {a : Asset} {p : Post} (hu : s.user ≠ none) (hp : Submits a.id p) :
    (edit_asset s (.post p)).Next (· = .updateAsset (editValues p) (some a.id)) := by
  obtain ⟨u, hu⟩ := Option.ne_none_iff_exists'.mp hu
  have hid : (p (str "id")).bindInt = some a.id := by
    rw [hp.id]
    exact bindInt_intText a.idMin a.idMax
  unfold edit_asset
  rw [hu]
  dsimp only
  rw [Body.fields, if_pos hp.update, ← hid]
  rfl

/-- **A batch edit visits each selected asset once, in order.** -/
theorem batch_in_order (hpos : ∀ i ∈ ids, 0 < i) (hd : ids.Nodup) :
    (∀ is s r, Batch sv ids is s r →
      s.edit_queue = .list ((unsubmitted ids is).map idValue) ∧
        ∀ p, nextId s.edit_queue p = lookedUp (unsubmitted ids is) p) ∧
    ∀ is s r, BatchShown sv ids is s r →
      is ++ (r.form.map Asset.id).toList <+: ids ∧ (r.form = none → is = ids) ∧
        ∀ a p, r.form = some a → Submits a.id p →
          (edit_asset s (.post p)).Next (· = .updateAsset (editValues p) (some a.id)) := by
  constructor
  · intro is s r h
    have hq := (h.queue hd).2
    exact ⟨hq, fun p => by rw [hq, nextId_ids]⟩
  · intro is s r h
    obtain ⟨hbatch, left, hids, hshown⟩ := h.batch hpos hd
    have hupdate : ∀ a p, r.form = some a → Submits a.id p →
        (edit_asset s (.post p)).Next (· = .updateAsset (editValues p) (some a.id)) :=
      fun _ _ _ hp => submits_update (hbatch.queue hd).1 hp
    rw [hshown, hids]
    cases left with
    | nil => exact ⟨by simp, fun _ => by simp, hupdate⟩
    | cons i left =>
      refine ⟨⟨left, by simp⟩, fun hnone => ?_, hupdate⟩
      rw [hnone] at hshown
      cases hshown

end

/-- A batch of the assets 33 and 34, of which the form of 33 is submitted. -/
theorem batch_in_order_sample :
    let env : Nat → Env := fun _ => .at 100
    let started := afterEdit .canonical { user := some (str "admin") } sampleDelete env sample
    let edited := afterEdit .canonical started.1 samplePost env sample
    edited.1.edit_queue = .list [idValue 34] ∧
      [33] ++ (edited.2.form.map Asset.id).toList <+: [33, 34] ∧
      (edit_asset started.1 (.post samplePost)).Next
        (· = .updateAsset (editValues samplePost) (some 33)) := by
  intro env started edited
  have hstarts : Starts [33, 34] sampleDelete := ⟨by rfl, rfl⟩
  have hsubmits : Submits 33 samplePost := ⟨rfl, rfl, rfl⟩
  have hu : ({ user := some (str "admin") } : Session).user ≠ none := Option.some_ne_none _
  have hall : ∀ i ∈ [33, 34], sample.asset i ≠ none := by decide
  obtain ⟨hqueue, hshown⟩ := @batch_in_order .canonical [33, 34] (by decide) (by decide)
  have hform : started.2.form = some asset33 := by decide
  have hfirst : BatchShown .canonical [33, 34] [] started.1 started.2 :=
    .start env sample hu hstarts rfl hall
  exact ⟨(hqueue _ _ _ (.submit env sample (.start env sample hu hstarts) (by decide) hsubmits)).1,
    (hshown _ _ _ (.submit env sample hfirst hform hsubmits rfl hall)).1,
    (hshown _ _ _ hfirst).2.2 asset33 samplePost hform hsubmits⟩

/-! ## What leaves the queue -/

/-- The page shows its success message. -/
def Response.reportsSuccess : Response → Prop
  | .edit_asset error success _ => error = [] ∧ success ≠ []
  | _ => False

/-- The page shows an error, or is one. -/
def Response.reportsError : Response → Prop
  | .edit_asset error _ _ => error ≠ []
  | .fatal => True
  | _ => False

section
variable (sv : Server) (s : Session) (p : Post) (env : Nat → Env) (d : Db)

/-- `$stmt->execute()` of the update. -/
def updateReply : Bool :=
  (exec sv (env 0) (.updateAsset (editValues p) (p (str "id")).bindInt) d).1

/-- The UPDATE is executed without error, and the row of the posted id holds the posted values. -/
def Saved : Prop :=
  updateReply sv p env d = true ∧
    ∃ r, (p (str "id")).bindInt.bind ((edit_asset s (.post p)).run (exec sv) env d).2.asset = some r ∧
      sv.castAll (editValues p) = some r.fields

/-- The UPDATE fails or matches no row. -/
def NotSaved : Prop :=
  updateReply sv p env d = false ∨ (p (str "id")).bindInt.bind d.asset = none

/-- A batch item leaves the queue, or is reported as updated, only when it was saved; otherwise the
queue stays and an error is reported. -/
structure LeavesWhenSaved : Prop where
  left : (afterEdit sv s p env d).1.edit_queue.elems ≠ (startBatch p s.edit_queue).elems ∨
    (afterEdit sv s p env d).2.reportsSuccess → Saved sv s p env d
  kept : NotSaved sv p env d →
    (afterEdit sv s p env d).1.edit_queue = startBatch p s.edit_queue ∧
      (afterEdit sv s p env d).2.reportsError

/-- The posted id is that of a row, and the columns accept the posted values. -/
def Saves : Prop :=
  (p (str "id")).bindInt.bind d.asset ≠ none ∧ ∀ c, sv.castCol c (editValues p c) ≠ none

/-- The value is looked up, and there is no asset with this id. -/
def NamesNone (v : Value) : Prop := v.truthy = true ∧ v.bindInt.bind d.asset = none

/-- The first element of the queue, or `manual_id` after an empty queue, names no asset. -/
def NextMissing (queue manual_id : Value) : Prop :=
  NamesNone d (if queue.truthy then queue.index0 else manual_id)

end

/-- No element of the queue is loosely equal to the id. -/
def NotQueued (id : Value) : Value → Prop
  | .null => True
  | .arr es => ∀ v ∈ es.map Prod.snd, looseEq id v ≠ true
  | _ => False

theorem length_unsetKey {id : Value} {key : Key} {es : List (Key × Value)}
    (h : array_search id es = some key) : (unsetKey key es).length < es.length := by
  obtain ⟨e, he, rfl⟩ := Option.map_eq_some_iff.mp h
  refine List.length_filter_lt_length_iff_exists.mpr ⟨e, List.mem_of_find?_eq_some he, ?_⟩
  simp

/-- The queue stays when the id is not queued. -/
theorem dropQueued_eq_self {id queue : Value} :
    dropQueued id queue = some queue ↔ NotQueued id queue := by
  unfold dropQueued NotQueued
  cases queue with
  | null => simp
  | str t => simp
  | arr es =>
    cases ha : array_search id es with
    | none => simpa [ha] using array_search_eq_none.mp ha
    | some key =>
      simp only [ha]
      refine iff_of_false (fun h => ?_) fun h => ?_
      · have helems := congrArg Value.elems (Option.some.inj h)
        rw [Value.elems_list] at helems
        have hlen : (unsetKey key es).length = es.length := by
          simpa [Value.elems] using congrArg List.length helems
        exact absurd hlen (length_unsetKey ha).ne
      · rw [array_search_eq_none.mpr h] at ha
        cases ha
  | bool b => simp
  | int n => simp
  | float x => simp

theorem dropQueued_eq_none {id queue : Value} :
    dropQueued id queue = none ↔ ∃ t, queue = .str t := by
  unfold dropQueued
  cases queue with
  | arr es => cases ha : array_search id es <;> simp [ha]
  | _ => simp

section
variable {sv : Server} {s : Session} {p : Post} {env : Nat → Env} {d : Db}

theorem saves_iff : Saves sv p d ↔
    (p (str "id")).bindInt.bind d.asset ≠ none ∧ sv.castAll (editValues p) ≠ none := by
  unfold Saves
  rw [Ne.eq_1 (sv.castAll _), sv.castAll_eq_none, not_exists]

theorem notSaved_iff : NotSaved sv p env d ↔ ¬ Saves sv p d := by
  have hreply : updateReply sv p env d = true ↔
      (p (str "id")).bindInt.bind d.asset = none ∨ sv.castAll (editValues p) ≠ none := updateAsset_ok
  unfold NotSaved
  rw [saves_iff, Bool.eq_false_iff, ne_eq, hreply]
  tauto

/-- An item that is not saved leaves the assets as they are. -/
theorem editAssets_not_saved (h : ¬ Saves sv p d) : editAssets sv (env 0) p d.assets = d.assets := by
  rw [saves_iff, not_and_or, not_not, not_not] at h
  unfold editAssets
  split
  · rcases h with h | h
    · have h' : (p (str "id")).bindInt.bind d.assets.get? = none := h
      simp only [execAssets, h']
    · simp only [execAssets, h]
      cases (p (str "id")).bindInt.bind d.assets.get? <;> rfl
  · rfl

theorem saved_of_saves (hu : s.user ≠ none) (hset : (p (str "update")).isSet = true)
    (h : Saves sv p d) : Saved sv s p env d := by
  obtain ⟨hid, hcast⟩ := saves_iff.mp h
  obtain ⟨r, hr⟩ := Option.ne_none_iff_exists'.mp hid
  obtain ⟨g, hg⟩ := Option.ne_none_iff_exists'.mp hcast
  obtain ⟨i, hi, hri⟩ := Option.bind_eq_some_iff.mp hr
  obtain rfl : r.id = i := Table.key_of_get? hri
  have hri' : d.assets.get? r.id = some r := hri
  obtain ⟨u, hu⟩ := Option.ne_none_iff_exists'.mp hu
  refine ⟨?_, { r with fields := g, timestamp := (env 0).now }, ?_, hg⟩
  · exact updateAsset_ok.mpr (.inr hcast)
  · rw [hi, Option.bind_some]
    show ((edit_asset s (.post p)).run (exec sv) env d).2.assets.get? r.id = _
    rw [edit_asset_assets hu, editAssets, Body.fields, if_pos hset, hi, execAssets_update hri', hg,
      Option.elim_some, get?_setRow, if_pos rfl, hri']
    rfl

theorem nextError_ne_nil {queue : Value} {success : Bytes} (hs : success ≠ []) :
    nextError d queue p success ≠ [] ↔ NamesNone d (nextId queue p) := by
  have hmsg : str "❌ Asset with ID " ++ (nextId queue p).toText ++ str " not found." ≠ [] :=
    List.append_ne_nil_of_right_ne_nil _ (by decide)
  unfold nextError NamesNone
  by_cases ht : (nextId queue p).truthy = true
  · rw [if_pos ht, and_iff_right ht]
    cases (nextId queue p).bindInt.bind d.asset with
    | none => exact iff_of_true hmsg rfl
    | some a => simp
  · rw [if_neg ht, if_neg hs]
    simp [ht]

theorem namesNone_nextId {queue : Value} :
    NamesNone d (nextId queue p) ↔ NextMissing d queue (p (str "manual_id")) := by
  unfold NextMissing nextId
  split
  · exact Iff.rfl
  · cases hm : p (str "manual_id") with
    | null => exact Iff.rfl
    | _ => exact Iff.rfl

theorem successText_ne_nil (hset : (p (str "update")).isSet = true) : successText p ≠ [] := by
  unfold successText
  rw [if_pos hset]
  exact List.append_ne_nil_of_right_ne_nil _ (by decide)

/-- When the queue stays and an error is reported, for an item that is not saved. -/
theorem kept_iff (hu : s.user ≠ none) (hset : (p (str "update")).isSet = true)
    (h : ¬ Saves sv p d) :
    (afterEdit sv s p env d).1.edit_queue = startBatch p s.edit_queue ∧
        (afterEdit sv s p env d).2.reportsError ↔
      (∃ t, startBatch p s.edit_queue = .str t) ∨
        NotQueued (p (str "id")) (startBatch p s.edit_queue) ∧
          NextMissing d (startBatch p s.edit_queue) (p (str "manual_id")) := by
  obtain ⟨u, hu⟩ := Option.ne_none_iff_exists'.mp hu
  obtain ⟨d', hd', hrun⟩ := @edit_asset_run sv s _ hu (.post p) env d
  rw [Body.fields, editAssets_not_saved h] at hd'
  have hdb : ∀ v, NamesNone d' v ↔ NamesNone d v := by
    intro v
    unfold NamesNone
    rw [show d'.asset = d.asset from funext fun i => congrArg (Table.get? · i) hd']
  rw [Body.fields, nextQueue, if_pos hset] at hrun
  unfold afterEdit
  cases hq : dropQueued (p (str "id")) (startBatch p s.edit_queue) with
  | none =>
    rw [hq] at hrun
    rw [hrun]
    exact iff_of_true ⟨rfl, trivial⟩ (.inl (dropQueued_eq_none.mp hq))
  | some next =>
    have hstr : ¬ ∃ t, startBatch p s.edit_queue = .str t := by
      rw [← @dropQueued_eq_none (p (str "id")), hq]
      exact Option.some_ne_none next
    rw [hq] at hrun
    rw [hrun, or_iff_right hstr, ← dropQueued_eq_self, hq]
    show next = startBatch p s.edit_queue ∧
      nextError d' next p (successText p) ≠ [] ↔ some next = some (startBatch p s.edit_queue) ∧ _
    rw [nextError_ne_nil (successText_ne_nil hset), hdb, Option.some_inj]
    refine and_congr_right fun he => ?_
    rw [he, namesNone_nextId]

/-- **When a batch item leaves the queue only if it was saved.** -/
theorem leaves_when_saved_iff (hu : s.user ≠ none) (hset : (p (str "update")).isSet = true) :
    LeavesWhenSaved sv s p env d ↔
      Saves sv p d ∨ (∃ t, startBatch p s.edit_queue = .str t) ∨
        NotQueued (p (str "id")) (startBatch p s.edit_queue) ∧
          NextMissing d (startBatch p s.edit_queue) (p (str "manual_id")) := by
  by_cases h : Saves sv p d
  · exact iff_of_true ⟨fun _ => saved_of_saves hu hset h, fun hn => absurd h (notSaved_iff.mp hn)⟩
      (.inl h)
  · rw [or_iff_right h, ← kept_iff hu hset h]
    constructor
    · exact fun hl => hl.kept (notSaved_iff.mpr h)
    · rintro ⟨hqueue, herror⟩
      refine ⟨?_, fun _ => ⟨hqueue, herror⟩⟩
      rintro (hleft | hsuccess)
      · exact absurd (congrArg Value.elems hqueue) hleft
      · exfalso
        revert herror hsuccess
        cases (afterEdit sv s p env d).2 with
        | edit_asset error success a => exact fun he hs => he hs.1
        | _ => exact fun _ hs => hs

end

/-- The asset 33 leaves the queue and its update with the sample values is saved. -/
theorem leaves_when_saved_sample : LeavesWhenSaved .canonical
    { user := some (str "admin"), edit_queue := .list [idValue 33, idValue 34] } samplePost
    (fun _ => .at 100) sample := by
  refine (leaves_when_saved_iff (Option.some_ne_none _) rfl).mpr (.inl ⟨by decide, ?_⟩)
  intro c
  cases c <;> decide

/-- The sample values with a date that is none. -/
def badDatePost : Post := fun n =>
  if n = str "date_purchased" then .str (str "2024-02-30") else samplePost n

/-- The queue loses the asset 33 although its UPDATE fails. -/
theorem failed_update_leaves_queue : ¬ LeavesWhenSaved .canonical
    { user := some (str "admin"), edit_queue := .list [idValue 33, idValue 34] } badDatePost
    (fun _ => .at 100) sample := by
  intro h
  have hfails : NotSaved .canonical badDatePost (fun _ => .at 100) sample := .inl (by rfl)
  have hlen := congrArg (fun queue : Value => queue.elems.length) (h.kept hfails).1
  revert hlen
  decide

end Inventory
