import Inventory.Model.Sample
import Inventory.Model.Serving

/-!
# The batch edit

edit_asset.php shows the form of the first element of `edit_queue`, and looks at
`manual_id` only when the queue is empty. It never passes over an element whose
asset is gone. A batch goes on as long as the first element of every queue is
the id of an existing asset (`Ready`): `stepOk` asks this of what is posted and
of the state before each request.
-/

namespace Inventory

open Lib Php

/-- The asset of the first queued id that still exists. -/
def firstQueued (d : Db) (queue : Value) : Option Asset :=
  queue.elems.findSome? fun v => v.bindInt.bind d.asset

/-- edit_asset.php shows the first queued asset that exists, or else the asset of `manual_id`. -/
def ShowsNext {I : Type} [DecidableEq I] (sys : System Reply Env Db Request Session Response)
    (c : PageState I) (i : I) (b : Body) (env : Nat → Env) : Prop :=
  let c' := c.served sys i ⟨.edit_asset, b⟩ env
  ∀ a, (firstQueued c'.db (c'.sess i).edit_queue).or
      ((b.fields (str "manual_id")).bindInt.bind c'.db.asset) = some a →
    (c.answer sys i ⟨.edit_asset, b⟩ env).form = some a

/-- The value is not falsy and is the id of an existing asset. -/
def IdOfAsset (d : Db) (v : Value) : Prop :=
  v.truthy = true ∧ ∃ i, v.bindInt = some i ∧ d.asset i ≠ none

/-- The queue is falsy, or an array whose first element is under key 0 and is the id of an existing
asset. -/
def Ready (d : Db) (queue : Value) : Prop :=
  queue.truthy = true → ∃ e, queue.elems.head? = some e ∧ queue.index0 = e ∧ IdOfAsset d e

/-- A posted form that keeps the batch going: a batch starts `Ready`; an update finds a queue that
is no string and, if its id is loosely equal to the first queued element, leaves an empty queue or
one that starts with the id of an existing asset; a `manual_id` that names an asset is not falsy. -/
structure EditOk (d : Db) (queue : Value) (p : Post) : Prop where
  start : (p (str "selected_ids")).isSet = true → Ready d (json_decode (p (str "selected_ids")))
  noString : (p (str "update")).isSet = true → ∀ t, startBatch p queue ≠ .str t
  drop : (p (str "update")).isSet = true → ∀ e v vs, (startBatch p queue).elems = e :: v :: vs →
    looseEq (p (str "id")) e = true → IdOfAsset d v
  manual : ∀ i, (p (str "manual_id")).bindInt = some i → d.asset i ≠ none →
    (p (str "manual_id")).truthy = true

section
variable {I : Type}

/-- The condition on a request: the form posted to edit_asset.php by a logged-in user is `EditOk`;
a delete that passes its checks lists the first element of no session's queue. -/
def stepOk (c : PageState I) (i : I) (q : Request) : Prop :=
  match q.page with
  | .edit_asset => (c.sess i).user ≠ none → EditOk c.db (c.sess i).edit_queue q.body.fields
  | .delete_selected => ∀ p u, q.body = .post p →
      Deletes (c.sess i) u (json_decode (p (str "selected_ids"))) →
      ∀ j e, (c.sess j).edit_queue.elems.head? = some e →
        e.bindInt ∉ (json_decode (p (str "selected_ids"))).elems.map Value.bindInt
  | _ => True

end

/-! ## Queues -/

section
variable {d d' : Db} {queue : Value}

theorem Ready.mono (h : ∀ e i, queue.elems.head? = some e → e.bindInt = some i →
    d.asset i ≠ none → d'.asset i ≠ none) (hr : Ready d queue) : Ready d' queue := by
  intro ht
  obtain ⟨e, he, h0, htr, i, hi, hex⟩ := hr ht
  exact ⟨e, he, h0, htr, i, hi, h e i he hi hex⟩

theorem ready_of_falsy (h : queue.truthy = false) : Ready d queue := fun ht => by
  rw [h] at ht
  cases ht

theorem ready_list {vs : List Value} (h : ∀ v, vs.head? = some v → IdOfAsset d v) :
    Ready d (.list vs) := by
  cases vs with
  | nil => exact ready_of_falsy rfl
  | cons v vs => exact fun _ => ⟨v, by rw [Value.elems_list]; rfl, Value.index0_list v vs, h v rfl⟩

theorem elems_of_falsy (h : queue.truthy = false) : queue.elems = [] := by
  cases queue with
  | arr es =>
    have hes : es.isEmpty = true := by simpa [Value.truthy] using h
    rw [List.isEmpty_iff.mp hes]
    rfl
  | _ => rfl

/-- Dropping the updated id leaves a queue that is ready. -/
theorem ready_dropQueued {id : Value} (hk : queue.KeysNodup) (hr : Ready d queue)
    (hs : ∀ t, queue ≠ .str t)
    (hd : ∀ e v vs, queue.elems = e :: v :: vs → looseEq id e = true → IdOfAsset d v) :
    ∃ next, dropQueued id queue = some next ∧ Ready d next ∧ next.KeysNodup := by
  cases queue with
  | null => exact ⟨.null, rfl, ready_of_falsy rfl, trivial⟩
  | bool b => exact ⟨.null, rfl, ready_of_falsy rfl, trivial⟩
  | int n => exact ⟨.null, rfl, ready_of_falsy rfl, trivial⟩
  | float x => exact ⟨.null, rfl, ready_of_falsy rfl, trivial⟩
  | str t => exact absurd rfl (hs t)
  | arr es =>
    unfold dropQueued
    cases ha : array_search id es with
    | none => exact ⟨.arr es, by simp only [ha], hr, hk⟩
    | some key =>
      refine ⟨.list ((unsetKey key es).map Prod.snd), by simp only [ha], ?_,
        Value.keysNodup_list _⟩
      obtain ⟨e, he, rfl⟩ := Option.map_eq_some_iff.mp ha
      cases es with
      | nil => cases he
      | cons f es =>
        obtain ⟨k, v⟩ := f
        by_cases hv : looseEq id v = true
        · -- the head goes, and the next element comes first
          simp only [List.find?_cons, hv] at he
          cases he
          rw [unsetKey_head hk]
          refine ready_list fun w hw => ?_
          cases es with
          | nil => cases hw
          | cons g es =>
            cases hw
            exact hd v _ _ rfl hv
        · -- an element behind the head goes
          simp only [List.find?_cons, hv] at he
          rw [unsetKey_tail hk (List.mem_map_of_mem (List.mem_of_find?_eq_some he))]
          refine ready_list fun w hw => ?_
          cases hw
          obtain ⟨x, hx, -, hid⟩ := hr rfl
          cases hx
          exact hid

theorem ready_nextQueue {p : Post} (hk : queue.KeysNodup) (hr : Ready d queue)
    (ho : EditOk d queue p) :
    ∃ next, nextQueue p queue = some next ∧ Ready d next ∧ next.KeysNodup := by
  have hstart : Ready d (startBatch p queue) ∧ (startBatch p queue).KeysNodup := by
    unfold startBatch
    split
    · next h => exact ⟨ho.start h, json_decode_keysNodup _⟩
    · exact ⟨hr, hk⟩
  unfold nextQueue
  split
  · next h => exact ready_dropQueued hstart.2 hstart.1 (ho.noString h) (ho.drop h)
  · exact ⟨_, rfl, hstart⟩

/-- From a ready queue the page shows what it should. -/
theorem formAsset_of_ready {p : Post} {a : Asset} (hr : Ready d queue)
    (hm : ∀ i, (p (str "manual_id")).bindInt = some i → d.asset i ≠ none →
      (p (str "manual_id")).truthy = true)
    (ha : (firstQueued d queue).or ((p (str "manual_id")).bindInt.bind d.asset) = some a) :
    formAsset d queue p = some a := by
  unfold formAsset nextId
  cases ht : queue.truthy with
  | true =>
    obtain ⟨e, he, h0, htr, i, hi, hex⟩ := hr ht
    obtain ⟨b, hb⟩ := Option.ne_none_iff_exists'.mp hex
    have hbind : e.bindInt.bind d.asset = some b := by rw [hi]; exact hb
    obtain ⟨vs, hvs⟩ : ∃ vs, queue.elems = e :: vs := by
      cases hq : queue.elems with
      | nil => rw [hq] at he; cases he
      | cons w vs =>
        rw [hq] at he
        cases he
        exact ⟨vs, rfl⟩
    have hf : firstQueued d queue = some b := by
      rw [firstQueued, hvs, List.findSome?_cons, hbind]
    rw [hf, Option.some_or] at ha
    rw [if_pos rfl, h0, if_pos htr, hbind, ha]
  | false =>
    have hf : firstQueued d queue = none := by rw [firstQueued, elems_of_falsy ht]; rfl
    rw [hf, Option.none_or] at ha
    obtain ⟨i, hi, hai⟩ := Option.bind_eq_some_iff.mp ha
    have hset : (p (str "manual_id")).isSet = true := by
      cases hv : p (str "manual_id") with
      | null => rw [hv] at hi; cases hi
      | _ => rfl
    have htr := hm i hi (by rw [hai]; exact Option.some_ne_none a)
    rw [if_neg Bool.false_ne_true, if_pos hset, if_pos htr, ha]

end

/-! ## Requests in sequence -/

section
variable {I : Type} {c : PageState I}

/-- Every queue is ready. -/
structure QueueInv (c : PageState I) : Prop where
  ready : ∀ j, Ready c.db (c.sess j).edit_queue
  keys : ∀ j, (c.sess j).edit_queue.KeysNodup

/-- Before the first request no queue is set. -/
theorem QueueInv.initial (h : ∀ j, (c.sess j).edit_queue = .null) : QueueInv c where
  ready j := by
    rw [h j]
    exact ready_of_falsy rfl
  keys j := by
    rw [h j]
    trivial

end

section
variable {I : Type} [DecidableEq I] {sha256 : Bytes → Bytes} {sv : Server}
  {c₀ c : PageState I} {i : I} {q : Request} {env : Nat → Env}

theorem no_delete (hp : q.page ≠ .delete_selected) (s : Session) :
    (handle sha256 q s).Emits fun st => ∀ ids, st ≠ .deleteAssets ids := by
  refine (handle_emits sha256 q s).mono fun st h ids hst => ?_
  subst hst
  unfold Sends at h
  split at h
  · obtain ⟨_, h⟩ := h
    cases h
  · obtain ⟨_, h⟩ := h
    cases h
  · cases h
  · cases h.2
  · rcases h.2 with h | ⟨_, h⟩ <;> cases h
  · obtain ⟨u, p, -, -, h | ⟨n, h⟩ | h⟩ := h <;> cases h
  · obtain ⟨u, -, h | h | h | ⟨_, h⟩⟩ := h <;> cases h
  · obtain ⟨p, -, h⟩ := h
    cases h
  · next hq => exact absurd hq hp
  · obtain ⟨-, _, _, h⟩ := h
    cases h
  · cases h.2

/-- A request that deletes nothing and leaves a ready queue keeps every queue ready. -/
theorem QueueInv.of_kept (h : QueueInv c) (hp : q.page ≠ .delete_selected)
    (hq : Ready c.db ((handle sha256 q (c.sess i)).run (exec sv) env c.db).1.1.edit_queue ∧
      ((handle sha256 q (c.sess i)).run (exec sv) env c.db).1.1.edit_queue.KeysNodup) :
    QueueInv (c.served (inventory sha256 sv) i q env) := by
  have hdb : ∀ {queue : Value}, Ready c.db queue →
      Ready (c.served (inventory sha256 sv) i q env).db queue :=
    fun hr => hr.mono fun _ _ _ _ hi => run_keeps_row (no_delete hp _) env hi
  refine ⟨fun j => hdb ?_, fun j => ?_⟩
  · show Ready c.db (Function.update c.sess i _ j).edit_queue
    by_cases hj : j = i
    · subst hj
      rw [Function.update_self]
      exact hq.1
    · rw [Function.update_of_ne hj]
      exact h.ready j
  · show (Function.update c.sess i _ j).edit_queue.KeysNodup
    by_cases hj : j = i
    · subst hj
      rw [Function.update_self]
      exact hq.2
    · rw [Function.update_of_ne hj]
      exact h.keys j

theorem QueueInv.delete (h : QueueInv c) (b : Body) (ho : stepOk c i ⟨.delete_selected, b⟩) :
    QueueInv (c.served (inventory sha256 sv) i ⟨.delete_selected, b⟩ env) := by
  have hs : Same (c.sess i) _ := (ends_delete_selected (c.sess i) b).run (exec sv) env c.db
  have hsess : (c.served (inventory sha256 sv) i ⟨.delete_selected, b⟩ env).sess = c.sess := by
    show Function.update c.sess i _ = c.sess
    rw [show ((inventory sha256 sv).handle ⟨.delete_selected, b⟩ (c.sess i)).run
      (inventory sha256 sv).exec env c.db = (delete_selected (c.sess i) b).run (exec sv) env c.db
      from rfl, hs, Function.update_eq_self]
  refine ⟨fun j => ?_, fun j => by rw [hsess]; exact h.keys j⟩
  rw [hsess]
  refine (h.ready j).mono fun e k he hk hex => ?_
  show ((delete_selected (c.sess i) b).run (exec sv) env c.db).2.assets.get? k ≠ none
  cases b with
  | get =>
    have hd : ((delete_selected (c.sess i) .get).run (exec sv) env c.db).2 = c.db := by
      unfold delete_selected
      split
      · rfl
      · split <;> rfl
    rw [hd]
    exact hex
  | post p =>
    rcases delete_selected_eq (c.sess i) p with ⟨r, hr, -⟩ | ⟨u, hd, hr⟩
    · rw [hr]
      exact hex
    · have hnot := ho p u rfl hd j e he
      rw [hr, deleteRows_assets, get?_removeRows, if_neg (by rwa [← hk])]
      exact hex

/-- **Every request that meets `stepOk` keeps every queue ready.** -/
theorem QueueInv.step (h : QueueInv c) (ho : stepOk c i q) :
    QueueInv (c.served (inventory sha256 sv) i q env) := by
  obtain ⟨page, b⟩ := q
  by_cases hdel : page = .delete_selected
  · subst hdel
    exact h.delete b ho
  · refine h.of_kept hdel ?_
    have hl := (handle_leaves (c.sess i) sha256 ⟨page, b⟩).run (exec sv) env c.db
    by_cases hout : page = .logout
    · subst hout
      rw [show _ = ({} : Session) from hl]
      exact ⟨ready_of_falsy rfl, trivial⟩
    · by_cases hedit : page = .edit_asset
      · subst hedit
        show Ready c.db ((edit_asset (c.sess i) b).run (exec sv) env c.db).1.1.edit_queue ∧
          ((edit_asset (c.sess i) b).run (exec sv) env c.db).1.1.edit_queue.KeysNodup
        cases hu : (c.sess i).user with
        | none =>
          rw [edit_asset_guest hu]
          exact ⟨h.ready i, h.keys i⟩
        | some u =>
          have hok : EditOk c.db (c.sess i).edit_queue b.fields :=
            ho (by rw [hu]; exact Option.some_ne_none u)
          obtain ⟨next, hn, hr, hk⟩ := ready_nextQueue (h.keys i) (h.ready i) hok
          obtain ⟨d', -, hrun⟩ := edit_asset_run hu b env c.db
          rw [hn] at hrun
          rw [hrun]
          exact ⟨hr, hk⟩
      · rw [hl.edit_queue hedit hout]
        exact ⟨h.ready i, h.keys i⟩

/-- **A batch edit does not get stuck.** In every state that requests meeting `stepOk` reach, a
request of a logged-in session to edit_asset.php that meets it shows the first queued asset that
exists, or else the asset of `manual_id`. -/
theorem batch_not_stuck (h0 : ∀ j, (c₀.sess j).edit_queue = .null)
    (h : Serial (inventory sha256 sv) stepOk c₀ c) (hu : (c.sess i).user ≠ none) (b : Body)
    (ho : stepOk c i ⟨.edit_asset, b⟩) : ShowsNext (inventory sha256 sv) c i b env := by
  have hinv : QueueInv c := h.invariant QueueInv (.initial h0) fun _ _ _ _ hi ho => hi.step ho
  obtain ⟨u, hu'⟩ := Option.ne_none_iff_exists'.mp hu
  have hok : EditOk c.db (c.sess i).edit_queue b.fields := ho hu
  obtain ⟨next, hn, hr, hk⟩ := ready_nextQueue (hinv.keys i) (hinv.ready i) hok
  obtain ⟨d', hd', hrun⟩ := edit_asset_run hu' b env c.db
  rw [hn] at hrun
  have hrun' : ((inventory sha256 sv).handle ⟨.edit_asset, b⟩ (c.sess i)).run
      (inventory sha256 sv).exec env c.db = _ := hrun
  have hex : ∀ j, d'.asset j = none ↔ c.db.asset j = none := fun j => by
    show d'.assets.get? j = none ↔ _
    rw [hd']
    exact editAssets_eq_none
  have hdb : (c.served (inventory sha256 sv) i ⟨.edit_asset, b⟩ env).db = d' := by
    show (((inventory sha256 sv).handle ⟨.edit_asset, b⟩ (c.sess i)).run _ env c.db).2 = d'
    rw [hrun']
  have hqueue :
      ((c.served (inventory sha256 sv) i ⟨.edit_asset, b⟩ env).sess i).edit_queue = next := by
    show (Function.update c.sess i (((inventory sha256 sv).handle ⟨.edit_asset, b⟩ (c.sess i)).run
      _ env c.db).1.1 i).edit_queue = next
    rw [Function.update_self, hrun']
  intro a ha
  rw [hdb, hqueue] at ha
  unfold Config.answer
  rw [hrun']
  refine formAsset_of_ready (hr.mono fun _ j _ _ hj => fun hn => hj ((hex j).mp hn)) ?_ ha
  exact fun j hj hne => hok.manual j hj fun hn => hne ((hex j).mpr hn)

end

/-- The state after a batch of the assets 33 and 34 is started. -/
def afterStart : PageState Nat :=
  (loggedIn sample).served (inventory zeroHash .canonical) 0 ⟨.edit_asset, .post sampleDelete⟩
    fun _ => .at 100

theorem editOk_sampleDelete : EditOk sample .null sampleDelete where
  start _ _ := ⟨.str (str "33"), by rw [sampleDelete_elems]; rfl, by rfl, by decide, 33, by decide,
    by decide⟩
  noString h := by
    exact absurd h (by decide)
  drop h := by
    exact absurd h (by decide)
  manual i h := by
    cases (show Value.bindInt .null = some i from h)

/-- The batch is started, and the page shown again. -/
theorem batch_not_stuck_sample :
    ShowsNext (inventory zeroHash .canonical) afterStart 0 .get fun _ => .at 101 := by
  have hs : Serial (inventory zeroHash .canonical) stepOk (loggedIn sample) afterStart :=
    .snoc _ .nil fun _ => editOk_sampleDelete
  have hu : (afterStart.sess 0).user ≠ none := by decide
  refine batch_not_stuck (fun _ => rfl) hs hu .get fun _ => ⟨nofun, nofun, nofun, fun i h => ?_⟩
  cases (show Value.bindInt .null = some i from h)

/-- The asset 33, selected for deletion. -/
def sampleDeleteFirst : Post := fun n =>
  if n = str "selected_ids" then .str (str "[\"33\"]") else .null

/-- Once another session has deleted the first asset of the batch, the form of the second is not
shown. -/
theorem deleted_head_blocks_batch : ¬ ∀ c : PageState Nat,
    Serial (inventory zeroHash .canonical) (fun _ _ _ => True) (loggedIn sample) c →
    ∀ b env, ShowsNext (inventory zeroHash .canonical) c 0 b env := by
  intro h
  have hs := h _ (.snoc (i := 1) (q := ⟨.delete_selected, .post sampleDeleteFirst⟩)
    (fun _ => .at 101) (.snoc (i := 0) (q := ⟨.edit_asset, .post sampleDelete⟩) (fun _ => .at 100)
      .nil trivial) trivial) .get (fun _ => .at 102)
  have hstuck := hs (sampleAsset 34 (by decide) (by decide)) (by decide)
  revert hstuck
  decide

end Inventory
