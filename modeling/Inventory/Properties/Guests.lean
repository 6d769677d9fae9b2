import Inventory.Lib.Purge
import Inventory.Properties.Access
import Inventory.Properties.Linearizable

/-!
# Sessions apart

What one session can learn of the rest, as long as what it posts to index.php
stays in its literal. A session that is not logged in sees what it would see
alone, over any other assets and any other log (`guests_learn_nothing`); and
what a session holds, its queue included, is what its own requests make of it
(`sessions_isolated`).
-/

namespace Inventory

open Lib Php

/-- A session without a user, and without records to undo. -/
def Guest (s : Session) : Prop := s.user = none ∧ NothingDeleted s

/-- The statements that are answered from the users alone. -/
def RepliesByUsers : Stmt → Prop
  | .selectUser _ => True
  | .selectLogin sql => (readLogin sql).isSome = true
  | .query sql => Sql.target sql ≠ some (logTable, logCols)
  | _ => False

theorem reply_of_users {sv : Server} {e : Env} {st : Stmt} (hst : RepliesByUsers st) {d d' : Db}
    (h : d.users = d'.users) : (exec sv e st d).1 = (exec sv e st d').1 := by
  cases st with
  | query sql => rw [exec_other_query hst, exec_other_query hst]
  | selectUser u =>
    show d.users.filter _ = d'.users.filter _
    rw [h]
  | selectLogin sql => exact reply_selectLogin hst sv e h
  | _ => exact hst.elim

/-- What a guest's requests to the other pages send is answered from the users alone. -/
theorem sends_guest {q : Request} {s : Session} (hs : Guest s) (hp : q.page ≠ .index) {st : Stmt}
    (h : Sends q s st) : RepliesByUsers st := by
  obtain ⟨hu, hn⟩ := hs
  unfold Sends at h
  split at h
  · obtain ⟨_, rfl⟩ := h
    trivial
  · next hq => exact absurd hq hp
  · exact h.elim
  · exact absurd hu h.1
  · exact absurd hu h.1
  · obtain ⟨u, p, h, -⟩ := h
    rw [hu] at h
    cases h
  · obtain ⟨u, h, -⟩ := h
    rw [hu] at h
    cases h
  · obtain ⟨p, -, rfl⟩ := h
    exact target_add_asset _
  · obtain ⟨u, p, h, -⟩ := h
    rw [hu] at h
    cases h
  · rw [hn] at h
    exact absurd h.1 (by decide)
  · exact absurd hu h.1

theorem emits_guest {sha256 : Bytes → Bytes} {q : Request} (hq : StaysInLiteral sha256 q)
    {s : Session} (hs : Guest s) : (handle sha256 q s).Emits RepliesByUsers := by
  by_cases hp : q.page = .index
  · obtain ⟨page, b⟩ := q
    obtain rfl : page = .index := hp
    exact emits_index s sha256 b fun p hb => hq p (by rw [hb])
  · exact (handle_emits sha256 q s).mono fun _ => sends_guest hs hp

theorem confined_guests (sha256 : Bytes → Bytes) (sv : Server) :
    Confined (inventory sha256 sv) Db.users RepliesByUsers (StaysInLiteral sha256) Guest where
  keeps e st d := exec_users sv e st d
  reply _ _ _ _ hst h := reply_of_users hst h
  emits _ _ hq hs := emits_guest hq hs

section
variable {I : Type} [DecidableEq I] {sha256 : Bytes → Bytes} {sv : Server} {c₀ d₀ c : PageState I}
  {evs : List (PageEvent I)} {ok : PageState I → PageEvent I → Prop} {i : I}

/-- Every request that ends leaves nothing to undo. -/
theorem finished_nothingDeleted (h0 : AtRest c₀) (h : Run (inventory sha256 sv) ok c₀ evs c) :
    AllFinished (fun _ _ _ a => NothingDeleted a.1) evs := by
  have hr : Run (inventory sha256 sv) (onSent anySent) c₀ evs c := h.mono fun _ ev _ => by
    cases ev <;> trivial
  refine (Run.finished (J := NothingDeleted) h0.sess h0.idle (fun q s hs => ?_) hr).2
  exact ((handle_nothingDeleted s sha256 q hs).guarded (exec sv)).mono (exec sv)
    (fun _ _ _ h => h) fun _ _ h => ⟨h, h⟩

/-- **A guest learns nothing**, as long as what it posts to index.php stays in its literal. What a
session sees until it logs in, its requests, the statements they send and the answers, it also sees
when no other session sends a request and the assets, the log and the other sessions are any
others. -/
theorem guests_learn_nothing (h0 : AtRest c₀) (h : Run (inventory sha256 sv) ok c₀ evs c)
    (hlit : StartsOnly (StaysInLiteral sha256) i evs) (hguest : (c₀.sess i).user = none)
    (hstay : ∀ f, Event.finish i f ∈ evs → f.final.user = none)
    (husers : c₀.db.users = d₀.db.users) (hsess : c₀.sess i = d₀.sess i)
    (hidle : d₀.flight i = none) :
    ∃ evs' c', Run (inventory sha256 sv) (ofSession i) d₀ evs' c' ∧ seen i evs' = seen i evs ∧
      c'.sess i = c.sess i := by
  have halike : Alike Db.users RepliesByUsers Guest i c₀ d₀ :=
    ⟨husers, hsess, ⟨hguest, h0.sess i⟩, by rw [h0.idle, hidle], fun f hf => by
      rw [h0.idle] at hf
      cases hf⟩
  obtain ⟨evs', c', hr, hseen, ha⟩ := h.purge (confined_guests sha256 sv) halike hlit
    fun f hf => ⟨hstay f hf, finished_nothingDeleted h0 h i f hf⟩
  exact ⟨evs', c', hr, hseen, ha.sess.symm⟩

end

/-! ## What a session holds -/

/-- The session after a request to edit_asset.php. -/
def editSession (s : Session) (b : Body) : Session :=
  match s.user with
  | none => s
  | some _ =>
    { s with
      edit_queue := (nextQueue b.fields s.edit_queue).getD (startBatch b.fields s.edit_queue) }

theorem ends_editSession (s : Session) (b : Body) :
    (edit_asset s b).Ends fun a => a.1 = editSession s b := by
  unfold edit_asset editSession nextQueue
  cases s.user with
  | none => rfl
  | some u =>
    dsimp only
    split
    · refine (ends_true _).bind fun _ _ => ?_
      cases dropQueued (b.fields (str "id")) (startBatch b.fields s.edit_queue) with
      | none => rfl
      | some queue => exact ends_showNext _ _ _
    · exact ends_showNext _ _ _

section
variable (sv : Server) (s : Session)

/-- The session alone, nothing of the answer. -/
abbrev sessionOnly (_ : Request) (_ : Response) : Unit := ()

/-- A request that ends with one session whatever is replied. -/
theorem settles_of_ends {q : Request} {p : Handler} {s' : Session} (h : p.Ends fun a => a.1 = s') :
    p.Settles (exec sv) Db.users (fun _ => True) fun a => (a.1, sessionOnly q a.2) := by
  have hemits : ∀ p : Handler, p.Emits fun _ => True := fun p => by
    induction p with
    | done a => trivial
    | call st k ih => exact ⟨trivial, ih⟩
  cases p with
  | done a => trivial
  | call st k =>
    refine fun e d d' _ => ⟨(s', ()), ⟨hemits _, ?_⟩, ⟨hemits _, ?_⟩⟩
    · exact (h _).mono fun a ha => by rw [ha]
    · exact (h _).mono fun a ha => by rw [ha]

/-- A request that is over when its one statement is answered. -/
theorem settles_of_user {q : Request} {st : Stmt} (hst : RepliesByUsers st) {k : Reply st → Handler}
    (hk : ∀ r, ∃ a, k r = .done a) : (send st >>= k).Settles (exec sv) Db.users (fun _ => True)
      fun a => (a.1, sessionOnly q a.2) := fun e d d' h => by
  obtain ⟨a, ha⟩ := hk (exec sv e st d).1
  have ha' : k (exec sv e st d').1 = .done a := by rw [← reply_of_users hst h, ha]
  refine ⟨(a.1, ()), ?_, ?_⟩
  · show (k _).Settled _ _ _
    rw [ha]
    exact ⟨trivial, rfl⟩
  · show (k _).Settled _ _ _
    rw [ha']
    exact ⟨trivial, rfl⟩

/-- **What a request makes of its session** follows from the users it meets. -/
theorem handle_settles_session (sha256 : Bytes → Bytes) (q : Request)
    (hq : StaysInLiteral sha256 q) (hs : NothingDeleted s) :
    (handle sha256 q s).Settles (exec sv) Db.users (fun _ => True)
      fun a => (a.1, sessionOnly q a.2) := by
  obtain ⟨page, b⟩ := q
  cases page with
  | login =>
    cases b with
    | get => trivial
    | post p =>
      have hst : RepliesByUsers (.selectUser (trim (p (str "username"))).bindStr) := trivial
      refine settles_of_user sv hst fun (users : List User) => ?_
      split
      · split
        · split
          · exact ⟨_, rfl⟩
          · exact ⟨_, rfl⟩
        · exact ⟨_, rfl⟩
      · exact ⟨_, rfl⟩
  | index =>
    cases b with
    | get => trivial
    | post p =>
      have hst : RepliesByUsers (.selectLogin _) := hq p rfl
      refine settles_of_user sv hst fun (rows : Option Nat) => ?_
      split
      · exact ⟨_, rfl⟩
      · exact ⟨_, rfl⟩
  | logout => trivial
  | dashboard => exact settles_of_ends sv (ends_dashboard s)
  | masterlist => exact settles_of_ends sv (ends_masterlist s)
  | new_entry => exact settles_of_ends sv (ends_new_entry s b)
  | edit_asset => exact settles_of_ends sv (ends_editSession s b)
  | add_asset => exact settles_of_ends sv (ends_add_asset s b)
  | delete_selected => exact settles_of_ends sv (ends_delete_selected s b)
  | undo_delete =>
    show (undo_delete s).Settles _ _ _ _
    rw [undo_nothing hs]
    trivial
  | export_excel => exact settles_of_ends sv (ends_export_excel s)

end

section
variable {I : Type} [DecidableEq I] {sha256 : Bytes → Bytes} {sv : Server} {c₀ d₀ c : PageState I}
  {evs : List (PageEvent I)} {ok : PageState I → PageEvent I → Prop} {i : I}

theorem viewed_users (sv : Server) : Viewed (exec sv) Db.users fun _ => True where
  congr e st d d' h := by rw [exec_users, exec_users, h]
  quiet e st d _ := exec_users sv e st d

/-- **Sessions are isolated.** In every run a session without a request in flight holds what its
own requests, served alone and in their order, make of it, over any database with the same users:
no request of another session, no asset and no log entry has a part in it, as long as what the
session itself posts to index.php stays in its literal. -/
theorem sessions_isolated (h0 : AtRest c₀) (h : Run (inventory sha256 sv) ok c₀ evs c)
    (hlit : StartsOnly (StaysInLiteral sha256) i evs) (hi : c.flight i = none)
    (husers : c₀.db.users = d₀.db.users) (hsess : c₀.sess i = d₀.sess i) :
    ∃ l : List (Call Env Request I), (∀ x ∈ l, x.who = i) ∧ l.map Call.req = started i evs ∧
      c.sess i = (d₀.servedAll (inventory sha256 sv) l).sess i :=
  h.isolated (viewed_users sv) (fun q s => handle_settles_session sv s sha256 q)
    (fun q s => handle_nothingDeleted s sha256 q) (hsess ▸ h0.sess i) (h0.idle i) husers hsess
    hlit hi

end

/-! ## A user and a guest -/

/-- Only login.php and logout.php change the user of a session. -/
theorem served_user {I : Type} [DecidableEq I] {sha256 : Bytes → Bytes} {sv : Server}
    {c : PageState I} {i : I} {q : Request} {env : Nat → Env} (h1 : q.page ≠ .login)
    (h2 : q.page ≠ .logout) :
    ((c.served (inventory sha256 sv) i q env).sess i).user = (c.sess i).user := by
  show (Function.update c.sess i _ i).user = _
  rw [Function.update_self]
  exact (((handle_leaves (c.sess i) sha256 q).run (exec sv) env c.db).keepsUser h1 h2).1

theorem atRest_loggedOut (d : Db) : AtRest (loggedOut d) := ⟨fun _ => rfl, fun _ => rfl⟩

/-- Session 0 logs in. -/
def userIn : PageState Nat :=
  (loggedOut sample).served (inventory zeroHash .canonical) 0 sampleLogin fun _ => .at 100

/-- Session 1 tries to, at index.php. -/
def guestTried : PageState Nat :=
  userIn.served (inventory zeroHash .canonical) 1 indexLogin fun _ => .at 101

def guestHistory : List (PageEvent Nat) :=
  (loggedOut sample).serving (inventory zeroHash .canonical) 0 sampleLogin (fun _ => .at 100) ++
    userIn.serving (inventory zeroHash .canonical) 1 indexLogin fun _ => .at 101

theorem userIn_run : Run (inventory zeroHash .canonical) (onSent anySent) (loggedOut sample)
    ((loggedOut sample).serving (inventory zeroHash .canonical) 0 sampleLogin
      fun _ => .at 100) userIn :=
  (Run.start anySent (loggedOut sample)).serve 0 sampleLogin (fun _ => .at 100) rfl
    (Proc.meets_of_forall _ (fun _ _ _ => trivial) _ _ _)

theorem sampleLogin_literal : StaysInLiteral zeroHash sampleLogin :=
  staysInLiteral_of_ne (by decide)

theorem guests_learn_nothing_sample : ∃ evs' c',
    Run (inventory zeroHash .canonical) (ofSession 1) (loggedOut sampleNoMemory) evs' c' ∧
      seen 1 evs' = seen 1 guestHistory ∧ c'.sess 1 = guestTried.sess 1 := by
  have hr := userIn_run.serve 1 indexLogin (fun _ => Env.at 101) rfl
    (Proc.meets_of_forall _ (fun _ _ _ => trivial) _ _ _)
  have hlit : StartsOnly (StaysInLiteral zeroHash) 1 guestHistory :=
    ((literal_nil 1).serve sampleLogin_literal).serve indexLogin_literal
  have hstay : ∀ f, Event.finish 1 f ∈ guestHistory → f.final.user = none := by
    intro f hf
    rcases List.mem_append.mp hf with hf | hf
    · exact absurd (finish_mem_serving hf).1 (by decide)
    · rw [(finish_mem_serving hf).2]
      exact served_user (by decide) (by decide)
  exact guests_learn_nothing (atRest_loggedOut sample) hr hlit rfl hstay rfl rfl rfl

/-- A batch of the assets 33 and 34. -/
def sampleBatch : Request := ⟨.edit_asset, .post sampleDelete⟩

/-- Session 0 logs in and starts a batch; in between session 1 logs in and deletes its assets. -/
theorem sessions_isolated_sample : ∃ (c : PageState Nat) (l : List (Call Env Request Nat)),
    c.db.asset 33 = none ∧ (∀ x ∈ l, x.who = 0) ∧ l.map Call.req = [sampleLogin, sampleBatch] ∧
    c.sess 0 = ((loggedOut sampleNoMemory).servedAll (inventory zeroHash .canonical) l).sess 0 := by
  have any : ∀ p env d, Proc.Meets (exec .canonical) (fun _ _ _ => True)
      (p : Handler) env d := fun p env d => Proc.meets_of_forall _ (fun _ _ _ => trivial) p env d
  have h1 := userIn_run.serve 1 sampleLogin (fun _ => .at 101) rfl (any _ _ _)
  have h2 := h1.serve 1 ⟨.delete_selected, .post sampleDelete⟩ (fun _ => .at 102) rfl (any _ _ _)
  have h3 := h2.serve 0 sampleBatch (fun _ => .at 103) rfl (any _ _ _)
  have husers : (loggedOut sample).db.users = (loggedOut sampleNoMemory).db.users := rfl
  obtain ⟨l, hwho, hreq, hsess⟩ := sessions_isolated (atRest_loggedOut sample) h3
    (((((literal_nil 0).serve sampleLogin_literal).serve sampleLogin_literal).serve
      (staysInLiteral_of_ne (by decide))).serve (staysInLiteral_of_ne (by decide))) rfl husers rfl
  exact ⟨_, l, by decide, hwho, hreq, hsess⟩

end Inventory
