import Inventory.Model.Sample
import Inventory.Model.Sessions

/-!
# Who writes

`authed` is the history's own account of which sessions are logged in: a
session is, from a login.php POST with the right password to the next
logout.php. Every write a page sends is sent in such a session, with one
exception: add_asset.php has no guard.
-/

namespace Inventory

open Lib Php

/-- INSERT, UPDATE and DELETE on `assets` or `history_log`. -/
def Stmt.writes : Stmt → Bool
  | .query _ | .prune | .insertAsset _ | .updateAsset _ _ | .deleteAssets _ | .insertRow _ _ => true
  | _ => false

/-- A request other than add_asset.php that starts without a user and without deleted records
sends no write. -/
theorem not_writes {q : Request} {s : Session} {st : Stmt} (hu : s.user = none)
    (hd : NothingDeleted s) (hp : q.page ≠ .add_asset) (h : Sends q s st) : st.writes = false := by
  unfold Sends at h
  split at h
  · obtain ⟨_, rfl⟩ := h
    rfl
  · obtain ⟨_, rfl⟩ := h
    rfl
  · cases h
  · exact absurd hu h.1
  · exact absurd hu h.1
  · obtain ⟨u, p, h, -⟩ := h
    rw [hu] at h
    cases h
  · obtain ⟨u, h, -⟩ := h
    rw [hu] at h
    cases h
  · next hq => exact absurd hq hp
  · obtain ⟨u, p, h, -⟩ := h
    rw [hu] at h
    cases h
  · rw [hd] at h
    exact absurd h.1 (by decide)
  · exact absurd hu h.1

section
variable {I : Type} [DecidableEq I]

/-- What an event makes of the logged-in sessions. -/
def authStep (sv : Server) (a : I → Prop) : PageEvent I → I → Prop
  | .finish i f =>
    Function.update a i (f.req.page ≠ .logout ∧ (a i ∨ LoginOk sv f.req f.past))
  | _ => a

/-- The sessions that are logged in after a history of events. -/
def authed (sv : Server) (evs : List (PageEvent I)) : I → Prop :=
  evs.foldl (authStep sv) fun _ => False

theorem authed_snoc (sv : Server) (evs : List (PageEvent I)) (ev : PageEvent I) :
    authed sv (evs ++ [ev]) = authStep sv (authed sv evs) ev := by
  simp [authed]

/-- A write is sent in a logged-in session. -/
def WriteAuthed (sv : Server) (before : List (PageEvent I)) : PageEvent I → Prop
  | .sent i _ _ x => x.stmt.writes = true → authed sv before i
  | _ => True

/-- A statement of add_asset.php is sent in a logged-in session. -/
def AddAuthed (sv : Server) (before : List (PageEvent I)) : PageEvent I → Prop
  | .sent i q _ _ => q.page = .add_asset → authed sv before i
  | _ => True

/-- No session is logged in, no request is in flight. -/
structure Fresh (c : PageState I) : Prop where
  sess : ∀ i, c.sess i = {}
  idle : ∀ i, c.flight i = none

variable {sha256 : Bytes → Bytes} {sv : Server} {c₀ c : PageState I} {evs : List (PageEvent I)}

/-- What holds along every run from fresh sessions. -/
structure AccessInv (sha256 : Bytes → Bytes) (sv : Server) (evs : List (PageEvent I))
    (c : PageState I) : Prop where
  keeps : Each NothingDeleted (Flight.Keeps (inventory sha256 sv) anySent NothingDeleted
    (UserFrom sv)) c ∧ AllFinished (UserFrom sv) evs
  user : ∀ i, (c.sess i).user ≠ none → authed sv evs i
  flight : ∀ i f, c.flight i = some f → f.start = c.sess i ∧ f.rest.Emits (Sends f.req f.start)

theorem AccessInv.fresh (h : Fresh c) : AccessInv sha256 sv [] c where
  keeps := ⟨⟨fun i => by rw [h.sess i]; rfl, fun i f hf => by simp [h.idle i] at hf⟩,
    fun _ _ hm => by cases hm⟩
  user i hu := by simp [h.sess i] at hu
  flight i f hf := by simp [h.idle i] at hf

theorem AccessInv.step {c' : PageState I} {ev : PageEvent I} (h : AccessInv sha256 sv evs c)
    (hst : Step (inventory sha256 sv) c ev c') : AccessInv sha256 sv (evs ++ [ev]) c' := by
  have hk : onSent anySent c ev := by cases ev <;> trivial
  have hkeeps := hst.keeps (fun q s hs => handle_guarded sha256 sv q s hs) h.keeps hk
  cases hst with
  | @start i q hi =>
    refine ⟨hkeeps, fun j hj => ?_, fun j f hf => ?_⟩
    · rw [authed_snoc]
      exact h.user j hj
    · by_cases hji : j = i
      · subst hji
        rw [Config.fly_flight, Function.update_self] at hf
        cases hf
        exact ⟨rfl, handle_emits sha256 q _⟩
      · rw [Config.fly_flight, Function.update_of_ne hji] at hf
        exact h.flight j f hf
  | @send i f s k e hi hr =>
    refine ⟨hkeeps, fun j hj => ?_, fun j g hg => ?_⟩
    · rw [authed_snoc]
      exact h.user j hj
    · have hg' : Function.update c.flight i _ j = some g := hg
      by_cases hji : j = i
      · subst hji
        rw [Function.update_self] at hg'
        cases hg'
        obtain ⟨h1, h2⟩ := h.flight j f hi
        rw [hr] at h2
        exact ⟨h1, h2.2 _⟩
      · rw [Function.update_of_ne hji] at hg'
        exact h.flight j g hg'
  | @finish i f a hi hr =>
    obtain ⟨hstart, -⟩ := h.flight i f hi
    obtain ⟨-, hG⟩ := h.keeps.1.flight i f hi
    rw [hr] at hG
    refine ⟨hkeeps, fun j hj => ?_, fun j g hg => ?_⟩
    · have hj' : (Function.update c.sess i a.1 j).user ≠ none := hj
      rw [authed_snoc]
      show Function.update (authed sv evs) i _ j
      by_cases hji : j = i
      · subst hji
        rw [Function.update_self] at hj' ⊢
        obtain ⟨hpage, hfrom⟩ := hG.1 hj'
        refine ⟨hpage, hfrom.imp (fun hu => ?_) id⟩
        rw [hstart] at hu
        exact h.user j hu
      · rw [Function.update_of_ne hji] at hj' ⊢
        exact h.user j hj'
    · have hg' : Function.update c.flight i none j = some g := hg
      by_cases hji : j = i
      · subst hji
        rw [Function.update_self] at hg'
        cases hg'
      · have hs : Function.update c.sess i a.1 j = c.sess j := Function.update_of_ne hji _ _
        rw [Function.update_of_ne hji] at hg'
        obtain ⟨h1, h2⟩ := h.flight j g hg'
        exact ⟨h1.trans hs.symm, h2⟩

/-- A write is sent in a logged-in session, or by add_asset.php. -/
theorem AccessInv.sent {i : I} {q : Request} {s : Session} {x : Sent Env Stmt Db} {c' : PageState I}
    (h : AccessInv sha256 sv evs c) (hst : Step (inventory sha256 sv) c (.sent i q s x) c') :
    Sends q s x.stmt ∧ (q.page ≠ .add_asset → x.stmt.writes = true → authed sv evs i) := by
  cases hst with
  | @send i f st k e hi hr =>
    obtain ⟨hstart, hem⟩ := h.flight i f hi
    rw [hr] at hem
    refine ⟨hem.1, fun hp hw => h.user i fun hu => ?_⟩
    rw [← hstart] at hu
    have hd : NothingDeleted f.start := by
      rw [hstart]
      exact h.keeps.1.sess i
    rw [not_writes hu hd hp hem.1] at hw
    cases hw

theorem AccessInv.run {ok : PageState I → PageEvent I → Prop} (h0 : Fresh c₀)
    (h : Run (inventory sha256 sv) ok c₀ evs c) : AccessInv sha256 sv evs c :=
  h.invariant (AccessInv sha256 sv) (.fresh h0) fun _ _ _ _ hi _ hst => hi.step hst

/-- The one statement of add_asset.php is an INSERT. -/
theorem writes_of_add_asset {q : Request} {s : Session} {st : Stmt} (hp : q.page = .add_asset)
    (h : Sends q s st) : st.writes = true := by
  unfold Sends at h
  rw [hp] at h
  obtain ⟨p, -, rfl⟩ := h
  rfl

/-- For an event of a run the two conditions are the same. -/
theorem AccessInv.writeAuthed_iff {ev : PageEvent I} {c' : PageState I}
    (h : AccessInv sha256 sv evs c) (hst : Step (inventory sha256 sv) c ev c') :
    WriteAuthed sv evs ev ↔ AddAuthed sv evs ev := by
  cases ev with
  | start i q => exact Iff.rfl
  | finish i f => exact Iff.rfl
  | sent i q s x =>
    obtain ⟨hs, hother⟩ := h.sent hst
    refine ⟨fun hw hp => hw (writes_of_add_asset hp hs), fun ha hw => ?_⟩
    by_cases hp : q.page = .add_asset
    · exact ha hp
    · exact hother hp hw

/-- **Only a logged-in user writes, but for add_asset.php.** In a run from fresh sessions every
write is sent in a logged-in session just when every statement of add_asset.php is. -/
theorem writes_authed_iff (h0 : Fresh c₀)
    (h : Run (inventory sha256 sv) (onSent anySent) c₀ evs c) :
    Always (WriteAuthed sv) evs ↔ Always (AddAuthed sv) evs := by
  induction h with
  | nil => exact ⟨fun _ _ _ _ he => by simp at he, fun _ _ _ _ he => by simp at he⟩
  | @snoc evs c c' ev hr ho hst ih =>
    have hinv : AccessInv sha256 sv evs c := AccessInv.run h0 hr
    rw [always_snoc_iff, always_snoc_iff, ih, hinv.writeAuthed_iff hst]

/-- Sessions without a user over a database. -/
def loggedOut (d : Db) : PageState Nat where
  db := d
  sess _ := {}
  flight _ := none

theorem fresh_loggedOut (d : Db) : Fresh (loggedOut d) := ⟨fun _ => rfl, fun _ => rfl⟩

/-- The login of a user of the sample. -/
def sampleLogin : Request :=
  ⟨.login, posted [(str "username", str " admin "), (str "password", str "1234")]⟩

/-- A login and an edit of the asset 33. -/
theorem writes_authed_iff_sample :
    let sys := inventory zeroHash .canonical
    let c := (loggedOut sample).served sys 0 sampleLogin fun _ => .at 100
    let evs := (loggedOut sample).serving sys 0 sampleLogin (fun _ => .at 100) ++
      c.serving sys 0 (sampleEdit (str "33")) fun _ => .at 101
    Always (WriteAuthed .canonical) evs ↔ Always (AddAuthed .canonical) evs :=
  writes_authed_iff (fresh_loggedOut sample)
    (((Run.start anySent (loggedOut sample)).serve 0 sampleLogin (fun _ => .at 100) rfl
      (Proc.meets_of_forall _ (fun _ _ _ => trivial) _ _ _)).serve 0 _ _ rfl
      (Proc.meets_of_forall _ (fun _ _ _ => trivial) _ _ _))

/-- An add form. -/
def sampleAdd : Request := ⟨.add_asset, posted [(str "asset_tag", str "ASSET-35")]⟩

/-- add_asset.php sends its INSERT without any login. -/
theorem add_asset_writes_logged_out : ¬ ∀ (evs : List (PageEvent Nat)) (c : PageState Nat),
    Run (inventory zeroHash .canonical) (onSent anySent) (loggedOut sample) evs c →
    Always (WriteAuthed .canonical) evs := by
  intro h
  have hw := h _ _ ((Run.start anySent (loggedOut sample)).serve 0 sampleAdd (fun _ => .at 100) rfl
    (Proc.meets_of_forall _ (fun _ _ _ => trivial) _ _ _))
  exact hw [.start 0 sampleAdd] (.sent 0 sampleAdd {} _) _ rfl rfl

end

end Inventory
