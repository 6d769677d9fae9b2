import Inventory.Model.Register
import Inventory.Model.Sample

/-!
# Requests side by side

Requests of many sessions send their statements in any interleaving, and still
a run is one of requests served one after another (`pages_linearizable`), in
which each makes the one change to the register of assets that its form asks for
(`pages_refine_register`). Hence an id names one asset for ever
(`deleted_ids_stay_free`).
-/

namespace Inventory

open Lib Php

section
variable {I : Type} [DecidableEq I] {sha256 : Bytes → Bytes} {sv : Server}
  {c₀ c₁ c₂ c : PageState I} {evs evs₁ evs₂ : List (PageEvent I)}
  {ok : PageState I → PageEvent I → Prop}

/-- No request is in flight, and no session has records to undo. -/
structure AtRest (c : PageState I) : Prop where
  sess : ∀ i, NothingDeleted (c.sess i)
  idle : ∀ i, c.flight i = none

/-- **The pages are linearizable**, as long as what is posted to index.php stays in its literal.
However the statements of the requests interleave, some order of serving the requests one after
another, each between its start and its end, gives the same assets and users, the same sessions,
and the same answers, but for what a request reads from the log or after its first statement: the
list of the dashboard, the options of the master list, and after an update the error and the
form. -/
theorem pages_linearizable (h0 : AtRest c₀) (h : Run (inventory sha256 sv) ok c₀ evs c)
    (hlit : ∀ i, StartsOnly (StaysInLiteral sha256) i evs) :
    ∃ l, Linearizes (inventory sha256 sv) Db.data known c₀ evs c l :=
  h.linearizes (viewed_data sv) (fun q s => handle_settles sv s sha256 q)
    (fun q s => handle_nothingDeleted s sha256 q) h0.sess h0.idle hlit

theorem register_of_data {d d' : Db} (h : d.data = d'.data) : d.register = d'.register :=
  congrArg register (data_eq.mp h).1

/-- **The pages refine the register.** In every run in which what is posted to index.php stays in
its literal, the assets are those of a register to which the requests made their changes one after
another, each between its start and its end: the change that its form asks for in a session with a
user, none in a session without. -/
theorem pages_refine_register (h0 : AtRest c₀) (h : Run (inventory sha256 sv) ok c₀ evs c)
    (hlit : ∀ i, StartsOnly (StaysInLiteral sha256) i evs) :
    ∃ l, RealTime (inventory sha256 sv) known Set.univ c₀ evs l ∧
      c.db.register = c₀.db.register.applyAll (changes sha256 sv c₀ l) := by
  obtain ⟨l, hl⟩ : ∃ l, Linearizes (inventory sha256 sv) Db.data known c₀ evs c l :=
    h.linearizes (viewed_data sv) (fun q s => handle_settles sv s sha256 q)
      (fun q s => handle_nothingDeleted s sha256 q) h0.sess h0.idle hlit
  exact ⟨l, hl.realTime, (register_of_data hl.view).trans (servedAll_register h0.sess l)⟩

/-! ## Ids -/

/-- From a reachable state on the register only goes onward. -/
theorem register_onward (h0 : AtRest c₀) (h₁ : Run (inventory sha256 sv) ok c₀ evs₁ c₁)
    (h₂ : Run (inventory sha256 sv) ok c₁ evs₂ c₂) : c₁.db.register.Onward c₂.db.register := by
  have hP : ∀ q s, NothingDeleted s →
      ((inventory sha256 sv).handle q s).Emits fun st => ¬ st.insertsRow := fun q s hs =>
    (handle_emits sha256 q s).mono fun _ => not_insertsRow hs
  have hJ : ∀ q s, NothingDeleted s →
      ((inventory sha256 sv).handle q s).Ends fun a => NothingDeleted a.1 := fun q s =>
    handle_nothingDeleted s sha256 q
  have hwithin := h₁.within hP hJ h0.sess h0.idle
  refine h₂.keeps (fun d => c₁.db.register.Onward d.register) (fun e st d hst hd => ?_) hP hJ
    hwithin (.refl _)
  exact hd.trans (exec_register hst d ▸ Registry.onward_apply _ _)

/-- The columns of the assets in the register. -/
theorem entry_register (d : Db) (i : Int) : d.register.entry i = (d.asset i).map Asset.fields := rfl

theorem entry_eq_none {d : Db} {i : Int} : d.register.entry i = none ↔ d.asset i = none := by
  rw [entry_register, Option.map_eq_none_iff]

/-- **An id names one asset for ever.** From any reachable state on, whatever requests overlap, an
id below the next one that has no asset never gets one again, and an asset that is new has an id
above all those that were ever given. -/
theorem deleted_ids_stay_free (h0 : AtRest c₀) (h₁ : Run (inventory sha256 sv) ok c₀ evs₁ c₁)
    (h₂ : Run (inventory sha256 sv) ok c₁ evs₂ c₂) :
    (∀ i, i < c₁.db.assets.next → c₁.db.asset i = none → c₂.db.asset i = none) ∧
      ∀ i, c₁.db.asset i = none → c₂.db.asset i ≠ none → c₁.db.assets.next ≤ i := by
  have ho := register_onward h0 h₁ h₂
  have hgone : ∀ i, i < c₁.db.assets.next → c₁.db.asset i = none → c₂.db.asset i = none :=
    fun i hi hn => entry_eq_none.mp (ho.gone i hi (entry_eq_none.mpr hn))
  refine ⟨hgone, fun i hn ht => ?_⟩
  by_contra hlt
  exact ht (hgone i (by omega) hn)

/-- An asset that is there at last was there at every moment since its id was given. -/
theorem there_before (h0 : AtRest c₀) (h₁ : Run (inventory sha256 sv) ok c₀ evs₁ c₁)
    (hb : Run (inventory sha256 sv) ok c₁ evs c) (ha : Run (inventory sha256 sv) ok c evs₂ c₂)
    {i : Int} (hi : i < c₁.db.assets.next) (ht : c₂.db.asset i ≠ none) : c.db.asset i ≠ none := by
  have hic : i < c.db.assets.next := lt_of_lt_of_le hi (register_onward h0 h₁ hb).next
  have ho := register_onward h0 (h₁.trans hb) ha
  have he := ho.there hic fun e => ht (entry_eq_none.mp e)
  exact fun e => he (entry_eq_none.mpr e)

end

/-! ## Two requests that overlap -/

theorem atRest_loggedIn (d : Db) : AtRest (loggedIn d) := ⟨fun _ => rfl, fun _ => rfl⟩

/-- The run of no requests on the sample server. -/
theorem run_nothing (c : PageState Nat) :
    Run (inventory zeroHash .canonical) (onSent anySent) c [] c := .nil

/-- A login of index.php. -/
def indexLogin : Request :=
  ⟨.index, posted [(str "username", str "admin"), (str "password", str "1234")]⟩

theorem indexLogin_literal : StaysInLiteral zeroHash indexLogin :=
  staysInLiteral_of_clean (by decide) (by decide)

theorem literal_nil (i : Nat) :
    StartsOnly (StaysInLiteral zeroHash) i ([] : List (PageEvent Nat)) := fun _ hq =>
  absurd hq List.not_mem_nil

set_option maxRecDepth 20000 in
/-- The assets 33 and 34 are deleted by session 1 while session 0 submits the form of 33. -/
theorem overlap : ∃ evs c, Run (inventory zeroHash .canonical) (onSent anySent) (loggedIn sample)
    evs c ∧ (∀ i, StartsOnly (StaysInLiteral zeroHash) i evs) ∧ c.db.asset 33 = none := by
  have any : ∀ p env d, Proc.Meets (exec .canonical) (fun _ _ _ => True)
      (p : Handler) env d := fun p env d => Proc.meets_of_forall _ (fun _ _ _ => trivial) p env d
  have h0 := (run_nothing (loggedIn sample)).serve 2
    indexLogin (fun _ => .at 100) rfl (any _ _ _)
  have h1 := (h0.begin 0 (sampleEdit (str "33")) rfl).begin 1
    ⟨.delete_selected, .post sampleDelete⟩ rfl
  have h2 := h1.drain (i := 1) rfl (any _ (fun _ => .at 101) _)
  have h3 := h2.drain (i := 0) rfl (any _ (fun _ => .at 102) _)
  refine ⟨_, _, h3, fun i => ?_, by decide⟩
  exact (((((literal_nil i).serve indexLogin_literal).begin (staysInLiteral_of_ne (by decide))).begin
    (staysInLiteral_of_ne (by decide))).drain).drain

theorem pages_linearizable_sample : ∃ (evs : List (PageEvent Nat)) (c : PageState Nat)
    (l : List (Call Env Request Nat)), c.db.asset 33 = none ∧
    Linearizes (inventory zeroHash .canonical) Db.data known (loggedIn sample) evs c l := by
  obtain ⟨evs, c, h, hlit, hgone⟩ := overlap
  obtain ⟨l, hl⟩ := pages_linearizable (atRest_loggedIn sample) h hlit
  exact ⟨evs, c, l, hgone, hl⟩

theorem pages_refine_register_sample : ∃ (evs : List (PageEvent Nat)) (c : PageState Nat)
    (l : List (Call Env Request Nat)), c.db.asset 33 = none ∧
    RealTime (inventory zeroHash .canonical) known Set.univ (loggedIn sample) evs l ∧
    c.db.register = sample.register.applyAll (changes zeroHash .canonical (loggedIn sample) l) := by
  obtain ⟨evs, c, h, hlit, hgone⟩ := overlap
  obtain ⟨l, hl⟩ := pages_refine_register (atRest_loggedIn sample) h hlit
  exact ⟨evs, c, l, hgone, hl⟩

/-- The assets 33 and 34 are deleted. -/
def emptied : PageState Nat :=
  (loggedIn sample).served (inventory zeroHash .canonical) 0
    ⟨.delete_selected, .post sampleDelete⟩ fun _ => .at 100

/-- The form of a new asset with the sample values, submitted. -/
def sampleNew : Request :=
  ⟨.new_entry, posted (Col.all.map fun c => (c.name, sampleText c))⟩

/-- A new asset after the delete: it gets the id 1016, and 33 stays free. -/
theorem deleted_ids_stay_free_sample :
    let c := emptied.served (inventory zeroHash .canonical) 1 sampleNew fun _ => .at 101
    emptied.db.asset 33 = none ∧ c.db.asset 1016 ≠ none ∧
    (∀ i, i < emptied.db.assets.next → emptied.db.asset i = none → c.db.asset i = none) ∧
    ∀ i, emptied.db.asset i = none → c.db.asset i ≠ none → emptied.db.assets.next ≤ i := by
  have h₁ := (run_nothing (loggedIn sample)).serve 0
    ⟨.delete_selected, .post sampleDelete⟩ (fun _ => .at 100) rfl
    (Proc.meets_of_forall _ (fun _ _ _ => trivial) _ _ _)
  have h₂ := (run_nothing emptied).serve 1 sampleNew
    (fun _ => .at 101) rfl (Proc.meets_of_forall _ (fun _ _ _ => trivial) _ _ _)
  exact ⟨by decide, by decide, deleted_ids_stay_free (atRest_loggedIn sample) h₁ h₂⟩

end Inventory
