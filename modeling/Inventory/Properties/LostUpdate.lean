import Inventory.Properties.RoundTrip

/-!
# Two edits of one asset

Sessions load the edit form of one asset and submit it with changes, in any
order of the steps. Nothing in the form says which version of the row it shows,
and the update writes every column: the row is what the last submit made of the
form its session had loaded.
-/

namespace Inventory

open Lib Php Html

/-- What a session has of the form: nothing yet, the form of a row as it was after the last submit
of a session (`after`), or that form submitted. -/
inductive Desk (I : Type) where
  | away
  | shown (a : Asset) (after : Option I)
  | sent (a : Asset) (after : Option I)

/-- The pages, the forms, and the session that submitted last. -/
structure Editing (I : Type) where
  pages : PageState I
  desk : I → Desk I := fun _ => .away
  last : Option I := none

/-- The pages have gone on, and session `i` has `d` on its desk. -/
def Editing.next {I : Type} [DecidableEq I] (e : Editing I) (i : I) (pages : PageState I)
    (d : Desk I) (last : Option I) : Editing I :=
  ⟨pages, Function.update e.desk i d, last⟩

section
variable {I : Type} [DecidableEq I] (sha256 : Bytes → Bytes) (sv : Server) (checks : Bool)
  (x : Int) (ch : I → Col → Option Bytes)

/-- A session loads the form of the asset `x`, or submits it with its changes, which are to fields
the form has, and the update is executed. -/
inductive EditStep : Editing I → Editing I → Prop where
  | load {e : Editing I} {i : I} {a : Asset} {body : Body} {env : Nat → Env} :
      e.desk i = .away → (body.fields (str "update")).isSet = false →
      (e.pages.answer (inventory sha256 sv) i ⟨.edit_asset, body⟩ env).form = some a → a.id = x →
      EditStep e (e.next i (e.pages.served (inventory sha256 sv) i ⟨.edit_asset, body⟩ env)
        (.shown a e.last) e.last)
  | submit {e : Editing I} {i : I} {a : Asset} {after : Option I} {es : List (Bytes × Bytes)}
      {env : Nat → Env} :
      e.desk i = .shown a after → (∀ c, ch i c ≠ none → a.control c ≠ none) →
      submission checks (retype (ch i) (controls (editForm a))) = some es →
      sv.castAll (a.resent (ch i)) ≠ none →
      EditStep e (e.next i
        (e.pages.served (inventory sha256 sv) i ⟨.edit_asset, .post (formPost es)⟩ env)
        (.sent a after) (some i))

inductive EditRun (c₀ : PageState I) : Editing I → Prop where
  | start : EditRun c₀ { pages := c₀ }
  | step {e e' : Editing I} : EditRun c₀ e → EditStep sha256 sv checks x ch e e' → EditRun c₀ e'

end

/-- The column holds what is stored for a submitted value. -/
def Stores (sv : Server) (c : Col) (v : Bytes) (w : Option Bytes) : Prop :=
  sv.castCol c (some (if c = .email_address then emailText (some v) else v)) = some w

section
variable {sv : Server} {a : Asset} {c : Col} {ch : Col → Option Bytes} {f : Fields}

/-- A changed field holds its new value. -/
theorem stores_changed {v : Bytes} (h : sv.castAll (a.resent ch) = some f) (hc : ch c = some v)
    (hin : a.control c ≠ none) : Stores sv c v (f c) := by
  have hcast := sv.castAll_eq_some.mp h c
  obtain ⟨k, hk⟩ := Option.ne_none_iff_exists'.mp hin
  have ht : a.typed ch c = some v := by
    rw [Asset.typed, hk, hc]
    rfl
  unfold Asset.resent at hcast
  unfold Stores
  rw [ht] at hcast
  by_cases he : c = .email_address
  · rwa [if_pos he] at hcast ⊢
  · rwa [if_neg he] at hcast ⊢

/-- A field that was not changed holds what comes back from the form. -/
theorem kept_unchanged (h : sv.castAll (a.resent ch) = some f) (hc : ch c = none)
    (hf : Faithful c (a.fields c)) : ValueKept c (a.fields c) (f c) := by
  have hcast := sv.castAll_eq_some.mp h c
  have hsame : a.resent ch c = a.resent (fun _ => none) c := by
    unfold Asset.resent Asset.typed
    rw [hc]
  rw [hsame] at hcast
  exact ((comesBack sv a c).2 _ hcast).mpr hf

end

/-! ## The row after a run -/

section
variable {I : Type}

/-- The values of the row after the last submit of a session: those it submitted, or at first the
original ones. -/
def RowAfter (sv : Server) (ch : I → Col → Option Bytes) (f₀ : Fields) (desk : I → Desk I)
    (last : Option I) (f : Fields) : Prop :=
  match last with
  | none => f = f₀
  | some k => ∃ a after, desk k = .sent a after ∧ sv.castAll (a.resent (ch k)) = some f ∧
      ∀ c, ch k c ≠ none → a.control c ≠ none

theorem RowAfter.mono {sv : Server} {ch : I → Col → Option Bytes} {f₀ f : Fields}
    {desk desk' : I → Desk I} {last : Option I}
    (h : ∀ k a after, desk k = .sent a after → desk' k = .sent a after)
    (hr : RowAfter sv ch f₀ desk last f) : RowAfter sv ch f₀ desk' last f := by
  cases last with
  | none => exact hr
  | some k =>
    obtain ⟨a, after, hk, hrest⟩ := hr
    exact ⟨a, after, h k a after hk, hrest⟩

end

section
variable {I : Type} [DecidableEq I] {sha256 : Bytes → Bytes} {sv : Server} {checks : Bool}
  {x : Int} {ch : I → Col → Option Bytes} {c₀ : PageState I} {e e' : Editing I}

structure EditInv (sv : Server) (x : Int) (ch : I → Col → Option Bytes) (f₀ : Fields)
    (e : Editing I) : Prop where
  user : ∀ k, e.desk k ≠ .away → (e.pages.sess k).user ≠ none
  row : ∃ b, e.pages.db.asset x = some b ∧ RowAfter sv ch f₀ e.desk e.last b.fields
  form : ∀ k a after, e.desk k = .shown a after ∨ e.desk k = .sent a after →
    a.id = x ∧ after ≠ some k ∧ RowAfter sv ch f₀ e.desk after a.fields

/-- What a session does before it has submitted leaves the submitted forms on their desks. -/
theorem sent_next {i : I} (h : ∀ a after, e.desk i ≠ .sent a after) (pages : PageState I)
    (d : Desk I) (last : Option I) (k : I) (a : Asset) (after : Option I)
    (hk : e.desk k = .sent a after) : (e.next i pages d last).desk k = .sent a after := by
  have hne : k ≠ i := by
    rintro rfl
    exact h a after hk
  show Function.update e.desk i d k = _
  rw [Function.update_of_ne hne, hk]

theorem EditInv.next {f₀ : Fields} {i : I} {pages : PageState I} {d : Desk I} {last : Option I}
    (h : EditInv sv x ch f₀ e) (hsent : ∀ a after, e.desk i ≠ .sent a after)
    (hpages : ∀ k, (pages.sess k).user = (e.pages.sess k).user)
    (hu : (e.pages.sess i).user ≠ none)
    (hrow : ∃ b, pages.db.asset x = some b ∧
      RowAfter sv ch f₀ (e.next i pages d last).desk last b.fields)
    (hd : ∀ a after, d = .shown a after ∨ d = .sent a after →
      a.id = x ∧ after ≠ some i ∧ RowAfter sv ch f₀ e.desk after a.fields) :
    EditInv sv x ch f₀ (e.next i pages d last) := by
  refine ⟨?_, hrow, ?_⟩
  · intro k hk
    show (pages.sess k).user ≠ none
    rw [hpages]
    by_cases hki : k = i
    · rw [hki]
      exact hu
    · exact h.user k fun hn => hk <| by
        show Function.update e.desk i d k = _
        rw [Function.update_of_ne hki, hn]
  · intro k a after hk
    have hold : a.id = x ∧ after ≠ some k ∧ RowAfter sv ch f₀ e.desk after a.fields := by
      change Function.update e.desk i d k = _ ∨ Function.update e.desk i d k = _ at hk
      by_cases hki : k = i
      · rw [hki, Function.update_self] at hk
        rw [hki]
        exact hd a after hk
      · rw [Function.update_of_ne hki] at hk
        exact h.form k a after hk
    exact ⟨hold.1, hold.2.1, hold.2.2.mono (sent_next hsent pages d last)⟩

theorem EditInv.load {f₀ : Fields} {i : I} {a : Asset} {body : Body} {env : Nat → Env}
    (h : EditInv sv x ch f₀ e) (hi : e.desk i = .away)
    (hb : (body.fields (str "update")).isSet = false)
    (ha : (e.pages.answer (inventory sha256 sv) i ⟨.edit_asset, body⟩ env).form = some a)
    (hx : a.id = x) :
    EditInv sv x ch f₀ (e.next i (e.pages.served (inventory sha256 sv) i ⟨.edit_asset, body⟩ env)
      (.shown a e.last) e.last) := by
  have hsent : ∀ a after, e.desk i ≠ .sent a after := by
    intro a after hs
    rw [hi] at hs
    cases hs
  obtain ⟨hu, hrow⟩ := form_shown ha
  rw [edit_keeps_user] at hu
  obtain ⟨u, hu'⟩ := Option.ne_none_iff_exists'.mp hu
  have hassets : (e.pages.served (inventory sha256 sv) i ⟨.edit_asset, body⟩ env).db.assets =
      e.pages.db.assets := by
    show ((edit_asset (e.pages.sess i) body).run (exec sv) env e.pages.db).2.assets = _
    rw [edit_asset_assets hu', editAssets, if_neg (by rw [hb]; exact Bool.false_ne_true)]
  obtain ⟨b, hb', hafter⟩ := h.row
  -- the form shows the row as it is
  rw [hx] at hrow
  have hget : e.pages.db.assets.get? x = some a := by
    rw [← hassets]
    exact hrow
  obtain rfl : b = a := Option.some.inj ((show e.pages.db.assets.get? x = some b from hb').symm.trans hget)
  refine h.next hsent (fun k => edit_keeps_user body k) hu
    ⟨b, hrow, hafter.mono (sent_next hsent _ _ _)⟩ ?_
  have hlast : e.last ≠ some i := by
    intro hl
    rw [hl] at hafter
    obtain ⟨d, k, hd, -⟩ := hafter
    exact hsent d k hd
  rintro d after (hd | hd)
  · cases hd
    exact ⟨hx, hlast, hafter⟩
  · cases hd

theorem EditInv.submit {f₀ : Fields} {i : I} {a : Asset} {after : Option I}
    {es : List (Bytes × Bytes)} {env : Nat → Env} (h : EditInv sv x ch f₀ e)
    (hi : e.desk i = .shown a after) (hch : ∀ c, ch i c ≠ none → a.control c ≠ none)
    (he : submission checks (retype (ch i) (controls (editForm a))) = some es)
    (hok : sv.castAll (a.resent (ch i)) ≠ none) :
    EditInv sv x ch f₀ (e.next i
      (e.pages.served (inventory sha256 sv) i ⟨.edit_asset, .post (formPost es)⟩ env)
      (.sent a after) (some i)) := by
  have hsent : ∀ d k, e.desk i ≠ .sent d k := by
    intro d k hs
    rw [hi] at hs
    cases hs
  have hu : (e.pages.sess i).user ≠ none := h.user i (by rw [hi]; exact fun hn => by cases hn)
  obtain ⟨hid, hown, hform⟩ := h.form i a after (.inl hi)
  obtain ⟨b, hb, -⟩ := h.row
  obtain ⟨f, hf⟩ := Option.ne_none_iff_exists'.mp hok
  have hrow := @submit_row I _ sha256 sv e.pages i env a b checks (ch i) es hu
    (by rw [hid]; exact hb) he
  rw [hf, hid] at hrow
  refine h.next hsent (fun k => edit_keeps_user _ k) hu
    ⟨_, hrow, a, after, Function.update_self .., hf, hch⟩ ?_
  rintro d k (hd | hd)
  · cases hd
  · cases hd
    exact ⟨hid, hown, hform⟩

theorem EditRun.inv {r₀ : Asset} (h0 : c₀.db.asset x = some r₀)
    (h : EditRun sha256 sv checks x ch c₀ e) : EditInv sv x ch r₀.fields e := by
  induction h with
  | start =>
    refine ⟨fun k hk => absurd rfl hk, ⟨r₀, h0, rfl⟩, fun k a after hk => ?_⟩
    rcases hk with hk | hk <;> cases hk
  | step _ hs ih =>
    cases hs with
    | load hi hb ha hx => exact ih.load hi hb ha hx
    | submit hi hch he hok => exact ih.submit hi hch he hok

/-- **The later submit decides.** After any order of the steps in which two sessions have submitted,
`j` last, the row holds the changes of `j`; a field that `j` left alone holds what `j` loaded, if
the form shows it faithfully; and what `j` loaded holds the changes of `i` if `i` had submitted by
then, and is the original row otherwise. -/
theorem later_submit_decides {i j : I} {r₀ a b : Asset} {after after' : Option I}
    (h0 : c₀.db.asset x = some r₀) (h : EditRun sha256 sv checks x ch c₀ e)
    (hi : e.desk i = .sent a after) (hj : e.desk j = .sent b after')
    (honly : ∀ k, e.desk k ≠ .away → k = i ∨ k = j) (hlast : e.last = some j) :
    ∃ r, e.pages.db.asset x = some r ∧
      (∀ c v, ch j c = some v → Stores sv c v (r.fields c)) ∧
      (∀ c, ch j c = none → Faithful c (b.fields c) → ValueKept c (b.fields c) (r.fields c)) ∧
      ((after' = some i ∧ ∀ c v, ch i c = some v → Stores sv c v (b.fields c)) ∨
        (after' = none ∧ b.fields = r₀.fields)) := by
  have hinv := h.inv h0
  obtain ⟨r, hr, hrow⟩ := hinv.row
  obtain ⟨-, hown, hform⟩ := hinv.form j b after' (.inr hj)
  rw [hlast] at hrow
  obtain ⟨b', k, hb', hf, hch⟩ := hrow
  rw [hj] at hb'
  cases hb'
  refine ⟨r, hr, ?_, ?_, ?_⟩
  · intro c v hc
    exact stores_changed hf hc (hch c (by rw [hc]; exact Option.some_ne_none v))
  · exact fun c hc hfaith => kept_unchanged hf hc hfaith
  · cases after' with
    | none => exact .inr ⟨rfl, hform⟩
    | some k =>
      obtain ⟨d, after'', hk, hd, hdch⟩ := hform
      have hki : k = i := by
        rcases honly k (by rw [hk]; exact fun hn => by cases hn) with hki | hkj
        · exact hki
        · exact absurd (congrArg some hkj) hown
      subst hki
      exact .inl ⟨rfl, fun c v hc =>
        stores_changed hd hc (hdch c (by rw [hc]; exact Option.some_ne_none v))⟩

end

/-! ## Two edits of the asset 33 -/

/-- Session 0 changes the asset tag, session 1 the user. -/
def sampleChanges : Nat → Col → Option Bytes
  | 0, .asset_tag => some (str "TAG-A")
  | 1, .user => some (str "Reyes")
  | _, _ => none

/-- What a session submits of the form of asset 33. -/
theorem submission_asset33 (k : Nat) (hk : k < 2) :
    ∃ es, submission true (retype (sampleChanges k) (controls (editForm asset33))) = some es := by
  rw [← Option.isSome_iff_exists, controls_editForm]
  have h : ∀ k < 2, (submission true (retype (sampleChanges k)
      (⟨str "id", Bytes.intText asset33.id, false⟩ :: (Col.all.filterMap asset33.control ++
        [⟨str "update", [], false⟩])))).isSome = true := by decide
  exact h k hk

/-- Session `i` has loaded the form of asset 33. -/
def loadedBy (i : Nat) (e : Editing Nat) : Editing Nat :=
  e.next i (e.pages.served (inventory zeroHash .canonical) i ⟨.edit_asset, load33⟩ fun _ => .at 100)
    (.shown asset33 e.last) e.last

/-- Session `i` has submitted the form as it was at first, with its changes. -/
def submittedBy (i : Nat) (es : List (Bytes × Bytes)) (e : Editing Nat) : Editing Nat :=
  e.next i (e.pages.served (inventory zeroHash .canonical) i ⟨.edit_asset, .post (formPost es)⟩
    fun _ => .at 101) (.sent asset33 none) (some i)

/-- Both sessions have loaded the form. -/
def bothLoaded : Editing Nat := loadedBy 1 (loadedBy 0 { pages := loggedIn sample })

theorem run_bothLoaded :
    EditRun zeroHash .canonical true 33 sampleChanges (loggedIn sample) bothLoaded := by
  have h1 : EditRun zeroHash .canonical true 33 sampleChanges (loggedIn sample)
      (loadedBy 0 { pages := loggedIn sample }) :=
    .step .start (.load rfl (by decide) (by decide) rfl)
  exact .step h1 (.load rfl (by decide) (by decide) rfl)

/-- Session 0 submits its changes, and then session 1. -/
theorem overlapping_edits : ∃ e,
    EditRun zeroHash .canonical true 33 sampleChanges (loggedIn sample) e ∧
      e.desk 0 = .sent asset33 none ∧ e.desk 1 = .sent asset33 none ∧
      (∀ k, e.desk k ≠ .away → k = 0 ∨ k = 1) ∧ e.last = some 1 := by
  obtain ⟨es, hes⟩ := submission_asset33 0 (by decide)
  obtain ⟨es', hes'⟩ := submission_asset33 1 (by decide)
  have hcontrol : ∀ k < 2, ∀ c, sampleChanges k c ≠ none → asset33.control c ≠ none := by
    decide
  have hstored : ∀ k < 2, Server.canonical.castAll (asset33.resent (sampleChanges k)) ≠ none := by
    decide
  have h3 : EditRun zeroHash .canonical true 33 sampleChanges (loggedIn sample)
      (submittedBy 0 es bothLoaded) :=
    .step run_bothLoaded (.submit rfl (hcontrol 0 (by decide)) hes (hstored 0 (by decide)))
  have h4 : EditRun zeroHash .canonical true 33 sampleChanges (loggedIn sample)
      (submittedBy 1 es' (submittedBy 0 es bothLoaded)) :=
    .step h3 (.submit rfl (hcontrol 1 (by decide)) hes' (hstored 1 (by decide)))
  refine ⟨_, h4, rfl, rfl, fun k hk => ?_, rfl⟩
  by_cases h0 : k = 0
  · exact .inl h0
  · by_cases h1 : k = 1
    · exact .inr h1
    · refine absurd ?_ hk
      show Function.update (Function.update (Function.update (Function.update _ 0 _) 1 _) 0 _) 1 _ k = _
      rw [Function.update_of_ne h1, Function.update_of_ne h0, Function.update_of_ne h1,
        Function.update_of_ne h0]

theorem later_submit_decides_sample : ∃ e,
    EditRun zeroHash .canonical true 33 sampleChanges (loggedIn sample) e ∧
      ∃ r, e.pages.db.asset 33 = some r ∧
        (∀ c v, sampleChanges 1 c = some v → Stores .canonical c v (r.fields c)) ∧
        (∀ c, sampleChanges 1 c = none → Faithful c (asset33.fields c) →
          ValueKept c (asset33.fields c) (r.fields c)) ∧
        (((none : Option Nat) = some 0 ∧ ∀ c v, sampleChanges 0 c = some v →
          Stores .canonical c v (asset33.fields c)) ∨
          ((none : Option Nat) = none ∧ asset33.fields = asset33.fields)) := by
  obtain ⟨e, hrun, h0, h1, honly, hlast⟩ := overlapping_edits
  have hrow : (loggedIn sample).db.asset 33 = some asset33 := by decide
  exact ⟨e, hrun, later_submit_decides hrow hrun h0 h1 honly hlast⟩

/-- Two overlapping edits lose the change of the first. -/
theorem first_change_lost : ¬ ∀ e,
    EditRun zeroHash .canonical true 33 sampleChanges (loggedIn sample) e →
    (∃ a after, e.desk 0 = .sent a after) → (∃ a after, e.desk 1 = .sent a after) →
    ∃ r, e.pages.db.asset 33 = some r ∧
      ∀ k c v, sampleChanges k c = some v → Stores .canonical c v (r.fields c) := by
  intro h
  obtain ⟨e, hrun, h0, h1, -, hlast⟩ := overlapping_edits
  obtain ⟨r, hr, hall⟩ := h e hrun ⟨_, _, h0⟩ ⟨_, _, h1⟩
  have hrow₀ : (loggedIn sample).db.asset 33 = some asset33 := by decide
  obtain ⟨r', hr', hrow⟩ := (hrun.inv hrow₀).row
  obtain rfl : r = r' := Option.some.inj (hr.symm.trans hr')
  rw [hlast] at hrow
  obtain ⟨a, _, ha, hf, -⟩ := hrow
  rw [h1] at ha
  cases ha
  have hkept := Server.canonical.castAll_eq_some.mp hf .asset_tag
  have hnew := hall 0 .asset_tag (str "TAG-A") rfl
  have hsent : Server.canonical.castCol .asset_tag (asset33.resent (sampleChanges 1) .asset_tag) =
      some (some (str "ASSET-33")) := by decide
  have htag : Server.canonical.castCol .asset_tag (some (str "TAG-A")) = some (some (str "TAG-A")) := by
    decide
  rw [hsent] at hkept
  have hnew' : some (some (str "TAG-A")) = some (r.fields .asset_tag) := htag.symm.trans hnew
  rw [← hkept] at hnew'
  revert hnew'
  decide

end Inventory
