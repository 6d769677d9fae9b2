import Inventory.Lib.Rely
import Inventory.Model.Register

/-!
# What the assets hold

When the statements that write to `assets` bring only rows in `G`, then every
row is in `G`, and so is every row whose form is shown, in whatever order the
statements of the requests come (`handle_relies`).
-/

namespace Inventory

open Lib Php

/-- Every asset is in `G`. -/
def Db.Holds (G : Fields → Prop) (d : Db) : Prop := d.register.All G

theorem holds_iff {G : Fields → Prop} {d : Db} :
    d.Holds G ↔ ∀ a ∈ d.assets.rows, G a.fields := by
  constructor
  · intro h a ha
    refine h a.id _ ?_
    show (d.assets.get? a.id).map Asset.fields = _
    rw [Table.get?_eq_some.mpr ⟨ha, rfl⟩]
    rfl
  · intro h i f hf
    obtain ⟨a, ha, rfl⟩ := Option.map_eq_some_iff.mp hf
    exact h a (Table.get?_eq_some.mp ha).1

section
variable (sv : Server) (G : Fields → Prop)

/-- The values that a statement brings are in `G`. -/
def Stmt.Brings : Stmt → Prop
  | .insertAsset vals | .updateAsset vals _ => ∀ f, sv.castAll vals = some f → G f
  | .insertRow _ _ => False
  | _ => True

/-- The values that a request brings are in `G`, as far as its page stores them. -/
def Request.Brings (q : Request) : Prop :=
  match q.page with
  | .new_entry => ∀ p, q.body = .post p → missingFields p = [] →
      ∀ f, sv.castAll (newValues p) = some f → G f
  | .edit_asset => (q.body.fields (str "update")).isSet = true →
      ∀ f, sv.castAll (editValues q.body.fields) = some f → G f
  | _ => True

/-- A form that edit_asset.php shows is that of an asset in `G`. -/
def ShowsOnly (q : Request) (r : Response) : Prop :=
  q.page = .edit_asset → ∀ a, r.form = some a → G a.fields

end

section
variable {sv : Server} {G : Fields → Prop} {s : Session}

theorem keeps_of_brings {st : Stmt} (h : st.Brings sv G) :
    Proc.Keeps (exec sv) (Db.Holds G) st := by
  intro e d hd
  show (register (exec sv e st d).2.assets).All G
  have other : KeepsAssets st → (register (exec sv e st d).2.assets).All G := fun hk => by
    rw [exec_keeps_assets hk]
    exact hd
  cases st with
  | insertAsset vals =>
    rw [exec_assets, register_insertAsset]
    refine Registry.All.apply hd ?_
    unfold addChange
    split
    · next f hf =>
      split
      · exact h f hf
      · trivial
    · trivial
  | updateAsset vals id =>
    rw [exec_assets, register_updateAsset]
    refine Registry.All.apply hd ?_
    unfold setChange
    split
    · next f hf => exact h f hf
    · trivial
  | deleteAssets ids =>
    rw [exec_assets, register_deleteAssets]
    exact Registry.All.apply hd trivial
  | insertRow cols vals => exact h.elim
  | _ => exact other trivial

theorem relies_showNext (p : Post) (success : Bytes) :
    (showNext s p success).Relies (exec sv) (Db.Holds G)
      fun a => ∀ b, a.2.form = some b → G b.fields := by
  unfold showNext
  dsimp only
  split
  · intro e d hd
    refine ⟨hd, ?_⟩
    show (showAsset _ _ _ (exec sv e (.selectAsset _) d).1).Relies _ _ _
    have hrow : ∀ b, (exec sv e (.selectAsset (nextId s.edit_queue p).bindInt) d).1 = some b →
        G b.fields := fun b hb => by
      obtain ⟨i, -, hi⟩ := Option.bind_eq_some_iff.mp hb
      exact holds_iff.mp hd b (Table.get?_eq_some.mp hi).1
    generalize (exec sv e (.selectAsset (nextId s.edit_queue p).bindInt) d).1 = r at hrow ⊢
    change Option Asset at r
    cases r with
    | none => exact fun b hb => by cases hb
    | some a =>
      intro b hb
      cases hb
      exact hrow a rfl
  · split <;> exact fun b hb => by cases hb

theorem relies_edit_asset {b : Body} (h : Request.Brings sv G ⟨.edit_asset, b⟩) :
    (edit_asset s b).Relies (exec sv) (Db.Holds G)
      fun a => ∀ b, a.2.form = some b → G b.fields := by
  unfold edit_asset
  split
  · exact fun b hb => by cases hb
  · next u hu =>
    dsimp only
    split
    · next hset =>
      have hupdate : (update u b.fields).Emits (Proc.Keeps (exec sv) (Db.Holds G)) := by
        refine emits_send (keeps_of_brings (h hset)) fun _ => ?_
        exact emits_writeLog (keeps_of_brings trivial) (keeps_of_brings trivial)
      refine (hupdate.relies (ends_true _)).bind fun _ _ => ?_
      split
      · exact fun b hb => by cases hb
      · exact relies_showNext _ _
    · exact relies_showNext _ _

/-- A request but one for the edit page sends only statements that bring what it brings. -/
theorem emits_brings (sha256 : Bytes → Bytes) {q : Request} (hs : NothingDeleted s)
    (hq : q.Brings sv G) (h : q.page ≠ .edit_asset) :
    (handle sha256 q s).Emits (Stmt.Brings sv G) := by
  by_cases h1 : q.page = .new_entry
  · obtain ⟨page, b⟩ := q
    obtain rfl : page = .new_entry := h1
    show (new_entry s b).Emits _
    by_cases hm : ∃ p, b = .post p ∧ missingFields p ≠ []
    · obtain ⟨p, rfl, hm⟩ := hm
      unfold new_entry
      split
      · trivial
      · dsimp only
        rw [if_pos hm]
        trivial
    · refine emits_new_entry s b fun u p _ hb => ⟨hq p hb ?_, fun _ => trivial, trivial⟩
      by_contra hne
      exact hm ⟨p, hb, hne⟩
  · refine (handle_emits sha256 q s).mono fun st hst => ?_
    unfold Sends at hst
    split at hst
    · obtain ⟨_, rfl⟩ := hst
      trivial
    · obtain ⟨_, rfl⟩ := hst
      trivial
    · cases hst
    · obtain ⟨-, rfl⟩ := hst
      trivial
    · obtain ⟨-, rfl | ⟨_, rfl⟩⟩ := hst <;> trivial
    · next hp => exact absurd hp h1
    · next hp => exact absurd hp h
    · obtain ⟨_, -, rfl⟩ := hst
      trivial
    · obtain ⟨_, _, -, -, rfl | rfl | rfl⟩ := hst <;> trivial
    · rw [hs] at hst
      cases hst.1
    · obtain ⟨-, rfl⟩ := hst
      trivial

/-- **A request keeps every asset in `G`**, and shows only forms of such, when what it brings is. -/
theorem handle_relies (sha256 : Bytes → Bytes) {q : Request} (hs : NothingDeleted s)
    (hq : q.Brings sv G) : (handle sha256 q s).Relies (exec sv) (Db.Holds G)
      fun a => ShowsOnly G q a.2 ∧ NothingDeleted a.1 := by
  have hJ := handle_nothingDeleted s sha256 q hs
  by_cases h : q.page = .edit_asset
  · obtain ⟨page, b⟩ := q
    obtain rfl : page = .edit_asset := h
    exact ((relies_edit_asset hq).and_ends hJ).mono fun _ ha => ⟨fun _ => ha.1, ha.2⟩
  · refine ((emits_brings sha256 hs hq h).mono fun st => keeps_of_brings).relies ?_
    exact hJ.mono fun _ h' => ⟨fun hp => absurd hp h, h'⟩

end

section
variable {I : Type} [DecidableEq I] {sha256 : Bytes → Bytes} {sv : Server} {G : Fields → Prop}
  {c₀ c : PageState I} {evs : List (PageEvent I)} {ok : PageState I → PageEvent I → Prop}

/-- **What the requests bring, the assets hold**, in every state of every run. -/
theorem run_holds (h0 : c₀.db.Holds G) (hs : ∀ i, NothingDeleted (c₀.sess i))
    (hidle : ∀ i, c₀.flight i = none) (h : Run (inventory sha256 sv) ok c₀ evs c)
    (hq : Always (StartsGood (Request.Brings sv G) (ShowsOnly G)) evs) : c.db.Holds G :=
  have hr : ∀ (q : Request) (s : Session), NothingDeleted s → q.Brings sv G → _ :=
    fun _ _ hs hq => handle_relies sha256 hs hq
  (h.relies hr h0 hs hidle hq).1.db

end

end Inventory
