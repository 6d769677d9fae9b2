import Inventory.Lib.Process

/-!
# Requests that rely on an invariant

A request relies on an invariant of the database (`Proc.Relies`) when each of its
statements, met where the invariant holds, keeps it, and the request then ends
as it promises. In a run of such requests the invariant holds throughout and
every answer is as promised (`Run.relies`); whether a request is one of them may
depend on the answers before it.
-/

namespace Inventory.Lib

namespace Proc

variable {S : Type} {R : S → Type} {α β D E : Type}

section
variable (exec : E → (s : S) → D → R s × D) (inv : D → Prop)

/-- The statement keeps the invariant. -/
def Keeps (s : S) : Prop := ∀ e d, inv d → inv (exec e s d).2

/-- As long as the others keep the invariant the request does, and it ends with `post`. -/
def Relies (post : α → Prop) : Proc R α → Prop
  | .done a => post a
  | .call s k => ∀ e d, inv d → inv (exec e s d).2 ∧ Relies post (k (exec e s d).1)

end

variable {exec : E → (s : S) → D → R s × D} {inv : D → Prop} {post post' : α → Prop}
  {p : Proc R α}

/-- A request of statements that keep the invariant, whatever the replies are. -/
theorem Emits.relies (h : p.Emits (Keeps exec inv)) (ha : p.Ends post) :
    p.Relies exec inv post := by
  induction p with
  | done a => exact ha
  | call s k ih => exact fun e d hd => ⟨h.1 e d hd, ih _ (h.2 _) (ha _)⟩

theorem Relies.bind {Q : β → Prop} {f : α → Proc R β} (h : p.Relies exec inv post)
    (hf : ∀ a, post a → (f a).Relies exec inv Q) : (p >>= f).Relies exec inv Q := by
  induction p with
  | done a => exact hf a h
  | call s k ih => exact fun e d hd => ⟨(h e d hd).1, ih _ (h e d hd).2⟩

theorem Relies.mono (ha : ∀ a, post a → post' a) (h : p.Relies exec inv post) :
    p.Relies exec inv post' := by
  induction p with
  | done a => exact ha a h
  | call s k ih => exact fun e d hd => ⟨(h e d hd).1, ih _ (h e d hd).2⟩

/-- What the request ends with whatever the replies are comes on top. -/
theorem Relies.and_ends (h : p.Relies exec inv post) (ha : p.Ends post') :
    p.Relies exec inv fun a => post a ∧ post' a := by
  induction p with
  | done a => exact ⟨h, ha⟩
  | call s k ih => exact fun e d hd => ⟨(h e d hd).1, ih _ (h e d hd).2 (ha _)⟩

end Proc

section
variable {S : Type} {R : S → Type} {E D Q σ ρ I : Type} [DecidableEq I]
  {sys : System R E D Q σ ρ} {ok : Config R E D Q σ ρ I → Event S E D Q σ ρ I → Prop}
  {c₀ c : Config R E D Q σ ρ I} {evs : List (Event S E D Q σ ρ I)} {inv : D → Prop}
  {J : σ → Prop} {good : Q → Prop} {post : Q → ρ → Prop}

/-- The invariant, good sessions, and requests in flight that still rely on it. -/
structure Relying (sys : System R E D Q σ ρ) (inv : D → Prop) (J : σ → Prop) (post : Q → ρ → Prop)
    (c : Config R E D Q σ ρ I) : Prop where
  db : inv c.db
  each : Each J (fun f => f.rest.Relies sys.exec inv fun a => post f.req a.2 ∧ J a.1) c

/-- Every answer of a history is as promised. -/
def AllAnswered (post : Q → ρ → Prop) (evs : List (Event S E D Q σ ρ I)) : Prop :=
  AllFinished (fun q _ _ a => post q a.2) evs

/-- A request that starts is good, if the answers before it were as promised. -/
def StartsGood (good : Q → Prop) (post : Q → ρ → Prop) (before : List (Event S E D Q σ ρ I))
    (ev : Event S E D Q σ ρ I) : Prop :=
  ∀ i q, ev = .start i q → AllAnswered post before → good q

omit [DecidableEq I] in
/-- A history that goes on with one request served alone. -/
theorem Always.serving {P : List (Event S E D Q σ ρ I) → Event S E D Q σ ρ I → Prop} {i : I} {q : Q}
    {env : Nat → E} (h : Always P evs) (hstart : P evs (.start i q))
    (hother : ∀ before ev, (∀ j r, ev ≠ .start j r) → P before ev) :
    Always P (evs ++ c.serving sys i q env) := by
  have hall : ∀ l hist : List (Event S E D Q σ ρ I), (∀ ev ∈ l, ∀ j r, ev ≠ .start j r) →
      Always P hist → Always P (hist ++ l) := by
    intro l
    induction l with
    | nil => exact fun hist _ hh => by rwa [List.append_nil]
    | cons ev l ih =>
      intro hist hl hh
      rw [List.append_cons]
      exact ih _ (fun x hx => hl x (List.mem_cons_of_mem _ hx))
        (hh.snoc (hother _ _ (hl ev List.mem_cons_self)))
  have he : evs ++ c.serving sys i q env = evs ++ [.start i q] ++ (c.serving sys i q env).tail := by
    simp [Config.serving]
  rw [he]
  refine hall _ _ (fun ev hev j r hs => ?_) (h.snoc hstart)
  rw [hs, Config.serving, List.tail_cons] at hev
  rcases List.mem_append.mp hev with hev | hev
  · obtain ⟨x, -, hx⟩ := List.mem_map.mp hev
    cases hx
  · cases List.mem_singleton.mp hev

theorem Relying.step {c' : Config R E D Q σ ρ I} {ev : Event S E D Q σ ρ I}
    (hq : ∀ q s, J s → good q → (sys.handle q s).Relies sys.exec inv fun a => post q a.2 ∧ J a.1)
    (h : Relying sys inv J post c) (ha : AllAnswered post evs) (hev : StartsGood good post evs ev)
    (hst : Step sys c ev c') : Relying sys inv J post c' ∧ AllAnswered post (evs ++ [ev]) := by
  cases hst with
  | @start i q hi =>
    refine ⟨⟨h.db, h.each.fly h.each.sess rfl fun f hf => ?_⟩,
      AllFinished.snoc_other ha fun _ _ he => by cases he⟩
    cases hf
    exact hq q _ (h.each.sess i) (hev i q rfl ha)
  | @send i f s k e hi hk =>
    have hr := h.each.flight i f hi
    rw [hk] at hr
    obtain ⟨hdb, hrest⟩ := hr e c.db h.db
    refine ⟨⟨hdb, h.each.fly h.each.sess rfl fun g hg => ?_⟩,
      AllFinished.snoc_other ha fun _ _ he => by cases he⟩
    cases hg
    exact hrest
  | @finish i f a hi hf =>
    have hr := h.each.flight i f hi
    rw [hf] at hr
    obtain ⟨hpost, hJ⟩ := hr
    refine ⟨⟨h.db, h.each.fly (fun j => ?_) rfl fun g hg => (by cases hg)⟩,
      AllFinished.snoc_finish ha hpost⟩
    show J (Function.update c.sess i a.1 j)
    by_cases hj : j = i
    · rw [hj, Function.update_self]
      exact hJ
    · rw [Function.update_of_ne hj]
      exact h.each.sess j

/-- **A run of requests that rely on an invariant keeps it**, and answers as promised. -/
theorem Run.relies
    (hq : ∀ q s, J s → good q → (sys.handle q s).Relies sys.exec inv fun a => post q a.2 ∧ J a.1)
    (h0 : inv c₀.db) (hJ : ∀ i, J (c₀.sess i)) (hidle : ∀ i, c₀.flight i = none)
    (h : Run sys ok c₀ evs c) (hgood : Always (StartsGood good post) evs) :
    Relying sys inv J post c ∧ AllAnswered post evs := by
  induction h with
  | nil =>
    refine ⟨⟨h0, hJ, fun i f hf => ?_⟩, fun i f hf => absurd hf List.not_mem_nil⟩
    rw [hidle i] at hf
    cases hf
  | snoc _ _ hst ih =>
    obtain ⟨hbefore, hev⟩ := always_snoc_iff.mp hgood
    obtain ⟨hr, ha⟩ := ih hbefore
    exact hr.step hq ha hev hst

end

end Inventory.Lib
