import Mathlib.Data.Set.Basic
import Inventory.Lib.Process

/-!
# Requests that take effect at once

A request settles at its first statement (`Proc.Settles`) when that statement
decides, from a view of the database, how the request ends: what is sent after
it is quiet, which means it leaves the view as it is, and the session and the
known part of the answer are fixed. A run of such requests is linearizable
(`Run.linearizes`): for the view, the sessions and the known answers the
requests are served one after another, each at a moment between its start and
its end. The order is found for the sessions in a set (`Linearized`), as long as
the statements of the others are quiet.
-/

namespace Inventory.Lib

namespace Proc

variable {S : Type} {R : S → Type} {α β D E V : Type}

/-- The request sends only quiet statements and ends with `o`, as far as `f` goes. -/
structure Settled (quiet : S → Prop) (f : α → β) (o : β) (p : Proc R α) : Prop where
  emits : p.Emits quiet
  ends : p.Ends fun a => f a = o

/-- The first statement decides how the request ends, from the view it meets. -/
def Settles (exec : E → (s : S) → D → R s × D) (view : D → V) (quiet : S → Prop) (f : α → β) :
    Proc R α → Prop
  | .done _ => True
  | .call s k => ∀ e d d', view d = view d' →
      ∃ o, (k (exec e s d).1).Settled quiet f o ∧ (k (exec e s d').1).Settled quiet f o

theorem Settled.mono {quiet quiet' : S → Prop} (hq : ∀ s, quiet s → quiet' s) {f : α → β} {o : β}
    {p : Proc R α} (h : p.Settled quiet f o) : p.Settled quiet' f o :=
  ⟨h.emits.mono hq, h.ends⟩

end Proc

/-- What the statements make of a view depends on the view, and a quiet one leaves it as it is. -/
structure Viewed {S : Type} {R : S → Type} {D E V : Type} (exec : E → (s : S) → D → R s × D)
    (view : D → V) (quiet : S → Prop) : Prop where
  congr : ∀ e s d d', view d = view d' → view (exec e s d).2 = view (exec e s d').2
  quiet : ∀ e s d, quiet s → view (exec e s d).2 = view d

section
variable {S : Type} {R : S → Type} {α β D E V : Type} {exec : E → (s : S) → D → R s × D}
  {view : D → V} {quiet : S → Prop} {f : α → β} {o : β} {p : Proc R α}

theorem Proc.Settled.run_view (h : p.Settled quiet f o) (hv : Viewed exec view quiet)
    (env : Nat → E) (d : D) : view (p.run exec env d).2 = view d :=
  h.emits.run_keeps exec (fun e s d hs => hv.quiet e s d hs) env d

end

/-! ## Served one after another -/

/-- A request of a session, and what the server chooses while it is served. -/
structure Call (E Q I : Type) where
  who : I
  req : Q
  env : Nat → E

section
variable {S : Type} {R : S → Type} {E D Q σ ρ I β V : Type} [DecidableEq I]

/-- The database and the sessions after the calls are served one after another. -/
def Config.servedAll (sys : System R E D Q σ ρ) (c : Config R E D Q σ ρ I)
    (l : List (Call E Q I)) : Config R E D Q σ ρ I :=
  l.foldl (fun c x => c.served sys x.who x.req x.env) c

/-- The requests of session `i` among the calls, each with what is known of its answer. -/
def Config.answers (sys : System R E D Q σ ρ) (known : Q → ρ → β) (i : I) :
    Config R E D Q σ ρ I → List (Call E Q I) → List (Q × β)
  | _, [] => []
  | c, x :: l =>
    let rest := (c.served sys x.who x.req x.env).answers sys known i l
    if x.who = i then (x.req, known x.req (c.answer sys x.who x.req x.env)) :: rest else rest

/-- The request that session `i` starts at an event. -/
def Event.startOf (i : I) : Event S E D Q σ ρ I → Option Q
  | .start j q => if j = i then some q else none
  | _ => none

/-- The request of session `i` that ends at an event, with what is known of its answer. -/
def Event.endOf (known : Q → ρ → β) (i : I) : Event S E D Q σ ρ I → Option (Q × β)
  | .finish j f => if j = i then some (f.req, known f.req f.resp) else none
  | _ => none

/-- The requests that session `i` has started. -/
def started (i : I) (evs : List (Event S E D Q σ ρ I)) : List Q :=
  evs.filterMap (Event.startOf i)

/-- The requests of session `i` that have ended, each with what is known of its answer. -/
def ended (known : Q → ρ → β) (i : I) (evs : List (Event S E D Q σ ρ I)) : List (Q × β) :=
  evs.filterMap (Event.endOf known i)

/-- The calls serve every request of the sessions in `A` between its start and its end. -/
structure RealTime (sys : System R E D Q σ ρ) (known : Q → ρ → β) (A : Set I)
    (c₀ : Config R E D Q σ ρ I) (evs : List (Event S E D Q σ ρ I)) (l : List (Call E Q I)) :
    Prop where
  /-- At each moment of the history some of the first calls are those made so far, which are
  requests that have started, and all that have ended, with the answers these got. -/
  between : ∀ before after, evs = before ++ after → ∃ l₁, l₁ <+: l ∧ ∀ i ∈ A,
    ended known i before <+: c₀.answers sys known i l₁ ∧
      (c₀.answers sys known i l₁).map Prod.fst <+: started i before
  /-- All calls are requests that have started. -/
  begun : ∀ i ∈ A, (c₀.answers sys known i l).map Prod.fst <+: started i evs

/-- The run is that of the calls served one after another, for the view, the sessions and the
known answers. -/
structure Linearizes (sys : System R E D Q σ ρ) (view : D → V) (known : Q → ρ → β)
    (c₀ : Config R E D Q σ ρ I) (evs : List (Event S E D Q σ ρ I)) (c : Config R E D Q σ ρ I)
    (l : List (Call E Q I)) : Prop where
  view : view c.db = view (c₀.servedAll sys l).db
  sess : ∀ i, c.flight i = none → c.sess i = (c₀.servedAll sys l).sess i
  realTime : RealTime sys known Set.univ c₀ evs l

section
variable {sys : System R E D Q σ ρ} {known : Q → ρ → β} {c₀ : Config R E D Q σ ρ I}
  {evs : List (Event S E D Q σ ρ I)} {l : List (Call E Q I)}

theorem servedAll_append (l₂ : List (Call E Q I)) :
    c₀.servedAll sys (l ++ l₂) = (c₀.servedAll sys l).servedAll sys l₂ :=
  List.foldl_append

theorem servedAll_concat (x : Call E Q I) : c₀.servedAll sys (l ++ [x]) =
    (c₀.servedAll sys l).served sys x.who x.req x.env :=
  servedAll_append [x]

theorem answers_append (i : I) (c : Config R E D Q σ ρ I) (l l₂ : List (Call E Q I)) :
    c.answers sys known i (l ++ l₂) =
      c.answers sys known i l ++ (c.servedAll sys l).answers sys known i l₂ := by
  induction l generalizing c with
  | nil => rfl
  | cons x l ih =>
    have hserved : c.servedAll sys (x :: l) =
        (c.served sys x.who x.req x.env).servedAll sys l := rfl
    simp only [List.cons_append, Config.answers, ih, hserved]
    split <;> rfl

theorem started_snoc (i : I) (ev : Event S E D Q σ ρ I) :
    started i (evs ++ [ev]) = started i evs ++ (ev.startOf i).toList := by
  rw [started, List.filterMap_append, ← started]
  cases h : ev.startOf i <;> simp [h]

theorem ended_snoc (i : I) (ev : Event S E D Q σ ρ I) :
    ended known i (evs ++ [ev]) = ended known i evs ++ (ev.endOf known i).toList := by
  rw [ended, List.filterMap_append, ← ended]
  cases h : ev.endOf known i <;> simp [h]

theorem RealTime.snoc {A : Set I} {ev : Event S E D Q σ ρ I} (l₂ : List (Call E Q I))
    (h : RealTime sys known A c₀ evs l)
    (hnow : ∀ i ∈ A, ended known i (evs ++ [ev]) <+: c₀.answers sys known i (l ++ l₂) ∧
      (c₀.answers sys known i (l ++ l₂)).map Prod.fst <+: started i (evs ++ [ev])) :
    RealTime sys known A c₀ (evs ++ [ev]) (l ++ l₂) := by
  refine ⟨fun before after he => ?_, fun i hi => (hnow i hi).2⟩
  rcases List.eq_nil_or_concat after with rfl | ⟨after', y, rfl⟩
  · rw [List.append_nil] at he
    subst he
    exact ⟨l ++ l₂, List.prefix_refl _, hnow⟩
  · have he' : evs ++ [ev] = (before ++ after') ++ [y] := by simpa using he
    obtain ⟨l₁, hl, hall⟩ := h.between before after' (List.append_inj' he' rfl).1
    exact ⟨l₁, hl.trans (List.prefix_append _ _), hall⟩

end

/-! ## The serial order of a run -/

/-- How a session of a run stands to the session of the served calls: it is idle; or its request
has sent nothing; or the request is served already and its end is settled. -/
def Tracks (sys : System R E D Q σ ρ) (quiet : S → Prop) (known : Q → ρ → β) (good : Q → Prop)
    (served now : σ) (flight : Option (Flight R E D Q σ ρ)) (st : List Q) (en as : List (Q × β)) :
    Prop :=
  match flight with
  | none => now = served ∧ st = as.map Prod.fst ∧ en = as
  | some f =>
    ((good f.req ∧ f.rest = sys.handle f.req served) ∧ now = served ∧
        st = as.map Prod.fst ++ [f.req] ∧ en = as) ∨
      ∃ b, f.rest.Settled quiet (fun a => (a.1, known f.req a.2)) (served, b) ∧
        st = as.map Prod.fst ∧ as = en ++ [(f.req, b)]

theorem Tracks.initial {sys : System R E D Q σ ρ} {quiet : S → Prop} {known : Q → ρ → β}
    {good : Q → Prop} {served now : σ} {flight : Option (Flight R E D Q σ ρ)} {st : List Q}
    {en as : List (Q × β)} (h : Tracks sys quiet known good served now flight st en as) :
    en <+: as ∧ as.map Prod.fst <+: st := by
  cases flight with
  | none =>
    obtain ⟨-, rfl, rfl⟩ := h
    exact ⟨List.prefix_refl _, List.prefix_refl _⟩
  | some f =>
    obtain ⟨-, -, rfl, rfl⟩ | ⟨b, -, rfl, rfl⟩ := h
    · exact ⟨List.prefix_refl _, List.prefix_append _ _⟩
    · exact ⟨List.prefix_append _ _, List.prefix_refl _⟩

/-- The invariant that finds the order: the calls are the requests of the sessions in `A` that are
settled. -/
structure Linearized (sys : System R E D Q σ ρ) (view : D → V) (quiet : S → Prop)
    (known : Q → ρ → β) (J : σ → Prop) (good : Q → Prop) (A : Set I) (c₀ : Config R E D Q σ ρ I)
    (evs : List (Event S E D Q σ ρ I)) (c : Config R E D Q σ ρ I) (l : List (Call E Q I)) :
    Prop where
  who : ∀ x ∈ l, x.who ∈ A
  view : view c.db = view (c₀.servedAll sys l).db
  sess : ∀ i ∈ A, J ((c₀.servedAll sys l).sess i)
  tracks : ∀ i ∈ A, Tracks sys quiet known good ((c₀.servedAll sys l).sess i) (c.sess i)
    (c.flight i) (started i evs) (ended known i evs) (c₀.answers sys known i l)
  realTime : RealTime sys known A c₀ evs l

section
variable {sys : System R E D Q σ ρ} {view : D → V} {quiet : S → Prop} {known : Q → ρ → β}
  {J : σ → Prop} {good : Q → Prop} {A : Set I} {c₀ d₀ c c' : Config R E D Q σ ρ I}
  {evs : List (Event S E D Q σ ρ I)} {ev : Event S E D Q σ ρ I} {l : List (Call E Q I)}
  {ok : Config R E D Q σ ρ I → Event S E D Q σ ρ I → Prop}

theorem Linearized.linearizes (h : Linearized sys view quiet known J good Set.univ c₀ evs c l) :
    Linearizes sys view known c₀ evs c l where
  view := h.view
  sess i hi := by
    have ht := h.tracks i trivial
    rw [hi] at ht
    exact ht.1
  realTime := h.realTime

/-- The run starts where the calls start, as far as the view and the sessions in `A` go. -/
theorem Linearized.start (h0 : ∀ i ∈ A, J (c₀.sess i)) (hidle : ∀ i ∈ A, d₀.flight i = none)
    (hview : view d₀.db = view c₀.db) (hsess : ∀ i ∈ A, d₀.sess i = c₀.sess i) :
    Linearized sys view quiet known J good A c₀ [] d₀ [] where
  who _ hx := absurd hx List.not_mem_nil
  view := hview
  sess := h0
  tracks i hi := by
    rw [hidle i hi]
    exact ⟨hsess i hi, rfl, rfl⟩
  realTime := by
    refine ⟨fun before after he => ?_, fun i _ => List.prefix_refl _⟩
    obtain ⟨rfl, -⟩ := List.append_eq_nil_iff.mp he.symm
    exact ⟨[], List.prefix_refl _, fun i _ => ⟨List.prefix_refl _, List.prefix_refl _⟩⟩

/-- The parts of the invariant after one more event. -/
theorem Linearized.snoc (l₂ : List (Call E Q I))
    (h : Linearized sys view quiet known J good A c₀ evs c l) (hwho : ∀ x ∈ l₂, x.who ∈ A)
    (hview : view c'.db = view (c₀.servedAll sys (l ++ l₂)).db)
    (hgood : ∀ i ∈ A, J ((c₀.servedAll sys (l ++ l₂)).sess i))
    (htracks : ∀ i ∈ A, Tracks sys quiet known good ((c₀.servedAll sys (l ++ l₂)).sess i)
      (c'.sess i) (c'.flight i) (started i (evs ++ [ev])) (ended known i (evs ++ [ev]))
      (c₀.answers sys known i (l ++ l₂))) :
    Linearized sys view quiet known J good A c₀ (evs ++ [ev]) c' (l ++ l₂) where
  who x hx := (List.mem_append.mp hx).elim (h.who x) (hwho x)
  view := hview
  sess := hgood
  tracks := htracks
  realTime := h.realTime.snoc l₂ fun i hi => (htracks i hi).initial

/-- Calls of session `i` leave another session as it is. -/
theorem sess_other {i j : I} (hij : j ≠ i) {l₂ : List (Call E Q I)} (hl : ∀ x ∈ l₂, x.who = i)
    (c : Config R E D Q σ ρ I) : (c.servedAll sys l₂).sess j = c.sess j := by
  induction l₂ generalizing c with
  | nil => rfl
  | cons x l₂ ih =>
    have hx : x.who = i := hl x List.mem_cons_self
    refine (ih (fun y hy => hl y (List.mem_cons_of_mem _ hy)) _).trans ?_
    exact Function.update_of_ne (fun e => hij (e.trans hx)) _ _

/-- Calls of session `i` answer no other session. -/
theorem answers_other {i j : I} (hij : j ≠ i) {l₂ : List (Call E Q I)} (hl : ∀ x ∈ l₂, x.who = i)
    (c : Config R E D Q σ ρ I) : c.answers sys known j l₂ = [] := by
  induction l₂ generalizing c with
  | nil => rfl
  | cons x l₂ ih =>
    have hne : ¬ x.who = j := fun e => hij (e.symm.trans (hl x List.mem_cons_self))
    rw [Config.answers, if_neg hne, ih fun y hy => hl y (List.mem_cons_of_mem _ hy)]

/-- An event of session `i` concerns that session alone. -/
theorem Linearized.next (h : Linearized sys view quiet known J good A c₀ evs c l) {i : I}
    (hA : i ∈ A) (l₂ : List (Call E Q I)) (hl : ∀ x ∈ l₂, x.who = i)
    (hother : ∀ j, j ≠ i → c'.sess j = c.sess j ∧ c'.flight j = c.flight j ∧
      ev.startOf j = none ∧ ev.endOf known j = none)
    (hview : view c'.db = view (c₀.servedAll sys (l ++ l₂)).db)
    (hgood : J ((c₀.servedAll sys (l ++ l₂)).sess i))
    (htracks : Tracks sys quiet known good ((c₀.servedAll sys (l ++ l₂)).sess i) (c'.sess i)
      (c'.flight i) (started i (evs ++ [ev])) (ended known i (evs ++ [ev]))
      (c₀.answers sys known i (l ++ l₂))) :
    Linearized sys view quiet known J good A c₀ (evs ++ [ev]) c' (l ++ l₂) := by
  have hsess : ∀ j, j ≠ i → (c₀.servedAll sys (l ++ l₂)).sess j = (c₀.servedAll sys l).sess j :=
    fun j hj => by
      rw [servedAll_append]
      exact sess_other hj hl _
  refine h.snoc l₂ (fun x hx => (hl x hx).symm ▸ hA) hview (fun j hjA => ?_) fun j hjA => ?_
  · by_cases hj : j = i
    · rw [hj]
      exact hgood
    · rw [hsess j hj]
      exact h.sess j hjA
  · by_cases hj : j = i
    · rw [hj]
      exact htracks
    · obtain ⟨h1, h2, h3, h4⟩ := hother j hj
      rw [hsess j hj, h1, h2, started_snoc, ended_snoc, answers_append, h3, h4,
        answers_other hj hl _]
      simpa using h.tracks j hjA

/-- A session outside `A` is not tracked; its events keep the view. -/
theorem Linearized.untracked (h : Linearized sys view quiet known J good A c₀ evs c l) {i : I}
    (hA : i ∉ A) (hother : ∀ j, j ≠ i → c'.sess j = c.sess j ∧ c'.flight j = c.flight j ∧
      ev.startOf j = none ∧ ev.endOf known j = none)
    (hview : view c'.db = view c.db) :
    Linearized sys view quiet known J good A c₀ (evs ++ [ev]) c' (l ++ []) := by
  refine h.snoc [] (fun x hx => absurd hx List.not_mem_nil) ?_ ?_ fun j hjA => ?_
  · rw [List.append_nil, hview]
    exact h.view
  · rw [List.append_nil]
    exact h.sess
  · obtain ⟨h1, h2, h3, h4⟩ := hother j fun e => hA (e ▸ hjA)
    rw [List.append_nil, h1, h2, started_snoc, ended_snoc, h3, h4]
    simpa using h.tracks j hjA

/-- What is served next for session `i` is its request. -/
theorem answers_concat {i : I} {q : Q} {env : Nat → E} :
    c₀.answers sys known i (l ++ [⟨i, q, env⟩]) = c₀.answers sys known i l ++
      [(q, known q ((c₀.servedAll sys l).answer sys i q env))] := by
  rw [answers_append]
  simp only [Config.answers, if_pos]

theorem sess_concat {i : I} {q : Q} {env : Nat → E} :
    (c₀.servedAll sys (l ++ [⟨i, q, env⟩])).sess i = ((sys.handle q
      ((c₀.servedAll sys l).sess i)).run sys.exec env (c₀.servedAll sys l).db).1.1 := by
  rw [servedAll_concat]
  exact Function.update_self ..

theorem db_concat {i : I} {q : Q} {env : Nat → E} :
    (c₀.servedAll sys (l ++ [⟨i, q, env⟩])).db = ((sys.handle q
      ((c₀.servedAll sys l).sess i)).run sys.exec env (c₀.servedAll sys l).db).2 := by
  rw [servedAll_concat]
  rfl

/-- A request that starts waits for its first statement. -/
theorem Linearized.starts (h : Linearized sys view quiet known J good A c₀ evs c l) {i : I} {q : Q}
    (hA : i ∈ A) (hq : good q) (hi : c.flight i = none) :
    Linearized sys view quiet known J good A c₀ (evs ++ [.start i q])
      (c.fly i (some ⟨q, c.sess i, [], sys.handle q (c.sess i)⟩)) (l ++ []) := by
  have ht := h.tracks i hA
  rw [hi] at ht
  obtain ⟨hsess, hst, hen⟩ := ht
  refine h.next hA [] (by simp) (fun j hj => ⟨rfl, ?_, ?_, rfl⟩) ?_ ?_ ?_
  · exact Function.update_of_ne hj _ _
  · exact if_neg fun e => hj e.symm
  · rw [List.append_nil]
    exact h.view
  · rw [List.append_nil]
    exact h.sess i hA
  · rw [List.append_nil, Config.fly_flight, Function.update_self, Config.fly_sess, started_snoc,
      ended_snoc]
    refine .inl ⟨⟨hq, by rw [hsess]⟩, hsess, ?_, ?_⟩
    · rw [hst]
      simp [Event.startOf]
    · rw [hen]
      simp [Event.endOf]

/-- **The first statement of a request serves it.** -/
theorem Linearized.serves (hv : Viewed sys.exec view quiet)
    (hs : ∀ q s, good q → J s →
      (sys.handle q s).Settles sys.exec view quiet fun a => (a.1, known q a.2))
    (hJ : ∀ q s, J s → (sys.handle q s).Ends fun a => J a.1)
    (h : Linearized sys view quiet known J good A c₀ evs c l) {i : I} {f : Flight R E D Q σ ρ} {s : S}
    {k : R s → Proc R (σ × ρ)} {e : E} (hA : i ∈ A) (hk : f.rest = .call s k)
    (hw : good f.req ∧ f.rest = sys.handle f.req ((c₀.servedAll sys l).sess i))
    (hst : started i evs = (c₀.answers sys known i l).map Prod.fst ++ [f.req])
    (hen : ended known i evs = c₀.answers sys known i l) :
    Linearized sys view quiet known J good A c₀ (evs ++ [.sent i f.req f.start ⟨e, s, c.db⟩])
      { c.fly i (some ⟨f.req, f.start, f.past ++ [⟨e, s, c.db⟩], k (sys.exec e s c.db).1⟩) with
        db := (sys.exec e s c.db).2 } (l ++ [⟨i, f.req, fun _ => e⟩]) := by
  have hh : sys.handle f.req ((c₀.servedAll sys l).sess i) = .call s k := hw.2.symm.trans hk
  have hset := hs f.req _ hw.1 (h.sess i hA)
  have hgood := hJ f.req _ (h.sess i hA)
  rw [hh] at hset hgood
  -- the same statement serves the request in the serial order
  obtain ⟨o, ho, ho'⟩ := hset e c.db (c₀.servedAll sys l).db h.view
  have hrun : (sys.handle f.req ((c₀.servedAll sys l).sess i)).run sys.exec (fun _ => e)
      (c₀.servedAll sys l).db = (k (sys.exec e s (c₀.servedAll sys l).db).1).run sys.exec
        (fun _ => e) (sys.exec e s (c₀.servedAll sys l).db).2 := by
    rw [hh]
    rfl
  have hend := ho'.ends.run sys.exec (fun _ => e) (sys.exec e s (c₀.servedAll sys l).db).2
  refine h.next hA _ (by simp) (fun j hj => ⟨rfl, ?_, rfl, rfl⟩) ?_ ?_ ?_
  · exact Function.update_of_ne hj _ _
  · rw [db_concat, hrun, ho'.run_view hv]
    exact hv.congr e s _ _ h.view
  · rw [sess_concat, hrun]
    exact (hgood _).run sys.exec _ _
  · have hfl : (c.fly i (some ⟨f.req, f.start, f.past ++ [⟨e, s, c.db⟩],
        k (sys.exec e s c.db).1⟩)).flight i =
        some ⟨f.req, f.start, f.past ++ [⟨e, s, c.db⟩], k (sys.exec e s c.db).1⟩ :=
      Function.update_self ..
    rw [sess_concat, answers_concat, started_snoc, ended_snoc, Config.answer, hrun, hfl, hst, hen]
    refine .inr ⟨_, hend ▸ ho, ?_, ?_⟩
    · simp [Event.startOf]
    · simp [Event.endOf]

/-- A quiet statement changes nothing of what is settled. -/
theorem Linearized.quiets (hv : Viewed sys.exec view quiet)
    (h : Linearized sys view quiet known J good A c₀ evs c l) {i : I} {f : Flight R E D Q σ ρ} {s : S}
    {k : R s → Proc R (σ × ρ)} {e : E} {b : β} (hA : i ∈ A) (hk : f.rest = .call s k)
    (hw : f.rest.Settled quiet (fun a => (a.1, known f.req a.2))
      ((c₀.servedAll sys l).sess i, b))
    (hst : started i evs = (c₀.answers sys known i l).map Prod.fst)
    (has : c₀.answers sys known i l = ended known i evs ++ [(f.req, b)]) :
    Linearized sys view quiet known J good A c₀ (evs ++ [.sent i f.req f.start ⟨e, s, c.db⟩])
      { c.fly i (some ⟨f.req, f.start, f.past ++ [⟨e, s, c.db⟩], k (sys.exec e s c.db).1⟩) with
        db := (sys.exec e s c.db).2 } (l ++ []) := by
  rw [hk] at hw
  refine h.next hA [] (by simp) (fun j hj => ⟨rfl, ?_, rfl, rfl⟩) ?_ ?_ ?_
  · exact Function.update_of_ne hj _ _
  · rw [List.append_nil, ← h.view]
    exact hv.quiet e s c.db hw.emits.1
  · rw [List.append_nil]
    exact h.sess i hA
  · have hfl : (c.fly i (some ⟨f.req, f.start, f.past ++ [⟨e, s, c.db⟩],
        k (sys.exec e s c.db).1⟩)).flight i =
        some ⟨f.req, f.start, f.past ++ [⟨e, s, c.db⟩], k (sys.exec e s c.db).1⟩ :=
      Function.update_self ..
    rw [List.append_nil, started_snoc, ended_snoc, hfl]
    refine .inr ⟨b, ⟨hw.emits.2 _, hw.ends _⟩, ?_, ?_⟩
    · rw [hst]
      simp [Event.startOf]
    · rw [has]
      simp [Event.endOf]

/-- A request that ends was served, or is served at its end as it sent nothing. -/
theorem Linearized.finishes [Inhabited E]
    (hJ : ∀ q s, J s → (sys.handle q s).Ends fun a => J a.1)
    (h : Linearized sys view quiet known J good A c₀ evs c l) {i : I} {f : Flight R E D Q σ ρ} {a : σ × ρ}
    (hA : i ∈ A) (hi : c.flight i = some f) (hf : f.rest = .done a) :
    ∃ l₂, Linearized sys view quiet known J good A c₀
      (evs ++ [.finish i ⟨f.req, f.start, f.past, a.1, a.2⟩])
      { c.fly i none with sess := Function.update c.sess i a.1 } (l ++ l₂) := by
  have ht := h.tracks i hA
  rw [hi] at ht
  have hother : ∀ j, j ≠ i →
      Function.update c.sess i a.1 j = c.sess j ∧ (c.fly i none).flight j = c.flight j ∧
        (Event.finish (E := E) (S := S) (D := D) i ⟨f.req, f.start, f.past, a.1, a.2⟩).startOf j =
          none ∧
        (Event.finish (E := E) (S := S) (D := D) i ⟨f.req, f.start, f.past, a.1, a.2⟩).endOf
          known j = none := fun j hj =>
    ⟨Function.update_of_ne hj _ _, Function.update_of_ne hj _ _, rfl, if_neg fun e => hj e.symm⟩
  obtain ⟨hw, hsess, hst, hen⟩ | ⟨b, hw, hst, has⟩ := ht
  · have hh : sys.handle f.req ((c₀.servedAll sys l).sess i) = .done a := hw.2.symm.trans hf
    have hgood := hJ f.req _ (h.sess i hA)
    rw [hh] at hgood
    refine ⟨[⟨i, f.req, fun _ => default⟩], h.next hA _ (by simp) hother ?_ ?_ ?_⟩
    · rw [db_concat, hh]
      exact h.view
    · rw [sess_concat, hh]
      exact hgood
    · have hfl : (c.fly i none).flight i = none := Function.update_self ..
      have hs : Function.update c.sess i a.1 i = a.1 := Function.update_self ..
      rw [sess_concat, answers_concat, started_snoc, ended_snoc, Config.answer, hh, hfl, hst, hen]
      refine ⟨hs, ?_, ?_⟩
      · simp [Event.startOf]
      · simp [Event.endOf]
  · rw [hf] at hw
    have he : (a.1, known f.req a.2) = ((c₀.servedAll sys l).sess i, b) := hw.ends
    obtain ⟨hsess, rfl⟩ := Prod.mk.inj he
    refine ⟨[], h.next hA _ (by simp) hother ?_ ?_ ?_⟩
    · rw [List.append_nil]
      exact h.view
    · rw [List.append_nil]
      exact h.sess i hA
    · have hfl : (c.fly i none).flight i = none := Function.update_self ..
      have hs : Function.update c.sess i a.1 i = a.1 := Function.update_self ..
      rw [List.append_nil, started_snoc, ended_snoc, hfl]
      refine ⟨hs.trans hsess, ?_, ?_⟩
      · rw [hst]
        simp [Event.startOf]
      · rw [has]
        simp [Event.endOf]

/-- The statements of the sessions outside `A` keep the view. -/
def QuietOutside (A : Set I) (exec : E → (s : S) → D → R s × D) (view : D → V) : Prop :=
  ∀ i, i ∉ A → ∀ e s d, view (exec e s d).2 = view d

/-- **One step** keeps the serial order, or adds the request to it that takes effect. -/
theorem Linearized.step [Inhabited E] (hv : Viewed sys.exec view quiet)
    (hout : QuietOutside A sys.exec view)
    (hs : ∀ q s, good q → J s →
      (sys.handle q s).Settles sys.exec view quiet fun a => (a.1, known q a.2))
    (hJ : ∀ q s, J s → (sys.handle q s).Ends fun a => J a.1)
    (h : Linearized sys view quiet known J good A c₀ evs c l)
    (hq : ∀ i ∈ A, ∀ q, ev = .start i q → good q) (hst : Step sys c ev c') :
    ∃ l₂, Linearized sys view quiet known J good A c₀ (evs ++ [ev]) c' (l ++ l₂) := by
  cases hst with
  | @start i q hi =>
    by_cases hA : i ∈ A
    · exact ⟨[], h.starts hA (hq i hA q rfl) hi⟩
    · refine ⟨[], h.untracked hA (fun j hj => ⟨rfl, ?_, if_neg fun e => hj e.symm, rfl⟩) rfl⟩
      exact Function.update_of_ne hj _ _
  | @send i f s k e hi hk =>
    by_cases hA : i ∈ A
    · have ht := h.tracks i hA
      rw [hi] at ht
      obtain ⟨hw, -, hst, hen⟩ | ⟨b, hw, hst, has⟩ := ht
      · exact ⟨_, h.serves hv hs hJ hA hk hw hst hen⟩
      · exact ⟨[], h.quiets hv hA hk hw hst has⟩
    · refine ⟨[], h.untracked hA (fun j hj => ⟨rfl, ?_, rfl, rfl⟩) (hout i hA e s c.db)⟩
      exact Function.update_of_ne hj _ _
  | @finish i f a hi hf =>
    by_cases hA : i ∈ A
    · exact h.finishes hJ hA hi hf
    · refine ⟨[], h.untracked hA (fun j hj => ⟨?_, ?_, rfl, if_neg fun e => hj e.symm⟩) rfl⟩
      · exact Function.update_of_ne hj _ _
      · exact Function.update_of_ne hj _ _

/-- **A run has a serial order**, in which the good requests of the sessions in `A` are served. -/
theorem Linearized.run [Inhabited E] (hv : Viewed sys.exec view quiet)
    (hout : QuietOutside A sys.exec view)
    (hs : ∀ q s, good q → J s →
      (sys.handle q s).Settles sys.exec view quiet fun a => (a.1, known q a.2))
    (hJ : ∀ q s, J s → (sys.handle q s).Ends fun a => J a.1)
    (h0 : Linearized sys view quiet known J good A c₀ [] d₀ []) (h : Run sys ok d₀ evs c)
    (hq : ∀ i ∈ A, StartsOnly good i evs) :
    ∃ l, Linearized sys view quiet known J good A c₀ evs c l := by
  induction h with
  | nil => exact ⟨[], h0⟩
  | snoc _ _ hst ih =>
    obtain ⟨l, hl⟩ := ih fun i hi => (hq i hi).of_snoc.1
    obtain ⟨l₂, hl₂⟩ := hl.step hv hout hs hJ (fun i hi => (hq i hi).of_snoc.2) hst
    exact ⟨l ++ l₂, hl₂⟩

/-- **A run of requests that settle at their first statement is linearizable.** -/
theorem Run.linearizes [Inhabited E] (hv : Viewed sys.exec view quiet)
    (hs : ∀ q s, good q → J s →
      (sys.handle q s).Settles sys.exec view quiet fun a => (a.1, known q a.2))
    (hJ : ∀ q s, J s → (sys.handle q s).Ends fun a => J a.1) (h0 : ∀ i, J (c₀.sess i))
    (hidle : ∀ i, c₀.flight i = none) (h : Run sys ok c₀ evs c)
    (hq : ∀ i, StartsOnly good i evs) : ∃ l, Linearizes sys view known c₀ evs c l := by
  have hstart : Linearized sys view quiet known J good Set.univ c₀ [] c₀ [] :=
    .start (fun i _ => h0 i) (fun i _ => hidle i) rfl fun _ _ => rfl
  obtain ⟨l, hl⟩ := hstart.run hv (fun i hi => absurd trivial hi) hs hJ h fun i _ => hq i
  exact ⟨l, hl.linearizes⟩

/-! ## A session on its own -/

/-- The requests of session `i` among calls that are all its own. -/
theorem answers_own {i : I} {c : Config R E D Q σ ρ I} {l : List (Call E Q I)}
    (h : ∀ x ∈ l, x.who = i) : (c.answers sys known i l).map Prod.fst = l.map Call.req := by
  induction l generalizing c with
  | nil => rfl
  | cons x l ih =>
    have hx : x.who = i := h x List.mem_cons_self
    simp [Config.answers, hx, ih fun y hy => h y (List.mem_cons_of_mem _ hy)]

/-- **A session depends on its own requests alone**, when no statement changes the view: it becomes
what they, served one after another, make of it where `c₀` starts, with the same view. -/
theorem Run.isolated [Inhabited E] (hv : Viewed sys.exec view fun _ => True)
    (hs : ∀ q s, good q → J s →
      (sys.handle q s).Settles sys.exec view (fun _ => True) fun a => (a.1, known q a.2))
    (hJ : ∀ q s, J s → (sys.handle q s).Ends fun a => J a.1) {i : I} (h0 : J (c₀.sess i))
    (hidle : d₀.flight i = none) (hview : view d₀.db = view c₀.db) (hsess : d₀.sess i = c₀.sess i)
    (h : Run sys ok d₀ evs c) (hq : StartsOnly good i evs) (hi : c.flight i = none) :
    ∃ l, (∀ x ∈ l, x.who = i) ∧ l.map Call.req = started i evs ∧
      c.sess i = (c₀.servedAll sys l).sess i := by
  have hstart : Linearized sys view (fun _ => True) known J good {i} c₀ [] d₀ [] := by
    refine .start ?_ ?_ hview ?_
    · rintro _ rfl
      exact h0
    · rintro _ rfl
      exact hidle
    · rintro _ rfl
      exact hsess
  obtain ⟨l, hl⟩ := hstart.run hv (fun _ _ e s d => hv.quiet e s d trivial) hs hJ h
    (by rintro _ rfl; exact hq)
  have ht := hl.tracks i rfl
  rw [hi] at ht
  obtain ⟨hnow, hstarted, -⟩ := ht
  exact ⟨l, hl.who, ((answers_own hl.who).symm.trans hstarted.symm), hnow⟩

end

end

end Inventory.Lib
