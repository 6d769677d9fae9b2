import Mathlib.Logic.Function.Basic

/-!
# Statement programs and their interleavings

`Proc R α` is a request in progress: finished with a value, or waiting for the
reply to a statement. `Proc.run` executes it alone. A `System` serves requests
of many sessions; `Step` starts a request, executes one statement of one
request, or finishes a request, so a run is any interleaving of the statements.
A session serves one request at a time.

`Run.invariant` is the induction over runs. `Run.finished` gives what every
request of a run guarantees from a condition on its own statements alone
(`Proc.Guarded`), whatever the other requests do in between.
-/

namespace Inventory.Lib

/-- A request in progress. -/
inductive Proc {S : Type} (R : S → Type) (α : Type) where
  | done (a : α)
  | call (s : S) (k : R s → Proc R α)

/-- A statement as it was sent: what the server chose, the text, the database it met. -/
structure Sent (E S D : Type) where
  env : E
  stmt : S
  before : D

namespace Proc

variable {S : Type} {R : S → Type} {α β D E : Type}

def bind : Proc R α → (α → Proc R β) → Proc R β
  | .done a, f => f a
  | .call s k, f => .call s fun r => (k r).bind f

/-- Send one statement and take its reply. -/
def stmt (s : S) : Proc R (R s) := .call s .done

instance : Monad (Proc R) where
  pure := .done
  bind := bind

@[simp] theorem pure_eq (a : α) : (pure a : Proc R α) = .done a := rfl

@[simp] theorem done_bind (a : α) (f : α → Proc R β) : ((.done a : Proc R α) >>= f) = f a := rfl

@[simp] theorem call_bind (s : S) (k : R s → Proc R α) (f : α → Proc R β) :
    (Proc.call s k >>= f) = .call s fun r => k r >>= f := rfl

@[simp] theorem stmt_bind (s : S) (f : R s → Proc R β) : (stmt s >>= f) = .call s f := rfl

variable (exec : E → (s : S) → D → R s × D)

/-- Execute a request alone; `env n` is what the server chooses at its `n`-th statement. -/
def run : Proc R α → (Nat → E) → D → α × D
  | .done a, _, d => (a, d)
  | .call s k, env, d =>
    (k (exec (env 0) s d).1).run (fun n => env (n + 1)) (exec (env 0) s d).2

@[simp] theorem run_done (a : α) (env : Nat → E) (d : D) :
    (Proc.done a : Proc R α).run exec env d = (a, d) := rfl

@[simp] theorem run_call (s : S) (k : R s → Proc R α) (env : Nat → E) (d : D) :
    (Proc.call s k).run exec env d =
      (k (exec (env 0) s d).1).run exec (fun n => env (n + 1)) (exec (env 0) s d).2 := rfl

/-- The statements a request sends when it is executed alone. -/
def trace : Proc R α → (Nat → E) → D → List (Sent E S D)
  | .done _, _, _ => []
  | .call s k, env, d =>
    ⟨env 0, s, d⟩ :: (k (exec (env 0) s d).1).trace (fun n => env (n + 1)) (exec (env 0) s d).2

/-- Executed alone, the request sends every statement where `ok` holds. -/
def Meets (ok : E → S → D → Prop) : Proc R α → (Nat → E) → D → Prop
  | .done _, _, _ => True
  | .call s k, env, d =>
    ok (env 0) s d ∧
      (k (exec (env 0) s d).1).Meets ok (fun n => env (n + 1)) (exec (env 0) s d).2

/-- Every statement the request can send satisfies `P`. -/
def Emits (P : S → Prop) : Proc R α → Prop
  | .done _ => True
  | .call s k => P s ∧ ∀ r, (k r).Emits P

/-- Every value the request can end with satisfies `Q`. -/
def Ends (Q : α → Prop) : Proc R α → Prop
  | .done a => Q a
  | .call _ k => ∀ r, (k r).Ends Q

/-- The request goes on with a statement that satisfies `P`. -/
def Next (P : S → Prop) : Proc R α → Prop
  | .done _ => False
  | .call s _ => P s

/-- Every statement that satisfies `P` is followed at once by one that satisfies `Q`. -/
def Followed (P Q : S → Prop) : Proc R α → Prop
  | .done _ => True
  | .call s k => (P s → ∀ r, (k r).Next Q) ∧ ∀ r, (k r).Followed P Q

/-- Under any interference between its statements, as long as each statement meets `ok` where
it is sent, the request ends with `post` of the statements it sent and of its value. -/
def Guarded (ok : E → S → D → Prop) (post : List (Sent E S D) → α → Prop) :
    List (Sent E S D) → Proc R α → Prop
  | past, .done a => post past a
  | past, .call s k =>
    ∀ e d, ok e s d → Guarded ok post (past ++ [⟨e, s, d⟩]) (k (exec e s d).1)

instance instDecidableMeets {ok : E → S → D → Prop} [∀ e s d, Decidable (ok e s d)] :
    (p : Proc R α) → (env : Nat → E) → (d : D) → Decidable (p.Meets exec ok env d)
  | .done _, _, _ => isTrue trivial
  | .call s k, env, d =>
    have : Decidable ((k (exec (env 0) s d).1).Meets exec ok (fun n => env (n + 1))
        (exec (env 0) s d).2) := instDecidableMeets _ _ _
    inferInstanceAs (Decidable (_ ∧ _))

theorem meets_of_forall {ok : E → S → D → Prop} (h : ∀ e s d, ok e s d) (p : Proc R α)
    (env : Nat → E) (d : D) : p.Meets exec ok env d := by
  induction p generalizing env d with
  | done a => trivial
  | call s k ih => exact ⟨h _ _ _, ih _ _ _⟩

theorem run_bind (p : Proc R α) (f : α → Proc R β) (env : Nat → E) (d : D) :
    ∃ env' : Nat → E, (p >>= f).run exec env d =
      (f (p.run exec env d).1).run exec env' (p.run exec env d).2 := by
  induction p generalizing env d with
  | done a => exact ⟨env, rfl⟩
  | call s k ih => exact ih _ _ _

theorem Emits.bind {P : S → Prop} {p : Proc R α} {f : α → Proc R β} (hp : p.Emits P)
    (hf : ∀ a, (f a).Emits P) : (p >>= f).Emits P := by
  induction p with
  | done a => exact hf a
  | call s k ih => exact ⟨hp.1, fun r => ih r (hp.2 r)⟩

theorem Emits.mono {P Q : S → Prop} (h : ∀ s, P s → Q s) {p : Proc R α} (hp : p.Emits P) :
    p.Emits Q := by
  induction p with
  | done a => trivial
  | call s k ih => exact ⟨h s hp.1, fun r => ih r (hp.2 r)⟩

theorem Ends.bind {P : α → Prop} {Q : β → Prop} {p : Proc R α} {f : α → Proc R β}
    (hp : p.Ends P) (hf : ∀ a, P a → (f a).Ends Q) : (p >>= f).Ends Q := by
  induction p with
  | done a => exact hf a hp
  | call s k ih => exact fun r => ih r (hp r)

theorem Ends.mono {P Q : α → Prop} (h : ∀ a, P a → Q a) {p : Proc R α} (hp : p.Ends P) :
    p.Ends Q := by
  induction p with
  | done a => exact h a hp
  | call s k ih => exact fun r => ih r (hp r)

theorem Ends.run {Q : α → Prop} {p : Proc R α} (h : p.Ends Q) (env : Nat → E) (d : D) :
    Q (p.run exec env d).1 := by
  induction p generalizing env d with
  | done a => exact h
  | call s k ih => exact ih _ (h _) _ _

/-- What every statement keeps, the request keeps. -/
theorem Emits.run_inv {P : S → Prop} (I : D → Prop) (hk : ∀ e s d, P s → I d → I (exec e s d).2)
    {p : Proc R α} (h : p.Emits P) (env : Nat → E) {d : D} (hd : I d) :
    I (p.run exec env d).2 := by
  induction p generalizing env d with
  | done a => exact hd
  | call s k ih => exact ih _ (h.2 _) _ (hk _ s d h.1 hd)

/-- What every statement leaves as it is, the request leaves as it is. -/
theorem Emits.run_keeps {P : S → Prop} {γ : Type} {part : D → γ}
    (hk : ∀ e s d, P s → part (exec e s d).2 = part d) {p : Proc R α} (h : p.Emits P)
    (env : Nat → E) (d : D) : part (p.run exec env d).2 = part d := by
  induction p generalizing env d with
  | done a => rfl
  | call s k ih => exact (ih _ (h.2 _) _ _).trans (hk _ s d h.1)

/-- What a request ends with whatever the replies are, it ends with under interference. -/
theorem Ends.guarded {ok : E → S → D → Prop} {Q : α → Prop} {past : List (Sent E S D)}
    {p : Proc R α} (h : p.Ends Q) : Guarded exec ok (fun _ a => Q a) past p := by
  induction p generalizing past with
  | done a => exact h
  | call s k ih => exact fun e d _ => ih _ (h _)

theorem Next.bind {P : S → Prop} {p : Proc R α} {f : α → Proc R β} (hp : p.Next P) :
    (p >>= f).Next P := by
  cases p with
  | done a => cases hp
  | call s k => exact hp

theorem Followed.bind {P Q : S → Prop} {p : Proc R α} {f : α → Proc R β} (hp : p.Followed P Q)
    (hf : ∀ a, (f a).Followed P Q) : (p >>= f).Followed P Q := by
  induction p with
  | done a => exact hf a
  | call s k ih => exact ⟨fun h r => (hp.1 h r).bind, fun r => ih r (hp.2 r)⟩

theorem Emits.followed {P Q : S → Prop} {p : Proc R α} (hp : p.Emits fun s => ¬ P s) :
    p.Followed P Q := by
  induction p with
  | done a => trivial
  | call s k ih => exact ⟨fun h => absurd h hp.1, fun r => ih r (hp.2 r)⟩

theorem Guarded.mono {ok ok' : E → S → D → Prop} {post post' : List (Sent E S D) → α → Prop}
    (hok : ∀ e s d, ok' e s d → ok e s d) (hpost : ∀ past a, post past a → post' past a)
    {past : List (Sent E S D)} {p : Proc R α} (h : Guarded exec ok post past p) :
    Guarded exec ok' post' past p := by
  induction p generalizing past with
  | done a => exact hpost _ _ h
  | call s k ih => exact fun e d ho => ih _ (h e d (hok e s d ho))

theorem Guarded.and {ok : E → S → D → Prop} {post post' : List (Sent E S D) → α → Prop}
    {past : List (Sent E S D)} {p : Proc R α} (h : Guarded exec ok post past p)
    (h' : Guarded exec ok post' past p) :
    Guarded exec ok (fun past a => post past a ∧ post' past a) past p := by
  induction p generalizing past with
  | done a => exact ⟨h, h'⟩
  | call s k ih => exact fun e d ho => ih _ (h e d ho) (h' e d ho)

theorem Guarded.bind {ok : E → S → D → Prop} {post : List (Sent E S D) → β → Prop}
    {past : List (Sent E S D)} {p : Proc R α} {f : α → Proc R β}
    (h : Guarded exec ok (fun past a => Guarded exec ok post past (f a)) past p) :
    Guarded exec ok post past (p >>= f) := by
  induction p generalizing past with
  | done a => exact h
  | call s k ih => exact fun e d ho => ih _ (h e d ho)

/-- A guarantee that the statements of the request cannot break. -/
theorem Emits.guarded {ok : E → S → D → Prop} {P : S → Prop} {inv : List (Sent E S D) → Prop}
    (hinv : ∀ past e s d, P s → inv past → inv (past ++ [⟨e, s, d⟩])) {past : List (Sent E S D)}
    {p : Proc R α} (hp : p.Emits P) (h : inv past) :
    Guarded exec ok (fun past _ => inv past) past p := by
  induction p generalizing past with
  | done a => exact h
  | call s k ih => exact fun e d _ => ih _ (hp.2 _) (hinv past e s d hp.1 h)

end Proc

/-! ## Systems of sessions -/

/-- What serves the requests: how a statement executes and what a request does. -/
structure System {S : Type} (R : S → Type) (E D Q σ ρ : Type) where
  exec : E → (s : S) → D → R s × D
  handle : Q → σ → Proc R (σ × ρ)

/-- A request in flight: its session as it started, what it sent, what is left of it. -/
structure Flight {S : Type} (R : S → Type) (E D Q σ ρ : Type) where
  req : Q
  start : σ
  past : List (Sent E S D)
  rest : Proc R (σ × ρ)

/-- A request that has ended. -/
structure Finished (S E D Q σ ρ : Type) where
  req : Q
  start : σ
  past : List (Sent E S D)
  final : σ
  resp : ρ

/-- The database, the sessions, and the request each session has in flight. -/
structure Config {S : Type} (R : S → Type) (E D Q σ ρ I : Type) where
  db : D
  sess : I → σ
  flight : I → Option (Flight R E D Q σ ρ)

inductive Event (S E D Q σ ρ I : Type) where
  | start (i : I) (q : Q)
  | sent (i : I) (q : Q) (start : σ) (x : Sent E S D)
  | finish (i : I) (f : Finished S E D Q σ ρ)

section Runs

variable {S : Type} {R : S → Type} {E D Q σ ρ I : Type}

section
variable [DecidableEq I]

/-- The session `i` has `g` in flight. -/
def Config.fly (c : Config R E D Q σ ρ I) (i : I) (g : Option (Flight R E D Q σ ρ)) :
    Config R E D Q σ ρ I :=
  { c with flight := Function.update c.flight i g }

inductive Step (sys : System R E D Q σ ρ) :
    Config R E D Q σ ρ I → Event S E D Q σ ρ I → Config R E D Q σ ρ I → Prop where
  | start {c : Config R E D Q σ ρ I} {i : I} {q : Q} (hi : c.flight i = none) :
      Step sys c (.start i q) (c.fly i (some ⟨q, c.sess i, [], sys.handle q (c.sess i)⟩))
  | send {c : Config R E D Q σ ρ I} {i : I} {f : Flight R E D Q σ ρ} {s : S}
      {k : R s → Proc R (σ × ρ)} {e : E} (hi : c.flight i = some f) (hf : f.rest = .call s k) :
      Step sys c (.sent i f.req f.start ⟨e, s, c.db⟩)
        { c.fly i (some ⟨f.req, f.start, f.past ++ [⟨e, s, c.db⟩], k (sys.exec e s c.db).1⟩) with
          db := (sys.exec e s c.db).2 }
  | finish {c : Config R E D Q σ ρ I} {i : I} {f : Flight R E D Q σ ρ} {a : σ × ρ}
      (hi : c.flight i = some f) (hf : f.rest = .done a) :
      Step sys c (.finish i ⟨f.req, f.start, f.past, a.1, a.2⟩)
        { c.fly i none with sess := Function.update c.sess i a.1 }

/-- The runs from `c₀` in which every step meets `ok` where it is taken. -/
inductive Run (sys : System R E D Q σ ρ)
    (ok : Config R E D Q σ ρ I → Event S E D Q σ ρ I → Prop) (c₀ : Config R E D Q σ ρ I) :
    List (Event S E D Q σ ρ I) → Config R E D Q σ ρ I → Prop where
  | nil : Run sys ok c₀ [] c₀
  | snoc {evs : List (Event S E D Q σ ρ I)} {c c' : Config R E D Q σ ρ I}
      {ev : Event S E D Q σ ρ I} :
      Run sys ok c₀ evs c → ok c ev → Step sys c ev c' → Run sys ok c₀ (evs ++ [ev]) c'

end

/-- No condition. -/
abbrev anySent (_ : Q) (_ : σ) (_ : E) (_ : S) (_ : D) : Prop := True

/-- A condition on the statements a run sends, given the request and its session. -/
def onSent (okS : Q → σ → E → S → D → Prop) (_ : Config R E D Q σ ρ I) :
    Event S E D Q σ ρ I → Prop
  | .sent _ q s x => okS q s x.env x.stmt x.before
  | _ => True

/-- What the finished requests of a history guarantee. -/
def AllFinished (post : Q → σ → List (Sent E S D) → σ × ρ → Prop)
    (evs : List (Event S E D Q σ ρ I)) : Prop :=
  ∀ i f, Event.finish i f ∈ evs → post f.req f.start f.past (f.final, f.resp)

/-- The requests that session `i` starts satisfy `good`. -/
def StartsOnly (good : Q → Prop) (i : I) (evs : List (Event S E D Q σ ρ I)) : Prop :=
  ∀ q, Event.start i q ∈ evs → good q

theorem StartsOnly.of_snoc {good : Q → Prop} {i : I} {evs : List (Event S E D Q σ ρ I)}
    {ev : Event S E D Q σ ρ I} (h : StartsOnly good i (evs ++ [ev])) :
    StartsOnly good i evs ∧ ∀ q, ev = .start i q → good q :=
  ⟨fun q hq => h q (List.mem_append_left _ hq),
    fun q he => h q (List.mem_append_right _ (List.mem_singleton.mpr he.symm))⟩

theorem StartsOnly.begin {good : Q → Prop} {i j : I} {q : Q} {evs : List (Event S E D Q σ ρ I)}
    (h : StartsOnly good i evs) (hq : good q) : StartsOnly good i (evs ++ [.start j q]) := by
  intro r hr
  rcases List.mem_append.mp hr with hr | hr
  · exact h r hr
  · cases List.mem_singleton.mp hr
    exact hq

/-- What a request sends until it ends starts nothing. -/
theorem StartsOnly.drain {good : Q → Prop} {i j : I} {q : Q} {s : σ} {l : List (Sent E S D)}
    {f : Finished S E D Q σ ρ} {evs : List (Event S E D Q σ ρ I)} (h : StartsOnly good i evs) :
    StartsOnly good i (evs ++ l.map (.sent j q s) ++ [.finish j f]) := by
  intro r hr
  rcases List.mem_append.mp hr with hr | hr
  · rcases List.mem_append.mp hr with hr | hr
    · exact h r hr
    · obtain ⟨x, -, hx⟩ := List.mem_map.mp hr
      cases hx
  · cases List.mem_singleton.mp hr

/-- Every event of a history satisfies `P` of the events before it. -/
def Always (P : List (Event S E D Q σ ρ I) → Event S E D Q σ ρ I → Prop)
    (evs : List (Event S E D Q σ ρ I)) : Prop :=
  ∀ before ev after, evs = before ++ ev :: after → P before ev

theorem Always.snoc {P : List (Event S E D Q σ ρ I) → Event S E D Q σ ρ I → Prop}
    {evs : List (Event S E D Q σ ρ I)} {ev : Event S E D Q σ ρ I} (h : Always P evs)
    (hev : P evs ev) : Always P (evs ++ [ev]) := by
  intro before x after he
  rcases List.eq_nil_or_concat after with rfl | ⟨after', y, rfl⟩
  · obtain ⟨rfl, hx⟩ := List.append_inj' he rfl
    cases hx
    exact hev
  · have he' : evs ++ [ev] = (before ++ x :: after') ++ [y] := by simpa using he
    exact h before x after' (List.append_inj' he' rfl).1

theorem always_snoc_iff {P : List (Event S E D Q σ ρ I) → Event S E D Q σ ρ I → Prop}
    {evs : List (Event S E D Q σ ρ I)} {ev : Event S E D Q σ ρ I} :
    Always P (evs ++ [ev]) ↔ Always P evs ∧ P evs ev := by
  refine ⟨fun h => ⟨fun before x after he => ?_, h evs ev [] rfl⟩, fun h => h.1.snoc h.2⟩
  exact h before x (after ++ [ev]) (by simp [he])

section
variable {post : Q → σ → List (Sent E S D) → σ × ρ → Prop} {evs : List (Event S E D Q σ ρ I)}

theorem AllFinished.snoc_other {ev : Event S E D Q σ ρ I} (h : AllFinished post evs)
    (hev : ∀ i f, ev ≠ .finish i f) : AllFinished post (evs ++ [ev]) := by
  intro i f hm
  rcases List.mem_append.mp hm with hm | hm
  · exact h i f hm
  · exact absurd (List.mem_singleton.mp hm).symm (hev i f)

theorem AllFinished.snoc_finish {i : I} {f : Finished S E D Q σ ρ} (h : AllFinished post evs)
    (hf : post f.req f.start f.past (f.final, f.resp)) :
    AllFinished post (evs ++ [.finish i f]) := by
  intro j g hm
  rcases List.mem_append.mp hm with hm | hm
  · exact h j g hm
  · cases List.mem_singleton.mp hm
    exact hf

end

section
variable [DecidableEq I] {sys : System R E D Q σ ρ} {ok : Config R E D Q σ ρ I → Event S E D Q σ ρ I → Prop}
  {c₀ c : Config R E D Q σ ρ I} {evs : List (Event S E D Q σ ρ I)}

@[simp] theorem Config.fly_sess (c : Config R E D Q σ ρ I) (i : I)
    (g : Option (Flight R E D Q σ ρ)) : (c.fly i g).sess = c.sess := rfl

@[simp] theorem Config.fly_db (c : Config R E D Q σ ρ I) (i : I)
    (g : Option (Flight R E D Q σ ρ)) : (c.fly i g).db = c.db := rfl

@[simp] theorem Config.fly_flight (c : Config R E D Q σ ρ I) (i : I)
    (g : Option (Flight R E D Q σ ρ)) : (c.fly i g).flight = Function.update c.flight i g := rfl

theorem Run.mono {ok' : Config R E D Q σ ρ I → Event S E D Q σ ρ I → Prop}
    (hok : ∀ c ev, ok c ev → ok' c ev) (h : Run sys ok c₀ evs c) : Run sys ok' c₀ evs c := by
  induction h with
  | nil => exact .nil
  | snoc _ ho hst ih => exact .snoc ih (hok _ _ ho) hst

/-- An invariant of the initial configuration that every step keeps holds along every run. -/
theorem Run.invariant (Inv : List (Event S E D Q σ ρ I) → Config R E D Q σ ρ I → Prop)
    (h0 : Inv [] c₀)
    (hs : ∀ evs c ev c', Inv evs c → ok c ev → Step sys c ev c' → Inv (evs ++ [ev]) c')
    (h : Run sys ok c₀ evs c) : Inv evs c := by
  induction h with
  | nil => exact h0
  | snoc _ ho hst ih => exact hs _ _ _ _ ih ho hst

/-- What holds of every session and of the rest of every request in flight. -/
structure Each (J : σ → Prop) (K : Flight R E D Q σ ρ → Prop) (c : Config R E D Q σ ρ I) :
    Prop where
  sess : ∀ i, J (c.sess i)
  flight : ∀ i f, c.flight i = some f → K f

/-- A request in flight started from a good session and still guarantees `post`. -/
def Flight.Keeps (sys : System R E D Q σ ρ) (okS : Q → σ → E → S → D → Prop) (J : σ → Prop)
    (post : Q → σ → List (Sent E S D) → σ × ρ → Prop) (f : Flight R E D Q σ ρ) : Prop :=
  J f.start ∧
    f.rest.Guarded sys.exec (okS f.req f.start) (fun p a => post f.req f.start p a ∧ J a.1) f.past

variable {okS : Q → σ → E → S → D → Prop} {J : σ → Prop}
  {post : Q → σ → List (Sent E S D) → σ × ρ → Prop}

theorem Each.fly {K : Flight R E D Q σ ρ → Prop} {c' : Config R E D Q σ ρ I} {i : I}
    {g : Option (Flight R E D Q σ ρ)} (h : Each J K c) (hs : ∀ j, J (c'.sess j))
    (hc : c'.flight = Function.update c.flight i g) (hg : ∀ f, g = some f → K f) :
    Each J K c' where
  sess := hs
  flight j f hj := by
    rw [hc] at hj
    by_cases hij : j = i
    · subst hij
      exact hg f (by simpa using hj)
    · exact h.flight j f (by simpa [hij] using hj)

/-- The last statement sent satisfies `P`. -/
def Flight.LastSent (P : S → Prop) (f : Flight R E D Q σ ρ) : Prop :=
  ∃ x, f.past.getLast? = some x ∧ P x.stmt

/-- What is left of the request follows each `P` by a `Q`, and does so at once after a `P`. -/
def Flight.Follows (P Q' : S → Prop) (f : Flight R E D Q σ ρ) : Prop :=
  f.rest.Followed P Q' ∧ (f.LastSent P → f.rest.Next Q')

theorem Step.follows {P Q' : S → Prop} {c' : Config R E D Q σ ρ I} {ev : Event S E D Q σ ρ I}
    (hp : ∀ q s, (sys.handle q s).Followed P Q')
    (h : Each (fun _ => True) (Flight.Follows P Q') c) (hst : Step sys c ev c') :
    Each (fun _ => True) (Flight.Follows P Q') c' := by
  cases hst with
  | @start i q hi =>
    refine h.fly (fun _ => trivial) rfl ?_
    rintro f ⟨rfl⟩
    exact ⟨hp q _, fun ⟨x, hx, _⟩ => by cases hx⟩
  | @send i f s k e hi hr =>
    refine h.fly (fun _ => trivial) rfl ?_
    rintro g ⟨rfl⟩
    have hf := (h.flight i f hi).1
    rw [hr] at hf
    refine ⟨hf.2 _, ?_⟩
    rintro ⟨x, hx, hP⟩
    obtain rfl : _ = x := Option.some.inj ((List.getLast?_concat ..).symm.trans hx)
    exact hf.1 hP _
  | @finish i f a hi hr => exact h.fly (fun _ => trivial) rfl (by simp)

/-- What is left of the request sends only statements that satisfy `P`, and ends in `J`. -/
def Flight.Within (P : S → Prop) (J : σ → Prop) (f : Flight R E D Q σ ρ) : Prop :=
  f.rest.Emits P ∧ f.rest.Ends fun a => J a.1

/-- The requests of good sessions send only statements that satisfy `P`. -/
theorem Step.within {P : S → Prop} {c' : Config R E D Q σ ρ I} {ev : Event S E D Q σ ρ I}
    (hP : ∀ q s, J s → (sys.handle q s).Emits P)
    (hJ : ∀ q s, J s → (sys.handle q s).Ends fun a => J a.1)
    (h : Each J (Flight.Within P J) c) (hst : Step sys c ev c') :
    Each J (Flight.Within P J) c' := by
  cases hst with
  | @start i q hi =>
    refine h.fly h.sess rfl ?_
    rintro f ⟨rfl⟩
    exact ⟨hP q _ (h.sess i), hJ q _ (h.sess i)⟩
  | @send i f s k e hi hr =>
    refine h.fly h.sess rfl ?_
    rintro g ⟨rfl⟩
    obtain ⟨hem, hends⟩ := h.flight i f hi
    rw [hr] at hem hends
    exact ⟨hem.2 _, hends _⟩
  | @finish i f a hi hr =>
    obtain ⟨-, hends⟩ := h.flight i f hi
    rw [hr] at hends
    have ha : J a.1 := hends
    refine h.fly (fun j => ?_) rfl (by simp)
    by_cases hij : j = i
    · subst hij
      simpa using ha
    · simpa [hij] using h.sess j

theorem Run.within {P : S → Prop} (hP : ∀ q s, J s → (sys.handle q s).Emits P)
    (hJ : ∀ q s, J s → (sys.handle q s).Ends fun a => J a.1) (h0 : ∀ i, J (c₀.sess i))
    (hidle : ∀ i, c₀.flight i = none) (h : Run sys ok c₀ evs c) :
    Each J (Flight.Within P J) c :=
  h.invariant (fun _ c => Each J (Flight.Within P J) c)
    ⟨h0, fun i f hi => by simp [hidle i] at hi⟩ fun _ _ _ _ he _ hst => hst.within hP hJ he

/-- **What the statements of a run keep, the run keeps**, from any of its states on. -/
theorem Run.keeps {P : S → Prop} (inv : D → Prop)
    (hinv : ∀ e s d, P s → inv d → inv (sys.exec e s d).2)
    (hP : ∀ q s, J s → (sys.handle q s).Emits P)
    (hJ : ∀ q s, J s → (sys.handle q s).Ends fun a => J a.1)
    (h0 : Each J (Flight.Within P J) c₀) (hd : inv c₀.db) (h : Run sys ok c₀ evs c) :
    inv c.db := by
  refine (h.invariant (fun _ c => Each J (Flight.Within P J) c ∧ inv c.db) ⟨h0, hd⟩
    fun _ c ev c' hi _ hst => ⟨hst.within hP hJ hi.1, ?_⟩).2
  cases hst with
  | start hi' => exact hi.2
  | @send i f s k e hf hr =>
    obtain ⟨hem, -⟩ := hi.1.flight i f hf
    rw [hr] at hem
    exact hinv e s c.db hem.1 hi.2
  | finish hf hr => exact hi.2

/-- One step keeps the guarantees of the requests in flight and of the finished ones. -/
theorem Step.keeps {c' : Config R E D Q σ ρ I} {ev : Event S E D Q σ ρ I}
    (hg : ∀ q s, J s → (sys.handle q s).Guarded sys.exec (okS q s)
      (fun p a => post q s p a ∧ J a.1) [])
    (h : Each J (Flight.Keeps sys okS J post) c ∧ AllFinished post evs)
    (ho : onSent okS c ev) (hst : Step sys c ev c') :
    Each J (Flight.Keeps sys okS J post) c' ∧ AllFinished post (evs ++ [ev]) := by
  obtain ⟨he, hf⟩ := h
  cases hst with
  | @start i q hi =>
    refine ⟨he.fly he.sess rfl ?_, hf.snoc_other (by simp)⟩
    rintro f ⟨rfl⟩
    exact ⟨he.sess i, hg q _ (he.sess i)⟩
  | @send i f s k e hi hr =>
    refine ⟨he.fly he.sess rfl ?_, hf.snoc_other (by simp)⟩
    rintro g ⟨rfl⟩
    obtain ⟨hJ, hG⟩ := he.flight i f hi
    rw [hr] at hG
    exact ⟨hJ, hG e c.db ho⟩
  | @finish i f a hi hr =>
    obtain ⟨hJ, hG⟩ := he.flight i f hi
    rw [hr] at hG
    refine ⟨he.fly (fun j => ?_) rfl (by simp), hf.snoc_finish hG.1⟩
    by_cases hij : j = i
    · subst hij
      simpa using hG.2
    · simpa [hij] using he.sess j

/-- **Every request of a run guarantees what it guarantees under any interference.** -/
theorem Run.finished (h0 : ∀ i, J (c₀.sess i)) (hidle : ∀ i, c₀.flight i = none)
    (hg : ∀ q s, J s → (sys.handle q s).Guarded sys.exec (okS q s)
      (fun p a => post q s p a ∧ J a.1) [])
    (h : Run sys (onSent okS) c₀ evs c) :
    Each J (Flight.Keeps sys okS J post) c ∧ AllFinished post evs :=
  h.invariant (fun evs c => Each J (Flight.Keeps sys okS J post) c ∧ AllFinished post evs)
    ⟨⟨h0, fun i f hi => by simp [hidle i] at hi⟩, fun _ _ hm => by cases hm⟩
    (fun _ _ _ _ hi ho hst => hst.keeps hg hi ho)

theorem Run.trans {c' : Config R E D Q σ ρ I} {evs' : List (Event S E D Q σ ρ I)} (h : Run sys ok c₀ evs c)
    (h' : Run sys ok c evs' c') : Run sys ok c₀ (evs ++ evs') c' := by
  induction h' with
  | nil => rwa [List.append_nil]
  | snoc _ ho hst ih =>
    rw [← List.append_assoc]
    exact ih.snoc ho hst

/-- A session without a request in flight can start one. -/
theorem Run.begin (h : Run sys (onSent okS) c₀ evs c) (i : I)
    (q : Q) (hi : c.flight i = none) : Run sys (onSent okS) c₀ (evs ++ [.start i q])
      (c.fly i (some ⟨q, c.sess i, [], sys.handle q (c.sess i)⟩)) :=
  have ho : onSent okS c (.start i q) := trivial
  h.snoc ho (.start hi)

/-! ## Requests served alone -/

/-- The database and the sessions after a request of session `i` is served alone. -/
def Config.served (sys : System R E D Q σ ρ) (c : Config R E D Q σ ρ I) (i : I) (q : Q)
    (env : Nat → E) : Config R E D Q σ ρ I :=
  let r := (sys.handle q (c.sess i)).run sys.exec env c.db
  { c with db := r.2, sess := Function.update c.sess i r.1.1 }

/-- The response to a request of session `i` that is served alone. -/
def Config.answer (sys : System R E D Q σ ρ) (c : Config R E D Q σ ρ I) (i : I) (q : Q)
    (env : Nat → E) : ρ :=
  ((sys.handle q (c.sess i)).run sys.exec env c.db).1.2

/-- The events of a request of session `i` that is served alone. -/
def Config.serving (sys : System R E D Q σ ρ) (c : Config R E D Q σ ρ I) (i : I) (q : Q)
    (env : Nat → E) : List (Event S E D Q σ ρ I) :=
  let p := sys.handle q (c.sess i)
  let r := p.run sys.exec env c.db
  let sent := p.trace sys.exec env c.db
  .start i q :: (sent.map (.sent i q (c.sess i)) ++
    [.finish i ⟨q, c.sess i, sent, r.1.1, r.1.2⟩])

/-- What is left of a request can be executed without interference. -/
theorem Run.drain {i : I} {q : Q} {s : σ} {past : List (Sent E S D)} {p : Proc R (σ × ρ)}
    {env : Nat → E} (h : Run sys (onSent okS) c₀ evs c)
    (hi : c.flight i = some ⟨q, s, past, p⟩) (hm : p.Meets sys.exec (okS q s) env c.db) :
    Run sys (onSent okS) c₀
      (evs ++ (p.trace sys.exec env c.db).map (.sent i q s) ++
        [.finish i ⟨q, s, past ++ p.trace sys.exec env c.db,
          (p.run sys.exec env c.db).1.1, (p.run sys.exec env c.db).1.2⟩])
      { db := (p.run sys.exec env c.db).2
        sess := Function.update c.sess i (p.run sys.exec env c.db).1.1
        flight := Function.update c.flight i none } := by
  induction p generalizing evs c past env with
  | done a =>
    have ho : onSent okS c (.finish i ⟨q, s, past, a.1, a.2⟩) := trivial
    have hd := h.snoc ho (.finish hi rfl)
    simpa [Proc.trace, Config.fly] using hd
  | call st k ih =>
    obtain ⟨ho, hm⟩ := hm
    have ho : onSent okS c (.sent i q s ⟨env 0, st, c.db⟩) := ho
    have hd := ih _ (h.snoc ho (.send hi rfl)) (Function.update_self ..) hm
    simpa [Proc.trace, Config.fly, Function.update_idem] using hd

/-- The run without steps. -/
theorem Run.start (okS : Q → σ → E → S → D → Prop) (c : Config R E D Q σ ρ I) :
    Run sys (onSent okS) c [] c := .nil

/-- **Serving a request alone is a run.** -/
theorem Run.serve (i : I) (q : Q) (env : Nat → E) (h : Run sys (onSent okS) c₀ evs c)
    (hi : c.flight i = none)
    (hm : (sys.handle q (c.sess i)).Meets sys.exec (okS q (c.sess i)) env c.db) :
    Run sys (onSent okS) c₀ (evs ++ c.serving sys i q env) (c.served sys i q env) := by
  have ho : onSent okS c (.start i q) := trivial
  have hd := (h.snoc ho (.start hi)).drain (Function.update_self ..) hm
  have hf : Function.update (c.fly i (some ⟨q, c.sess i, [], sys.handle q (c.sess i)⟩)).flight i
      none = c.flight := by
    rw [Config.fly_flight, Function.update_idem, ← hi, Function.update_eq_self]
  rw [hf] at hd
  simpa [Config.serving, Config.served, Config.fly] using hd

omit [DecidableEq I] in
theorem StartsOnly.serve {good : Q → Prop} {i j : I} {q : Q} {env : Nat → E}
    (h : StartsOnly good i evs) (hq : good q) :
    StartsOnly good i (evs ++ c.serving sys j q env) := by
  have hd : evs ++ c.serving sys j q env = evs ++ [.start j q] ++
      ((sys.handle q (c.sess j)).trace sys.exec env c.db).map (.sent j q (c.sess j)) ++
        [.finish j ⟨q, c.sess j, (sys.handle q (c.sess j)).trace sys.exec env c.db,
          ((sys.handle q (c.sess j)).run sys.exec env c.db).1.1,
          ((sys.handle q (c.sess j)).run sys.exec env c.db).1.2⟩] := by
    simp [Config.serving]
  rw [hd]
  exact (h.begin hq).drain

/-- The states after requests that are served one after another, each where `ok` holds. -/
inductive Serial (sys : System R E D Q σ ρ) (ok : Config R E D Q σ ρ I → I → Q → Prop)
    (c₀ : Config R E D Q σ ρ I) : Config R E D Q σ ρ I → Prop where
  | nil : Serial sys ok c₀ c₀
  | snoc {c : Config R E D Q σ ρ I} {i : I} {q : Q} (env : Nat → E) :
      Serial sys ok c₀ c → ok c i q → Serial sys ok c₀ (c.served sys i q env)

variable {okQ : Config R E D Q σ ρ I → I → Q → Prop}

/-- An invariant of the initial state that every served request keeps. -/
theorem Serial.invariant (Inv : Config R E D Q σ ρ I → Prop) (h0 : Inv c₀)
    (hs : ∀ c i q env, Inv c → okQ c i q → Inv (c.served sys i q env))
    (h : Serial sys okQ c₀ c) : Inv c := by
  induction h with
  | nil => exact h0
  | snoc env _ ho ih => exact hs _ _ _ env ih ho

end

end Runs

end Inventory.Lib
