import Inventory.Lib.Process

/-!
# What a session depends on

The sessions in a class are confined to a part of the database that no
statement changes, when the replies to what their good requests send depend on
that part alone (`Confined`). `Run.purge`: what such a session sees in a run it also sees in a
run of its own requests alone, over any database with the same part, so it
learns nothing of the rest, and nothing of what the other sessions do.
-/

namespace Inventory.Lib

section
variable {S : Type} {R : S → Type} {E D Q σ ρ I V : Type}

/-- A statement as it was sent, without the database it met. -/
def Sent.blind (x : Sent E S D) : Sent E S Unit := ⟨x.env, x.stmt, ()⟩

/-- The session of an event. -/
def Event.who : Event S E D Q σ ρ I → I
  | .start i _ => i
  | .sent i _ _ _ => i
  | .finish i _ => i

/-- An event, without the databases that statements met. -/
def Event.blind : Event S E D Q σ ρ I → Event S E Unit Q σ ρ I
  | .start i q => .start i q
  | .sent i q s x => .sent i q s x.blind
  | .finish i f => .finish i ⟨f.req, f.start, f.past.map Sent.blind, f.final, f.resp⟩

/-- A request in flight, without the databases that its statements met. -/
def Flight.blind (f : Flight R E D Q σ ρ) : Flight R E Unit Q σ ρ :=
  ⟨f.req, f.start, f.past.map Sent.blind, f.rest⟩

/-- What session `i` sees of a history: its requests, statements and answers. -/
def seen [DecidableEq I] (i : I) (evs : List (Event S E D Q σ ρ I)) :
    List (Event S E Unit Q σ ρ I) :=
  (evs.filter fun ev => ev.who = i).map Event.blind

/-- With good requests the sessions in `G` depend on a part of the database that no statement
changes. -/
structure Confined (sys : System R E D Q σ ρ) (part : D → V) (P : S → Prop) (good : Q → Prop)
    (G : σ → Prop) : Prop where
  keeps : ∀ e s d, part (sys.exec e s d).2 = part d
  reply : ∀ e s d d', P s → part d = part d' → (sys.exec e s d).1 = (sys.exec e s d').1
  emits : ∀ q s, good q → G s → (sys.handle q s).Emits P

/-- The runs of session `i` alone. -/
def ofSession (i : I) (_ : Config R E D Q σ ρ I) (ev : Event S E D Q σ ρ I) : Prop := ev.who = i

/-- Session `i` ends all its requests in `G`. -/
def StaysIn (G : σ → Prop) (i : I) (evs : List (Event S E D Q σ ρ I)) : Prop :=
  ∀ f, Event.finish i f ∈ evs → G f.final

/-- Session `i` cannot tell two configurations apart. -/
structure Alike (part : D → V) (P : S → Prop) (G : σ → Prop) (i : I)
    (c c' : Config R E D Q σ ρ I) : Prop where
  part : part c.db = part c'.db
  sess : c.sess i = c'.sess i
  good : G (c.sess i)
  flight : (c.flight i).map Flight.blind = (c'.flight i).map Flight.blind
  emits : ∀ f, c.flight i = some f → f.rest.Emits P

variable {sys : System R E D Q σ ρ} {part : D → V} {P : S → Prop} {good : Q → Prop} {G : σ → Prop}
  {i : I} {c c' d : Config R E D Q σ ρ I} {ev : Event S E D Q σ ρ I}
  {evs : List (Event S E D Q σ ρ I)}

/-- What a configuration that looks alike has in flight. -/
theorem Alike.exists_flight (h : Alike part P G i c d) {f : Flight R E D Q σ ρ}
    (hi : c.flight i = some f) : ∃ f', d.flight i = some f' ∧ f.blind = f'.blind := by
  have hf := h.flight
  rw [hi] at hf
  obtain ⟨f', hf', he⟩ := Option.map_eq_some_iff.mp hf.symm
  exact ⟨f', hf', he.symm⟩

variable [DecidableEq I]

theorem seen_snoc (i : I) (evs : List (Event S E D Q σ ρ I)) (ev : Event S E D Q σ ρ I) :
    seen i (evs ++ [ev]) = seen i evs ++ if ev.who = i then [ev.blind] else [] := by
  unfold seen
  rw [List.filter_append, List.map_append]
  by_cases h : ev.who = i
  · simp [h]
  · simp [h]

/-- **A step of another session** is not noticed. -/
theorem Alike.other (hc : Confined sys part P good G) (h : Alike part P G i c d)
    (hst : Step sys c ev c') (hi : ev.who ≠ i) : Alike part P G i c' d := by
  cases hst with
  | @start j q hj =>
    have hne : i ≠ j := fun e => hi e.symm
    refine ⟨h.part, h.sess, h.good, ?_, ?_⟩
    · rw [Config.fly_flight, Function.update_of_ne hne]
      exact h.flight
    · rw [Config.fly_flight, Function.update_of_ne hne]
      exact h.emits
  | @send j f s k e hj hk =>
    have hne : i ≠ j := fun e => hi e.symm
    refine ⟨(hc.keeps _ _ _).trans h.part, h.sess, h.good, ?_, ?_⟩
    · show (Function.update c.flight j _ i).map _ = _
      rw [Function.update_of_ne hne]
      exact h.flight
    · show ∀ f, Function.update c.flight j _ i = some f → _
      rw [Function.update_of_ne hne]
      exact h.emits
  | @finish j f a hj hf =>
    have hne : i ≠ j := fun e => hi e.symm
    have hs : Function.update c.sess j a.1 i = c.sess i := Function.update_of_ne hne _ _
    refine ⟨h.part, hs.trans h.sess, ?_, ?_, ?_⟩
    · show G (Function.update c.sess j a.1 i)
      rw [hs]
      exact h.good
    · show (Function.update c.flight j none i).map _ = _
      rw [Function.update_of_ne hne]
      exact h.flight
    · show ∀ f, Function.update c.flight j none i = some f → _
      rw [Function.update_of_ne hne]
      exact h.emits

/-- **A step of the session** is possible where it cannot tell the difference, and looks alike. -/
theorem Alike.own (hc : Confined sys part P good G) (h : Alike part P G i c d)
    (hst : Step sys c ev c') (hi : ev.who = i) (hgood : ∀ q, ev = .start i q → good q)
    (hstay : ∀ f, ev = .finish i f → G f.final) :
    ∃ ev' d', Step sys d ev' d' ∧ ev'.who = i ∧ ev'.blind = ev.blind ∧ Alike part P G i c' d' := by
  cases hst with
  | @start j q hj =>
    obtain rfl : j = i := hi
    have hd : d.flight j = none := by
      have hf := h.flight
      rw [hj] at hf
      exact Option.map_eq_none_iff.mp hf.symm
    refine ⟨_, _, .start (q := q) hd, rfl, rfl, h.part, h.sess, h.good, ?_, ?_⟩
    · rw [Config.fly_flight, Config.fly_flight, Function.update_self, Function.update_self, h.sess]
    · rw [Config.fly_flight, Function.update_self]
      rintro f ⟨rfl⟩
      exact hc.emits q _ (hgood q rfl) h.good
  | @send j f s k e hj hk =>
    obtain rfl : j = i := hi
    obtain ⟨f', hf', he⟩ := h.exists_flight hj
    have hem := h.emits f hj
    obtain ⟨req, start, past, rest⟩ := f
    obtain ⟨req', start', past', rest'⟩ := f'
    obtain ⟨rfl, rfl, hpast, rfl⟩ := Flight.mk.inj he
    obtain rfl : rest = .call s k := hk
    refine ⟨_, _, .send (e := e) hf' rfl, rfl, rfl, ?_, h.sess, h.good, ?_, ?_⟩
    · exact (hc.keeps _ _ _).trans (h.part.trans (hc.keeps _ _ _).symm)
    · show (Function.update c.flight j _ j).map _ = (Function.update d.flight j _ j).map _
      rw [Function.update_self, Function.update_self, hc.reply e s c.db d.db hem.1 h.part]
      simp only [Option.map_some, Flight.blind, List.map_append, hpast]
      rfl
    · show ∀ f, Function.update c.flight j _ j = some f → _
      rw [Function.update_self]
      rintro f ⟨rfl⟩
      exact hem.2 _
  | @finish j f a hj hf =>
    obtain rfl : j = i := hi
    obtain ⟨f', hf', he⟩ := h.exists_flight hj
    obtain ⟨req, start, past, rest⟩ := f
    obtain ⟨req', start', past', rest'⟩ := f'
    obtain ⟨rfl, rfl, hpast, rfl⟩ := Flight.mk.inj he
    obtain rfl : rest = .done a := hf
    have hs : ∀ c : Config R E D Q σ ρ I, Function.update c.sess j a.1 j = a.1 := fun _ =>
      Function.update_self ..
    refine ⟨_, _, .finish hf' rfl, rfl, ?_, h.part, ?_, ?_, ?_, ?_⟩
    · simp only [Event.blind, hpast]
    · exact (hs c).trans (hs d).symm
    · show G (Function.update c.sess j a.1 j)
      rw [hs]
      exact hstay _ rfl
    · show (Function.update c.flight j none j).map _ = (Function.update d.flight j none j).map _
      rw [Function.update_self, Function.update_self]
    · show ∀ f, Function.update c.flight j none j = some f → _
      rw [Function.update_self]
      intro f hf
      cases hf

/-- **A confined session sees what it sees alone**, over any database with the same part. -/
theorem Run.purge {ok : Config R E D Q σ ρ I → Event S E D Q σ ρ I → Prop}
    {c₀ d₀ : Config R E D Q σ ρ I} (hc : Confined sys part P good G) (h0 : Alike part P G i c₀ d₀)
    (h : Run sys ok c₀ evs c) (hgood : StartsOnly good i evs) (hstay : StaysIn G i evs) :
    ∃ evs' c', Run sys (ofSession i) d₀ evs' c' ∧ seen i evs' = seen i evs ∧
      Alike part P G i c c' := by
  induction h with
  | nil => exact ⟨[], d₀, .nil, rfl, h0⟩
  | @snoc evs c c' ev _ _ hst ih =>
    obtain ⟨hbefore, hnow⟩ := hgood.of_snoc
    obtain ⟨evs', d, hr, hseen, ha⟩ := ih hbefore fun f hf => hstay f (List.mem_append_left _ hf)
    by_cases hi : ev.who = i
    · obtain ⟨ev', d', hst', hi', hb, ha'⟩ := ha.own hc hst hi hnow fun f hf =>
        hstay f (hf ▸ List.mem_append_right _ List.mem_cons_self)
      refine ⟨evs' ++ [ev'], d', hr.snoc hi' hst', ?_, ha'⟩
      rw [seen_snoc, seen_snoc, if_pos hi, if_pos hi', hseen, hb]
    · refine ⟨evs', d, hr, ?_, ha.other hc hst hi⟩
      rw [seen_snoc, if_neg hi, hseen, List.append_nil]

/-- A request that is served alone ends once, in its session. -/
theorem finish_mem_serving {q : Q} {env : Nat → E} {j : I} {f : Finished S E D Q σ ρ}
    (h : Event.finish j f ∈ c.serving sys i q env) :
    j = i ∧ f.final = (c.served sys i q env).sess i := by
  have hs : (c.served sys i q env).sess i =
      ((sys.handle q (c.sess i)).run sys.exec env c.db).1.1 := Function.update_self ..
  rw [hs]
  rcases List.mem_cons.mp h with h | h
  · cases h
  · rcases List.mem_append.mp h with h | h
    · obtain ⟨x, -, hx⟩ := List.mem_map.mp h
      cases hx
    · cases List.mem_singleton.mp h
      exact ⟨rfl, rfl⟩

end

end Inventory.Lib
