import Inventory.Model.Effects
import Inventory.Model.Sample

/-!
# The pruned log

`unpruned` is the log as it would be had no prune deleted from it: the same
statements executed with the prunes left out. `Kept` relates the two along
every interleaving: the 15 greatest timestamps are the same. Between requests
the log has at most 15 rows (`Bounded`), and it holds the last entries whenever
every prune finds them strictly later than the rest (`Suffix`).
-/

namespace Inventory

open Lib

/-- An INSERT into the log, whatever its values are. -/
def Stmt.logs : Stmt → Prop
  | .query sql => Sql.target sql = some (logTable, logCols)
  | _ => False

/-! ## The log without prunes -/

def keepLog (e : Env) : Stmt → Table LogRow LogRow.id → Table LogRow LogRow.id
  | .prune, t => t
  | st, t => execLog e st t

section
variable {I : Type}

/-- The log after a history of events, as it would be without prunes. -/
def unpruned (t : Table LogRow LogRow.id) (evs : List (PageEvent I)) : Table LogRow LogRow.id :=
  evs.foldl (fun t ev => match ev with
    | .sent _ _ _ x => keepLog x.env x.stmt t
    | _ => t) t

theorem unpruned_sent (t : Table LogRow LogRow.id) (evs : List (PageEvent I)) (i : I) (q : Request)
    (s : Session) (x : Sent Env Stmt Db) :
    unpruned t (evs ++ [.sent i q s x]) = keepLog x.env x.stmt (unpruned t evs) := by
  simp [unpruned]

theorem unpruned_start (t : Table LogRow LogRow.id) (evs : List (PageEvent I)) (i : I)
    (q : Request) : unpruned t (evs ++ [.start i q]) = unpruned t evs := by
  simp [unpruned]

theorem unpruned_finish (t : Table LogRow LogRow.id) (evs : List (PageEvent I)) (i : I)
    (f : Finished Stmt Env Db Request Session Response) :
    unpruned t (evs ++ [.finish i f]) = unpruned t evs := by
  simp [unpruned]

end

theorem keepLog_of_ne {st : Stmt} (h : st ≠ .prune) (e : Env) (t : Table LogRow LogRow.id) :
    keepLog e st t = execLog e st t := by
  cases st <;> first
    | rfl
    | exact absurd rfl h

/-- The pruned log `t` has the next key and the greatest timestamps of the unpruned log `u`. -/
structure Kept (t u : Table LogRow LogRow.id) : Prop where
  next : t.next = u.next
  agree : Agree 15 (t.rows.map LogRow.rank) (u.rows.map LogRow.rank)

theorem Kept.step {t u : Table LogRow LogRow.id} (h : Kept t u) (e : Env) (st : Stmt) :
    Kept (execLog e st t) (keepLog e st u) := by
  by_cases hst : st = .prune
  · subst hst
    exact ⟨h.next, (t.agree_keepTop e.order 15).trans h.agree⟩
  · obtain ⟨hn, new, h1, h2⟩ := execLog_appends hst e h.next
    rw [keepLog_of_ne hst]
    refine ⟨hn, ?_⟩
    rw [h1, h2, List.map_append, List.map_append]
    exact h.agree.append _

/-- The pruned log `t` is the end of the unpruned log `u`, with at least its last 15 rows. -/
structure Suffix (t u : Table LogRow LogRow.id) : Prop where
  next : t.next = u.next
  suffix : t.rows <:+ u.rows
  length : min 15 u.rows.length ≤ t.rows.length

/-- The last rows of a long enough end are the last rows. -/
theorem Suffix.recent {t u : Table LogRow LogRow.id} (h : Suffix t u) :
    t.recent 15 = u.recent 15 := by
  obtain ⟨l, hl⟩ := h.suffix
  have hlen := h.length
  rw [← hl, List.length_append] at hlen
  have hd : t.rows.drop (t.rows.length - 15) =
      (l ++ t.rows).drop (l.length + (t.rows.length - 15)) := by
    have h0 : l.drop (l.length + (t.rows.length - 15)) = [] :=
      List.drop_eq_nil_of_le (Nat.le_add_right _ _)
    rw [List.drop_append, h0, List.nil_append, Nat.add_sub_cancel_left]
  have hn : l.length + (t.rows.length - 15) = l.length + t.rows.length - 15 := by omega
  rw [Table.recent, Table.recent, ← hl, List.length_append, hd, hn]

theorem Suffix.step {t u : Table LogRow LogRow.id} (h : Suffix t u) (e : Env) {st : Stmt}
    (hst : st ≠ .prune) : Suffix (execLog e st t) (keepLog e st u) := by
  obtain ⟨hn, new, h1, h2⟩ := execLog_appends hst e h.next
  have hlen := h.length
  rw [keepLog_of_ne hst]
  refine ⟨hn, ?_, ?_⟩
  · obtain ⟨l, hl⟩ := h.suffix
    exact ⟨l, by rw [h1, h2, ← hl, List.append_assoc]⟩
  · rw [h1, h2, List.length_append, List.length_append]
    omega

/-- A prune that finds the last rows strictly later than the others keeps them. -/
theorem Suffix.prune {t u : Table LogRow LogRow.id} (h : Suffix t u) (e : Env)
    (hl : t.Latest LogRow.rank 15) :
    (execLog e .prune t).rows = u.recent 15 ∧ Suffix (execLog e .prune t) u := by
  have hr : (execLog e .prune t).rows = u.recent 15 := by
    rw [← h.recent]
    exact Table.keepTop_eq_recent hl e.order
  refine ⟨hr, h.next, ?_, ?_⟩
  · rw [hr]
    exact List.drop_suffix _ _
  · rw [hr, Table.length_recent]

/-! ## Log entries and prunes go together -/

theorem followed_writeLog (u a : Bytes) :
    (writeLog u a).Followed Stmt.logs (· = .prune) :=
  ⟨fun _ _ => rfl, fun _ => ⟨fun h => h.elim, fun _ => trivial⟩⟩

theorem followed_showNext (s : Session) (p : Post) (success : Bytes) :
    (showNext s p success).Followed Stmt.logs (· = .prune) :=
  (emits_showNext (fun _ h => h) s p success).followed

theorem not_logs_addInsert (f : Bytes → Bytes) : ¬ (Stmt.query (addInsert f)).logs := by
  simp only [Stmt.logs, target_addInsert]
  decide

theorem followed_new_entry (s : Session) (b : Body) :
    (new_entry s b).Followed Stmt.logs (· = .prune) := by
  unfold new_entry
  cases s.user with
  | none => trivial
  | some u =>
    cases b with
    | get => trivial
    | post p =>
      dsimp only
      split
      · trivial
      · refine Proc.Followed.bind ⟨fun h => h.elim, fun _ => trivial⟩
          fun (r : Except Bytes Int) => ?_
        cases r with
        | ok n => exact (followed_writeLog _ _).bind fun _ => trivial
        | error e => trivial

theorem followed_edit_asset (s : Session) (b : Body) :
    (edit_asset s b).Followed Stmt.logs (· = .prune) := by
  unfold edit_asset
  cases s.user with
  | none => trivial
  | some u =>
    dsimp only
    split
    · refine Proc.Followed.bind ?_ fun _ => ?_
      · exact Proc.Followed.bind ⟨fun h => h.elim, fun _ => trivial⟩
          fun _ => followed_writeLog _ _
      · split
        · trivial
        · exact followed_showNext _ _ _
    · exact followed_showNext _ _ _

theorem followed_delete_selected (s : Session) (b : Body) :
    (delete_selected s b).Followed Stmt.logs (· = .prune) := by
  unfold delete_selected
  cases s.user with
  | none => trivial
  | some u =>
    dsimp only
    split
    · trivial
    · cases b with
      | get => trivial
      | post p =>
        dsimp only
        split
        · trivial
        · split
          · trivial
          · split
            · trivial
            · refine Proc.Followed.bind ⟨fun h => h.elim, fun _ => trivial⟩
                fun (r : Bool) => ?_
              split
              · exact (followed_writeLog _ _).bind fun _ => trivial
              · trivial

/-- **A log INSERT is followed at once by the prune of its request.** -/
theorem handle_followed (sha256 : Bytes → Bytes) (q : Request) (s : Session) :
    (handle sha256 q s).Followed Stmt.logs (· = .prune) := by
  have other : (∀ st, Sends q s st → ¬ st.logs) →
      (handle sha256 q s).Followed Stmt.logs (· = .prune) := fun h =>
    ((handle_emits sha256 q s).mono h).followed
  obtain ⟨page, b⟩ := q
  cases page with
  | new_entry => exact followed_new_entry s b
  | edit_asset => exact followed_edit_asset s b
  | delete_selected => exact followed_delete_selected s b
  | add_asset =>
    refine other ?_
    rintro st ⟨p, -, rfl⟩
    exact not_logs_addInsert _
  | masterlist =>
    refine other ?_
    rintro st ⟨-, rfl | ⟨c, rfl⟩⟩ <;> exact fun h => h
  | login | index =>
    refine other ?_
    rintro st ⟨_, rfl⟩
    exact fun h => h
  | dashboard | export_excel =>
    refine other ?_
    rintro st ⟨-, rfl⟩
    exact fun h => h
  | logout => exact other fun _ h => h.elim
  | undo_delete =>
    refine other ?_
    rintro st ⟨-, _, _, rfl⟩
    exact fun h => h

/-! ## Runs -/

section
variable {sha256 : Bytes → Bytes} {sv : Server} {I : Type} [DecidableEq I] {c₀ c : PageState I}
  {evs : List (PageEvent I)}

/-- No request stands between its log INSERT and its prune. -/
def Quiet (c : PageState I) : Prop :=
  ∀ i f, c.flight i = some f → ¬ f.LastSent Stmt.logs

omit [DecidableEq I] in
theorem exec_db_log (e : Env) (st : Stmt) (d : Db) :
    ((inventory sha256 sv).exec e st d).2.log = execLog e st d.log :=
  exec_log sv e st d

theorem run_kept {ok : PageState I → PageEvent I → Prop}
    (h : Run (inventory sha256 sv) ok c₀ evs c) : Kept c.db.log (unpruned c₀.db.log evs) := by
  refine h.invariant (fun evs c => Kept c.db.log (unpruned c₀.db.log evs))
    ⟨rfl, Agree.refl _ _⟩ fun evs c ev c' hk _ hst => ?_
  cases hst with
  | start hi =>
    rw [unpruned_start]
    exact hk
  | @send i f s k e hi hf =>
    rw [unpruned_sent]
    show Kept ((inventory sha256 sv).exec e s c.db).2.log _
    rw [exec_db_log]
    exact hk.step e s
  | finish hi hf =>
    rw [unpruned_finish]
    exact hk

/-- A prune meets a log whose last 15 rows are strictly later than the others. -/
def latestPrune (_ : Request) (_ : Session) (_ : Env) (st : Stmt) (d : Db) : Prop :=
  match st with
  | .prune => d.log.Latest LogRow.rank 15
  | _ => True

instance (q : Request) (s : Session) (e : Env) (st : Stmt) (d : Db) :
    Decidable (latestPrune q s e st d) := by
  unfold latestPrune
  cases st <;> infer_instance

/-- At most 15 rows, unless a request is about to prune. -/
structure Bounded (c : PageState I) : Prop where
  follows : Each (fun _ => True) (Flight.Follows Stmt.logs (· = .prune)) c
  length : c.db.log.rows.length ≤ 15 ∨ ∃ i f, c.flight i = some f ∧ f.LastSent Stmt.logs

theorem execLog_of_not_logs {st : Stmt} (h : ¬ st.logs) (hp : st ≠ .prune) (e : Env)
    (t : Table LogRow LogRow.id) : execLog e st t = t := by
  cases st with
  | query sql =>
    have hq : queryRows e sql = none := if_neg h
    simp [execLog, hq]
  | prune => exact absurd rfl hp
  | _ => rfl

theorem Bounded.step {c' : PageState I} {ev : PageEvent I} (h : Bounded c)
    (hst : Step (inventory sha256 sv) c ev c') : Bounded c' := by
  refine ⟨hst.follows (handle_followed sha256) h.follows, ?_⟩
  cases hst with
  | @start i q hi =>
    refine h.length.imp id ?_
    rintro ⟨j, f, hj, hf⟩
    have hji : j ≠ i := by rintro rfl; rw [hi] at hj; cases hj
    exact ⟨j, f, by simpa [hji] using hj, hf⟩
  | @send i f s k e hi hr =>
    dsimp only
    rw [exec_db_log]
    by_cases hp : s = .prune
    · subst hp
      left
      rw [execLog, Table.length_keepTop]
      exact Nat.min_le_left _ _
    · by_cases hl : s.logs
      · right
        exact ⟨i, _, Function.update_self .., _, List.getLast?_concat .., hl⟩
      · rw [execLog_of_not_logs hl hp]
        refine h.length.imp id ?_
        rintro ⟨j, g, hj, hg⟩
        have hji : j ≠ i := by
          rintro rfl
          obtain rfl : f = g := Option.some.inj (hi.symm.trans hj)
          have := (h.follows.flight j f hi).2 hg
          rw [hr] at this
          exact hp this
        exact ⟨j, g, by simpa [hji] using hj, hg⟩
  | @finish i f a hi hr =>
    refine h.length.imp id ?_
    rintro ⟨j, g, hj, hg⟩
    -- the ended request was not about to prune
    have hji : j ≠ i := by
      rintro rfl
      obtain rfl : f = g := Option.some.inj (hi.symm.trans hj)
      have := (h.follows.flight j f hi).2 hg
      rw [hr] at this
      exact this
    exact ⟨j, g, by simpa [hji] using hj, hg⟩

theorem run_bounded {ok : PageState I → PageEvent I → Prop} (hidle : ∀ i, c₀.flight i = none)
    (h0 : c₀.db.log.rows.length ≤ 15) (h : Run (inventory sha256 sv) ok c₀ evs c) : Bounded c :=
  h.invariant (fun _ c => Bounded c)
    ⟨⟨fun _ => trivial, fun i f hi => by simp [hidle i] at hi⟩, .inl h0⟩
    fun _ _ _ _ hb _ hst => hb.step hst

theorem run_suffix (h : Run (inventory sha256 sv) (onSent latestPrune) c₀ evs c) :
    Suffix c.db.log (unpruned c₀.db.log evs) := by
  refine h.invariant (fun evs c => Suffix c.db.log (unpruned c₀.db.log evs))
    ⟨rfl, List.suffix_refl _, Nat.min_le_right _ _⟩ fun evs c ev c' hs ho hst => ?_
  cases hst with
  | start hi =>
    rw [unpruned_start]
    exact hs
  | @send i f s k e hi hf =>
    rw [unpruned_sent]
    show Suffix ((inventory sha256 sv).exec e s c.db).2.log _
    rw [exec_db_log]
    by_cases hp : s = .prune
    · subst hp
      exact (hs.prune e ho).2
    · exact hs.step e hp
  | finish hi hf =>
    rw [unpruned_finish]
    exact hs

end

/-! ## The timestamps on top -/

/-- The timestamps of the first `k` rows under an order. -/
def topStamps (o : RankBy LogRow.rank) (k : Nat) (t : Table LogRow LogRow.id) : List (Option Nat) :=
  ((o.sort t.rows).take k).map LogRow.timestamp

/-- The timestamp of a place. -/
def stampOf : Nat → Option Nat
  | 0 => none
  | n + 1 => some n

theorem stampOf_rank (r : LogRow) : stampOf r.rank = r.timestamp := by
  unfold LogRow.rank
  cases r.timestamp <;> rfl

theorem topStamps_eq (o : RankBy LogRow.rank) (k : Nat) (t : Table LogRow LogRow.id) :
    topStamps o k t = (greatest k (t.rows.map LogRow.rank)).map stampOf := by
  rw [← o.map_limit, List.map_map]
  exact List.map_congr_left fun r _ => (stampOf_rank r).symm

theorem Kept.topStamps {t u : Table LogRow LogRow.id} (h : Kept t u) {k : Nat} (hk : k ≤ 15)
    (o o' : RankBy LogRow.rank) : topStamps o k t = topStamps o' k u := by
  rw [topStamps_eq, topStamps_eq, ← take_greatest hk, h.agree.greatest_eq, take_greatest hk]

/-- What dashboard.php reads. -/
def recentStamps (sv : Server) (e : Env) (d : Db) : List (Option Nat) :=
  List.map LogRow.timestamp (exec sv e .recent d).1

section
variable {sha256 : Bytes → Bytes} {sv : Server} {I : Type} [DecidableEq I] {c₀ c : PageState I}
  {evs : List (PageEvent I)} {ok : PageState I → PageEvent I → Prop}

/-- **Pruning loses no top entry.** Along every interleaving the 15 greatest timestamps of the log
are those of the log that was never pruned, the dashboard shows the same timestamps for both, and
between requests a log that started with at most 15 rows has as many as that log, up to 15. -/
theorem pruning_keeps_top (hidle : ∀ i, c₀.flight i = none)
    (h : Run (inventory sha256 sv) ok c₀ evs c) :
    (∀ o o', topStamps o 15 c.db.log = topStamps o' 15 (unpruned c₀.db.log evs)) ∧
    (∀ e e', recentStamps sv e c.db =
      recentStamps sv e' { c.db with log := unpruned c₀.db.log evs }) ∧
    (c₀.db.log.rows.length ≤ 15 → Quiet c →
      c.db.log.rows.length = min 15 (unpruned c₀.db.log evs).rows.length) := by
  have hk := run_kept h
  refine ⟨hk.topStamps le_rfl, fun e e' => hk.topStamps (by decide) e.order e'.order, ?_⟩
  intro h0 hq
  have hb := (run_bounded hidle h0 h).length
  have hle : c.db.log.rows.length ≤ 15 := hb.resolve_right fun ⟨i, f, hi, hf⟩ => hq i f hi hf
  have hlen := hk.agree.length
  rw [List.length_map, List.length_map] at hlen
  omega

/-- The sample with 15 entries of one second. -/
def fullLog : Db :=
  { sample with
    log := sampleLog ((List.range 15).map fun n =>
      ⟨93 + n, some (str "admin"), some (str "Edited"), some 100⟩) (by decide) (by decide) }

/-- An edit over the full log: its prune deletes a row. -/
theorem pruning_keeps_top_sample :
    let sys := inventory zeroHash .canonical
    let c := (loggedIn fullLog).served sys 0 (sampleEdit (str "33")) fun _ => .at 100
    let evs := (loggedIn fullLog).serving sys 0 (sampleEdit (str "33")) fun _ => .at 100
    (∀ o o', topStamps o 15 c.db.log = topStamps o' 15 (unpruned fullLog.log evs)) ∧
    (∀ e e', recentStamps .canonical e c.db =
      recentStamps .canonical e' { c.db with log := unpruned fullLog.log evs }) ∧
    (fullLog.log.rows.length ≤ 15 → Quiet c →
      c.db.log.rows.length = min 15 (unpruned fullLog.log evs).rows.length) :=
  pruning_keeps_top (fun _ => rfl)
    ((Run.start anySent (loggedIn fullLog)).serve 0 _ _ rfl
      (Proc.meets_of_forall _ (fun _ _ _ => trivial) _ _ _))

/-! ## The last entries -/

/-- **The log keeps the most recent entries**, in every run whose prunes find the last 15 rows
strictly later than the others. -/
theorem log_keeps_most_recent (hidle : ∀ i, c₀.flight i = none)
    (h0 : c₀.db.log.rows.length ≤ 15) (h : Run (inventory sha256 sv) (onSent latestPrune) c₀ evs c)
    (hq : Quiet c) : c.db.log.rows = (unpruned c₀.db.log evs).recent 15 := by
  have hb := (run_bounded hidle h0 h).length
  have hle : c.db.log.rows.length ≤ 15 := hb.resolve_right fun ⟨i, f, hi, hf⟩ => hq i f hi hf
  rw [← (run_suffix h).recent, Table.recent, Nat.sub_eq_zero_of_le hle, List.drop_zero]

theorem served_quiet {c : PageState I} (hidle : ∀ i, c.flight i = none) (i : I) (q : Request)
    (env : Nat → Env) : Quiet (c.served (inventory sha256 sv) i q env) := fun j f hj => by
  have : c.flight j = some f := hj
  simp [hidle j] at this

/-- The sample with 15 entries of 15 different seconds. -/
def distinctSeconds : Db :=
  { sample with
    log := sampleLog ((List.range 15).map fun (n : Nat) =>
      ⟨93 + n, some (str "admin"), some (str "Edited"), some (100 + n)⟩) (by decide) (by decide) }

/-- The 16th entry is kept and the first one goes. -/
theorem log_keeps_most_recent_sample :
    let sys := inventory zeroHash .canonical
    let c := (loggedIn distinctSeconds).served sys 0 (sampleEdit (str "33")) fun _ => .at 115
    c.db.log.rows =
      (unpruned distinctSeconds.log ((loggedIn distinctSeconds).serving sys 0
        (sampleEdit (str "33")) fun _ => .at 115)).recent 15 :=
  log_keeps_most_recent (fun _ => rfl) (by decide)
    ((Run.start latestPrune (loggedIn distinctSeconds)).serve 0 _ _ rfl (by decide))
    (served_quiet (fun _ => rfl) _ _ _)

/-- An entry written in the same second is the one that its own prune deletes. -/
theorem equal_timestamps_lose_entry : ¬ ∀ (evs : List (PageEvent Nat)) (c : PageState Nat),
    Run (inventory zeroHash .canonical) (onSent anySent) (loggedIn fullLog) evs c →
    Quiet c → c.db.log.rows = (unpruned fullLog.log evs).recent 15 := by
  intro h
  have := h _ _ ((Run.start anySent (loggedIn fullLog)).serve 0 (sampleEdit (str "33"))
    (fun _ => .at 100) rfl (Proc.meets_of_forall _ (fun _ _ _ => trivial) _ _ _))
    (served_quiet (fun _ => rfl) _ _ _)
  revert this
  decide

end

end Inventory
