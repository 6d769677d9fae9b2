import Inventory.Sql.Tokens

/-!
# INSERT statements

`readInsert` reads the tokens of an INSERT of one row of string literals.
`row` writes quoted texts with separators between and after them;
`parseInsert_row_iff` says that it is read back just when every text is clean.
-/

namespace Inventory.Sql

/-- A literal as it stands in a statement. -/
structure Literal where
  src : Bytes
  val : Bytes
  deriving DecidableEq, Repr

/-- An INSERT of one row of string literals. -/
structure Insert where
  table : Bytes
  cols : List Bytes
  row : List Literal
  deriving DecidableEq, Repr

/-- `w, w, …)` and what follows. -/
def readWords : List Tok → Option (List Bytes × List Tok)
  | .word w :: .punct 44 :: ts => (readWords ts).map fun r => (w :: r.1, r.2)
  | .word w :: .punct 41 :: ts => some ([w], ts)
  | _ => none

/-- `'…', '…', …)` at the end of the statement. -/
def readLiterals : List Tok → Option (List Literal)
  | .lit s v :: .punct 44 :: ts => (readLiterals ts).map (⟨s, v⟩ :: ·)
  | [.lit s v, .punct 41] => some [⟨s, v⟩]
  | _ => none

def readInsert : List Tok → Option Insert
  | .word i :: .word n :: .word t :: .punct 40 :: ts =>
    if i == str "INSERT" && n == str "INTO" then
      match readWords ts with
      | some (cols, .word v :: .punct 40 :: ts) =>
        if v == str "VALUES" then (readLiterals ts).map fun row => ⟨t, cols, row⟩ else none
      | _ => none
    else none
  | _ => none

/-- The table and the columns an INSERT names, whatever its values are. -/
def target (sql : Bytes) : Option (Bytes × List Bytes) :=
  match (run .gap sql).1 with
  | .word i :: .word n :: .word t :: .punct 40 :: ts =>
    if i == str "INSERT" && n == str "INTO" then (readWords ts).map fun r => (t, r.1) else none
  | _ => none

def parseInsert (sql : Bytes) : Option Insert := (tokens sql).bind readInsert

/-- The literals among the tokens. -/
def literals : List Tok → List Literal
  | [] => []
  | .lit s v :: ts => ⟨s, v⟩ :: literals ts
  | _ :: ts => literals ts

theorem literals_append (a b : List Tok) : literals (a ++ b) = literals a ++ literals b := by
  induction a with
  | nil => rfl
  | cons t a ih => cases t <;> simp [literals, ih]

theorem literals_readLiterals {ts : List Tok} {row : List Literal}
    (h : readLiterals ts = some row) : literals ts = row := by
  fun_induction readLiterals ts generalizing row with
  | case1 s v ts ih =>
    obtain ⟨r, hr, rfl⟩ := Option.map_eq_some_iff.mp h
    simp [literals, ih hr]
  | case2 s v =>
    cases h
    rfl
  | case3 => cases h

theorem literals_readWords {ts ts' : List Tok} {ws : List Bytes}
    (h : readWords ts = some (ws, ts')) : literals ts = literals ts' := by
  fun_induction readWords ts generalizing ws with
  | case1 w ts ih =>
    obtain ⟨⟨r, t⟩, hr, he⟩ := Option.map_eq_some_iff.mp h
    cases he
    simp [literals, ih hr]
  | case2 w ts =>
    cases h
    rfl
  | case3 => cases h

/-- The row of an INSERT is all the literals of its text. -/
theorem literals_readInsert {ts : List Tok} {i : Insert} (h : readInsert ts = some i) :
    literals ts = i.row := by
  unfold readInsert at h
  split at h
  · next a b t ts =>
    split at h
    · split at h
      · next cols v ts' hw =>
        split at h
        · obtain ⟨row, hr, rfl⟩ := Option.map_eq_some_iff.mp h
          simp [literals, literals_readWords hw, literals_readLiterals hr]
        · cases h
      · cases h
    · cases h
  · cases h

/-! ## Rows of quoted texts -/

/-- Texts in quotes, each followed by a separator. -/
def row : List (Bytes × Bytes) → Bytes
  | [] => []
  | (t, sep) :: ps => 39 :: t ++ 39 :: sep ++ row ps

/-- A separator ends the literal before it and is read as one byte of punctuation. -/
def IsSep (b : UInt8) (sep : Bytes) : Prop :=
  sep.head? ≠ some 39 ∧ run .gap sep = ([.punct b], .gap)

instance (b : UInt8) (sep : Bytes) : Decidable (IsSep b sep) := by unfold IsSep; infer_instance

/-- The tokens of a row when each text is one literal. -/
def rowTokens : List (Bytes × Bytes) → List Tok
  | [] => []
  | (t, sep) :: ps => .lit t t :: (run .gap sep).1 ++ rowTokens ps

theorem run_quote_sep {b : UInt8} {sep : Bytes} (h : IsSep b sep) (s v : Bytes) :
    run (.quote 39 s v) sep = ([.lit s v, .punct b], .gap) := by
  obtain ⟨h1, h2⟩ := h
  cases sep with
  | nil => cases h2
  | cons c sep =>
    have hc : (c == 39) = false := by simpa using h1
    simp only [run, feed, Prod.mk.injEq] at h2
    simp [run, feed, hc, close, h2.1, h2.2]

theorem run_quoted {b : UInt8} {t sep : Bytes} (ht : clean t = true) (h : IsSep b sep) :
    run .gap (39 :: t ++ 39 :: sep) = (.lit t t :: (run .gap sep).1, .gap) := by
  have h0 : feed .gap 39 = ([], .lit 39 [] []) := rfl
  rw [List.cons_append, run, h0, run_append, run_clean ht, h.2]
  simp [run, feed, run_quote_sep h]

section
variable {ps : List (Bytes × Bytes)} (hs : ∀ p ∈ ps, ∃ b, IsSep b p.2)
include hs

/-- Clean texts are read back as they were quoted. -/
theorem tokensFrom_row (hc : ∀ p ∈ ps, clean p.1 = true) :
    tokensFrom .gap (row ps) = some (rowTokens ps) := by
  induction ps with
  | nil => rfl
  | cons p ps ih =>
    obtain ⟨hc1, hc2⟩ := List.forall_mem_cons.mp hc
    obtain ⟨⟨b, hb⟩, hs2⟩ := List.forall_mem_cons.mp hs
    rw [row, tokensFrom_append (run_quoted hc1 hb), ih hs2 hc2]
    simp [rowTokens]

omit hs in
/-- The first literal of a quoted text that is not clean is another one. -/
theorem literals_ne_of_not_clean {t x : Bytes} (h : clean t = false) (ls : List Literal) :
    (tokensFrom .gap (39 :: t ++ 39 :: x)).map literals ≠ some (⟨t, t⟩ :: ls) := by
  have h0 : feed .gap 39 = ([], .lit 39 [] []) := rfl
  intro he
  obtain ⟨ts, hts, hl⟩ := Option.map_eq_some_iff.mp he
  rw [List.cons_append, tokensFrom_cons, h0] at hts
  obtain ⟨s, v, rest, rfl, hne⟩ := first_ne_of_not_clean h [] x ts (by simpa using hts)
  simp only [literals, List.cons.injEq, Literal.mk.injEq] at hl
  exact hne ⟨hl.1.1, hl.1.2⟩

/-- Texts that are read back as they were quoted are clean. -/
theorem clean_of_literals
    (h : (tokensFrom .gap (row ps)).map literals = some (ps.map fun p => ⟨p.1, p.1⟩)) :
    ∀ p ∈ ps, clean p.1 = true := by
  induction ps with
  | nil => exact fun _ hp => by cases hp
  | cons p ps ih =>
    obtain ⟨t, sep⟩ := p
    obtain ⟨⟨b, hb⟩, hs2⟩ := List.forall_mem_cons.mp hs
    cases hc : clean t with
    | false =>
      rw [row, List.append_assoc, List.cons_append] at h
      exact absurd h (literals_ne_of_not_clean hc _)
    | true =>
      refine List.forall_mem_cons.mpr ⟨hc, ih hs2 ?_⟩
      rw [row, tokensFrom_append (run_quoted hc hb), hb.2] at h
      obtain ⟨ts, hts, he⟩ := Option.map_eq_some_iff.mp h
      obtain ⟨us, hus, rfl⟩ := Option.map_eq_some_iff.mp hts
      rw [hus]
      simp only [List.cons_append, List.nil_append, literals, List.map_cons, List.cons.injEq,
        true_and] at he
      rw [Option.map_some, he]

end

/-- What the values of an INSERT read as when each text is one literal. -/
theorem readLiterals_rowTokens {ps : List (Bytes × Bytes)} {t last : Bytes}
    (hs : ∀ p ∈ ps, IsSep 44 p.2) (hl : IsSep 41 last) :
    readLiterals (rowTokens (ps ++ [(t, last)])) =
      some ((ps ++ [(t, last)]).map fun p => ⟨p.1, p.1⟩) := by
  induction ps with
  | nil => simp [rowTokens, hl.2, readLiterals]
  | cons p ps ih =>
    obtain ⟨h1, h2⟩ := List.forall_mem_cons.mp hs
    simp [rowTokens, h1.2, readLiterals, ih h2]

/-- The tokens of an INSERT into `table` before its values. -/
def headTokens (table : Bytes) (cs : List Bytes) (c : Bytes) : List Tok :=
  .word (str "INSERT") :: .word (str "INTO") :: .word table :: .punct 40 ::
    ((cs.flatMap fun c => [.word c, .punct 44]) ++
      [.word c, .punct 41, .word (str "VALUES"), .punct 40])

theorem readWords_columns (cs : List Bytes) (c : Bytes) (ts : List Tok) :
    readWords ((cs.flatMap fun c => [.word c, .punct 44]) ++ .word c :: .punct 41 :: ts) =
      some (cs ++ [c], ts) := by
  induction cs with
  | nil => rfl
  | cons d cs ih => simp [readWords, ih]

theorem literals_headTokens (table : Bytes) (cs : List Bytes) (c : Bytes) :
    literals (headTokens table cs c) = [] := by
  have h : literals (cs.flatMap fun c => [.word c, .punct 44]) = [] := by
    induction cs with
    | nil => rfl
    | cons d cs ih => simpa [literals] using ih
  simp [headTokens, literals, literals_append, h]

theorem readInsert_headTokens (table : Bytes) (cs : List Bytes) (c : Bytes) (ts : List Tok) :
    readInsert (headTokens table cs c ++ ts) =
      (readLiterals ts).map fun row => ⟨table, cs ++ [c], row⟩ := by
  simp [headTokens, readInsert, readWords_columns]

/-- The text `head` starts an INSERT into `table`, up to its values. -/
def IsHead (head table : Bytes) (cs : List Bytes) (c : Bytes) : Prop :=
  run .gap head = (headTokens table cs c, .gap)

instance (head table : Bytes) (cs : List Bytes) (c : Bytes) : Decidable (IsHead head table cs c) :=
  by unfold IsHead; infer_instance

theorem target_head {head table c : Bytes} {cs : List Bytes} (h : IsHead head table cs c)
    (x : Bytes) : target (head ++ x) = some (table, cs ++ [c]) := by
  rw [target, run_append, h]
  simp [headTokens, readWords_columns]

/-- **A statement is the INSERT it was written as just when every text in it is clean.** -/
theorem parseInsert_row_iff {head table c : Bytes} {cs : List Bytes}
    (ps : List (Bytes × Bytes)) (t last : Bytes) (hh : IsHead head table cs c) (hs : ∀ p ∈ ps, IsSep 44 p.2)
    (hl : IsSep 41 last) :
    parseInsert (head ++ row (ps ++ [(t, last)])) =
        some ⟨table, cs ++ [c], (ps ++ [(t, last)]).map fun p => ⟨p.1, p.1⟩⟩ ↔
      ∀ p ∈ ps ++ [(t, last)], clean p.1 = true := by
  have hsep : ∀ p ∈ ps ++ [(t, last)], ∃ b, IsSep b p.2 := fun p hp => by
    rcases List.mem_append.mp hp with hp | hp
    · exact ⟨44, hs p hp⟩
    · rw [List.mem_singleton.mp hp]
      exact ⟨41, hl⟩
  constructor
  · intro h
    obtain ⟨ts, hts', hi⟩ := Option.bind_eq_some_iff.mp h
    rw [tokens, tokensFrom_append hh] at hts'
    obtain ⟨us, hus, rfl⟩ := Option.map_eq_some_iff.mp hts'
    have hall := literals_readInsert hi
    rw [literals_append, literals_headTokens, List.nil_append] at hall
    exact clean_of_literals hsep (by rw [hus, Option.map_some, hall])
  · intro h
    rw [parseInsert, tokens, tokensFrom_append hh, tokensFrom_row hsep h, Option.map_some,
      Option.bind_some, readInsert_headTokens, readLiterals_rowTokens hs hl, Option.map_some]

end Inventory.Sql
