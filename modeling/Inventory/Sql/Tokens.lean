import Inventory.Lib.Bytes

/-!
# Reading SQL text

The tokenizer of MariaDB in its default mode, as a transducer over bytes:
words, string literals and single punctuation bytes; white space and comments
separate them. Inside a literal the quote is doubled to stand for itself and a
backslash starts an escape, except before `%` and `_`, where it stays. A
literal token keeps its source between the quotes beside its value.

`clean` are the texts that are their own source: `run_clean` reads one as one
literal, and `first_ne_of_not_clean` says that no other text is read so.
-/

namespace Inventory.Sql

inductive Tok where
  | word (w : Bytes)
  | lit (src val : Bytes)
  | punct (b : UInt8)
  deriving DecidableEq, Repr

inductive State where
  | gap
  | word (w : Bytes)
  | lit (q : UInt8) (src val : Bytes)
  | escape (q : UInt8) (src val : Bytes)
  | quote (q : UInt8) (src val : Bytes)
  | ident (w : Bytes)
  | dash
  | dashes
  | slash
  | comment
  | block
  | star
  | line
  deriving DecidableEq, Repr

def isWs (b : UInt8) : Bool := b == 32 || (9 ≤ b && b ≤ 13)

def isWord (b : UInt8) : Bool :=
  (48 ≤ b && b ≤ 57) || (65 ≤ b && b ≤ 90) || (97 ≤ b && b ≤ 122) || b == 95 || b == 36 || 128 ≤ b

/-- The value of a backslash escape. -/
def unescape (b : UInt8) : Bytes :=
  if b == 37 || b == 95 then [92, b]
  else if b == 48 then [0]
  else if b == 98 then [8]
  else if b == 116 then [9]
  else if b == 110 then [10]
  else if b == 114 then [13]
  else if b == 90 then [26]
  else [b]

/-- A byte between tokens. -/
def start (b : UInt8) : List Tok × State :=
  if isWs b then ([], .gap)
  else if b == 39 || b == 34 then ([], .lit b [] [])
  else if b == 96 then ([], .ident [])
  else if b == 35 then ([], .line)
  else if b == 45 then ([], .dash)
  else if b == 47 then ([], .slash)
  else if isWord b then ([], .word [b])
  else ([.punct b], .gap)

/-- A byte that ends the token `t`. -/
def close (t : List Tok) (b : UInt8) : List Tok × State := (t ++ (start b).1, (start b).2)

def feed : State → UInt8 → List Tok × State
  | .gap, b => start b
  | .word w, b => if isWord b then ([], .word (w ++ [b])) else close [.word w] b
  | .lit q s v, b =>
    if b == q then ([], .quote q s v)
    else if b == 92 then ([], .escape q s v)
    else ([], .lit q (s ++ [b]) (v ++ [b]))
  | .escape q s v, b => ([], .lit q (s ++ [92, b]) (v ++ unescape b))
  | .quote q s v, b =>
    if b == q then ([], .lit q (s ++ [q, q]) (v ++ [q])) else close [.lit s v] b
  | .ident w, b => if b == 96 then ([.word w], .gap) else ([], .ident (w ++ [b]))
  | .dash, b => if b == 45 then ([], .dashes) else close [.punct 45] b
  | .dashes, b =>
    if b == 10 then ([], .gap) else if isWs b then ([], .line) else close [.punct 45, .punct 45] b
  | .slash, b => if b == 42 then ([], .comment) else close [.punct 47] b
  -- the text of `/*! … */` is code
  | .comment, b => if b == 33 then ([.punct 33], .gap) else ([], if b == 42 then .star else .block)
  | .block, b => ([], if b == 42 then .star else .block)
  | .star, b => ([], if b == 47 then .gap else if b == 42 then .star else .block)
  | .line, b => ([], if b == 10 then .gap else .line)

def run : State → Bytes → List Tok × State
  | q, [] => ([], q)
  | q, b :: s => ((feed q b).1 ++ (run (feed q b).2 s).1, (run (feed q b).2 s).2)

/-- The last token of a text; an open literal, identifier or comment is an error. -/
def finish : State → Option (List Tok)
  | .gap => some []
  | .word w => some [.word w]
  | .quote _ s v => some [.lit s v]
  | .dash => some [.punct 45]
  | .dashes => some []
  | .slash => some [.punct 47]
  | .line => some []
  | _ => none

/-- The tokens of the rest of a text, read from a state. -/
def tokensFrom (q : State) (s : Bytes) : Option (List Tok) :=
  (finish (run q s).2).map ((run q s).1 ++ ·)

def tokens (s : Bytes) : Option (List Tok) := tokensFrom .gap s

theorem run_append (q : State) (x y : Bytes) :
    run q (x ++ y) = ((run q x).1 ++ (run (run q x).2 y).1, (run (run q x).2 y).2) := by
  induction x generalizing q with
  | nil => rfl
  | cons b x ih => simp [run, ih]

theorem tokensFrom_append {q q' : State} {ts : List Tok} {x : Bytes} (h : run q x = (ts, q'))
    (y : Bytes) : tokensFrom q (x ++ y) = (tokensFrom q' y).map (ts ++ ·) := by
  simp [tokensFrom, run_append, h, Function.comp_def]

theorem tokensFrom_cons (q : State) (b : UInt8) (s : Bytes) :
    tokensFrom q (b :: s) = (tokensFrom (feed q b).2 s).map ((feed q b).1 ++ ·) :=
  tokensFrom_append (x := [b]) (by simp [run]) s

/-! ## Texts that are their own source -/

/-- No quote, and no backslash but before `%` or `_`. -/
def clean : Bytes → Bool
  | [] => true
  | 39 :: _ => false
  | 92 :: c :: s => (c == 37 || c == 95) && clean s
  | [92] => false
  | _ :: s => clean s

theorem clean_cons {b : UInt8} (h39 : b ≠ 39) (h92 : b ≠ 92) (s : Bytes) :
    clean (b :: s) = clean s := by
  rw [clean.eq_def]
  split <;> simp_all

theorem clean_of_forall {s : Bytes} (h : ∀ b ∈ s, b ≠ 39 ∧ b ≠ 92) : clean s = true := by
  induction s with
  | nil => rfl
  | cons b s ih =>
    obtain ⟨h39, h92⟩ := h b List.mem_cons_self
    rw [clean_cons h39 h92]
    exact ih fun c hc => h c (List.mem_cons_of_mem _ hc)

theorem clean_append {s : Bytes} (h : ∀ b ∈ s, b ≠ 39 ∧ b ≠ 92) (t : Bytes) :
    clean (s ++ t) = clean t := by
  induction s with
  | nil => rfl
  | cons b s ih =>
    obtain ⟨h39, h92⟩ := h b List.mem_cons_self
    rw [List.cons_append, clean_cons h39 h92]
    exact ih fun c hc => h c (List.mem_cons_of_mem _ hc)

/-- A byte that ends no escape separates: both sides must be clean. -/
theorem clean_append_cons {c : UInt8} (h39 : c ≠ 39) (h92 : c ≠ 92) (h37 : c ≠ 37) (h95 : c ≠ 95)
    (s t : Bytes) : clean (s ++ c :: t) = (clean s && clean t) := by
  have hc : (c == 37 || c == 95) = false := by simp [h37, h95]
  fun_induction clean s with
  | case1 => rw [List.nil_append, clean_cons h39 h92, Bool.true_and]
  | case2 => rfl
  | case3 d s ih => simp [clean, ih, Bool.and_assoc]
  | case4 => simp [clean, hc]
  | case5 b s h39' h92' h92'' ih =>
    have hb : b ≠ 92 := fun e => by
      subst e
      cases s with
      | nil => exact h92'' rfl rfl
      | cons d s => exact h92' d s rfl rfl
    rw [List.cons_append, clean_cons h39' hb, ih]

theorem feed_lit {b : UInt8} (h39 : b ≠ 39) (h92 : b ≠ 92) (s v : Bytes) :
    feed (.lit 39 s v) b = ([], .lit 39 (s ++ [b]) (v ++ [b])) := by
  simp [feed, h39, h92]

/-- A clean text inside a literal belongs to it as it stands. -/
theorem run_clean {t : Bytes} (h : clean t = true) (s v : Bytes) :
    run (.lit 39 s v) t = ([], .lit 39 (s ++ t) (v ++ t)) := by
  fun_induction clean t generalizing s v with
  | case1 => simp [run]
  | case2 => cases h
  | case3 c t ih =>
    obtain ⟨hc, ht⟩ := Bool.and_eq_true_iff.mp h
    have e : unescape c = [92, c] := by simp [unescape, hc]
    simp [run, feed, e, ih ht]
  | case4 => cases h
  | case5 b t h39 h92 h92' ih =>
    have hb : b ≠ 92 := fun e => by
      subst e
      cases t with
      | nil => exact h92' rfl rfl
      | cons c t => exact h92 c t rfl rfl
    simp [run, feed_lit h39 hb, ih h]

theorem map_nil_append (o : Option (List Tok)) : o.map ([] ++ ·) = o := by simp

/-- The first token is a literal that satisfies `P`. -/
def First (P : Bytes → Bytes → Prop) (ts : Option (List Tok)) : Prop :=
  ∀ l, ts = some l → ∃ s v rest, l = .lit s v :: rest ∧ P s v

theorem first_none {P : Bytes → Bytes → Prop} : First P none := fun _ h => by cases h

theorem first_lit {P : Bytes → Bytes → Prop} {s v : Bytes} (h : P s v)
    (ts : Option (List Tok)) (r : List Tok) : First P (ts.map (.lit s v :: r ++ ·)) := by
  intro l hl
  obtain ⟨t, -, rfl⟩ := Option.map_eq_some_iff.mp hl
  exact ⟨s, v, _, rfl, h⟩

theorem First.mono {P Q : Bytes → Bytes → Prop} {ts : Option (List Tok)} (h : First P ts)
    (hPQ : ∀ s v, P s v → Q s v) : First Q ts := fun l hl => by
  obtain ⟨s, v, r, hr, hp⟩ := h l hl
  exact ⟨s, v, r, hr, hPQ s v hp⟩

theorem length_unescape (b : UInt8) : (unescape b).length ≤ 2 := by
  unfold unescape
  repeat' split
  all_goals simp

/-- A literal whose value has fallen behind its source stays behind. -/
theorem first_short (x : Bytes) (s v : Bytes) (h : v.length < s.length) :
    First (fun s v => v.length < s.length) (tokensFrom (.lit 39 s v) x) ∧
      First (fun s v => v.length < s.length) (tokensFrom (.escape 39 s v) x) ∧
      First (fun s v => v.length < s.length) (tokensFrom (.quote 39 s v) x) := by
  induction x generalizing s v with
  | nil => exact ⟨first_none, first_none, first_lit h (some []) []⟩
  | cons b x ih =>
    refine ⟨?_, ?_, ?_⟩
    · rw [tokensFrom_cons, feed]
      split
      · simpa using (ih s v h).2.2
      · split
        · simpa using (ih s v h).2.1
        · simpa using (ih (s ++ [b]) (v ++ [b]) (by simpa using h)).1
    · have hl := length_unescape b
      rw [tokensFrom_cons, feed]
      simpa using (ih (s ++ [92, b]) (v ++ unescape b) (by simp; omega)).1
    · rw [tokensFrom_cons, feed]
      split
      · simpa using (ih (s ++ [39, 39]) (v ++ [39]) (by simp; omega)).1
      · exact first_lit h _ _

/-- A text that is not clean is not read as one literal with itself as source and value. -/
theorem first_ne_of_not_clean {t : Bytes} (h : clean t = false) (s x : Bytes) :
    First (fun a b => ¬ (a = s ++ t ∧ b = s ++ t)) (tokensFrom (.lit 39 s s) (t ++ 39 :: x)) := by
  have short : ∀ a b w : Bytes, b.length < a.length → ¬ (a = w ∧ b = w) := by
    rintro a b w hlt ⟨rfl, rfl⟩
    exact absurd hlt (Nat.lt_irrefl _)
  fun_induction clean t generalizing s with
  | case1 => cases h
  | case2 t =>
    -- the quote ends the literal too early, or is doubled
    obtain ⟨b, y, hy⟩ : ∃ b y, t ++ 39 :: x = b :: y := by
      cases t with
      | nil => exact ⟨_, _, rfl⟩
      | cons b t => exact ⟨_, _, rfl⟩
    have hq : feed (.lit 39 s s) 39 = ([], .quote 39 s s) := rfl
    rw [List.cons_append, hy, tokensFrom_cons, hq, tokensFrom_cons, feed]
    split
    · simpa using (first_short y (s ++ [39, 39]) (s ++ [39]) (by simp)).1.mono
        fun a b => short a b _
    · rw [map_nil_append]
      exact first_lit (by simp) _ _
  | case3 c t ih =>
    have hf : feed (.lit 39 s s) 92 = ([], .escape 39 s s) := rfl
    rw [List.cons_append, List.cons_append, tokensFrom_cons, hf, tokensFrom_cons, feed]
    cases hc : (c == 37 || c == 95) with
    | true =>
      have e : unescape c = [92, c] := by simp [unescape, hc]
      have ht : clean t = false := by simpa [hc] using h
      simpa [e] using ih ht (s ++ [92, c])
    | false =>
      have hl : (unescape c).length = 1 := by
        unfold unescape
        rw [hc]
        repeat' split
        all_goals first
          | rfl
          | contradiction
      simpa using (first_short (t ++ 39 :: x) (s ++ [92, c]) (s ++ unescape c)
        (by simp [hl])).1.mono fun a b => short a b _
  | case4 =>
    have hf : feed (.lit 39 s s) 92 = ([], .escape 39 s s) := rfl
    have hq : unescape 39 = [39] := rfl
    rw [List.cons_append, List.nil_append, tokensFrom_cons, hf, tokensFrom_cons, feed, hq]
    simpa using (first_short x (s ++ [92, 39]) (s ++ [39]) (by simp)).1.mono fun a b => short a b _
  | case5 b t h39 h92 h92' ih =>
    have hb : b ≠ 92 := fun e => by
      subst e
      cases t with
      | nil => exact h92' rfl rfl
      | cons c t => exact h92 c t rfl rfl
    rw [List.cons_append, tokensFrom_cons, feed_lit h39 hb]
    simpa using ih h (s ++ [b])

end Inventory.Sql
