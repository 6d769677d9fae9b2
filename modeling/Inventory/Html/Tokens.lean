import Inventory.Html.Escape

/-!
# Reading HTML

The tokenizer of a browser, as a transducer over bytes: text and tags with
their attributes. A quoted attribute value ends at the next quote of its kind;
whatever follows is read as further attributes of the tag. Names are in lower
case, an end tag's name starts with `/`, and character references are left to
`unescape`. `run` over an append is `run` over the parts (`run_append`), so a
page is read piece by piece.
-/

namespace Inventory.Html

abbrev Attr := Bytes × Bytes

structure Tag where
  name : Bytes
  attrs : List Attr
  deriving DecidableEq, Repr

inductive Token where
  | text (t : Bytes)
  | tag (t : Tag)
  deriving DecidableEq, Repr

/-- Where the tokenizer stands between a tag's name and its `>`. -/
inductive AttrState where
  | before
  | name (n : Bytes)
  | afterName (n : Bytes)
  | beforeValue (n : Bytes)
  | quoted (q : UInt8) (n v : Bytes)
  | unquoted (n v : Bytes)
  deriving DecidableEq, Repr

inductive State where
  | data (t : Bytes)
  | tagName (n : Bytes)
  | inTag (n : Bytes) (as : List Attr) (a : AttrState)
  deriving DecidableEq, Repr

def isWs (b : UInt8) : Bool := b == 32 || b == 9 || b == 10 || b == 13 || b == 12

/-- A byte of an attribute: NUL reads as U+FFFD. -/
def attrByte (b : UInt8) : Bytes := if b == 0 then [0xEF, 0xBF, 0xBD] else [b]

/-- One byte inside a tag: the attribute it completes and the next state; `none` closes the tag. -/
def attrStep : AttrState → UInt8 → List Attr × Option AttrState
  | .before, b =>
    if isWs b || b == 47 then ([], some .before)
    else if b == 62 then ([], none)
    else ([], some (.name (attrByte (Bytes.lower b))))
  | .name n, b =>
    if isWs b then ([], some (.afterName n))
    else if b == 47 then ([(n, [])], some .before)
    else if b == 62 then ([(n, [])], none)
    else if b == 61 then ([], some (.beforeValue n))
    else ([], some (.name (n ++ attrByte (Bytes.lower b))))
  | .afterName n, b =>
    if isWs b then ([], some (.afterName n))
    else if b == 47 then ([(n, [])], some .before)
    else if b == 62 then ([(n, [])], none)
    else if b == 61 then ([], some (.beforeValue n))
    else ([(n, [])], some (.name (attrByte (Bytes.lower b))))
  | .beforeValue n, b =>
    if isWs b then ([], some (.beforeValue n))
    else if b == 34 || b == 39 then ([], some (.quoted b n []))
    else if b == 62 then ([(n, [])], none)
    else ([], some (.unquoted n (attrByte b)))
  | .quoted q n v, b =>
    if b == q then ([(n, v)], some .before) else ([], some (.quoted q n (v ++ attrByte b)))
  | .unquoted n v, b =>
    if isWs b then ([(n, v)], some .before)
    else if b == 62 then ([(n, v)], none)
    else ([], some (.unquoted n (v ++ attrByte b)))

/-- The text read so far, as a token. -/
def flush (t : Bytes) : List Token := if t = [] then [] else [.text t]

def feed : State → UInt8 → List Token × State
  | .data t, b => if b == 60 then (flush t, .tagName []) else ([], .data (t ++ [b]))
  | .tagName n, b =>
    if isWs b then ([], .inTag n [] .before)
    else if b == 62 then ([.tag ⟨n, []⟩], .data [])
    else ([], .tagName (n ++ [Bytes.lower b]))
  | .inTag n as a, b =>
    match attrStep a b with
    | (new, some a) => ([], .inTag n (as ++ new) a)
    | (new, none) => ([.tag ⟨n, as ++ new⟩], .data [])

def run : State → Bytes → List Token × State
  | q, [] => ([], q)
  | q, b :: s => ((feed q b).1 ++ (run (feed q b).2 s).1, (run (feed q b).2 s).2)

/-- What is left at the end of the page: a tag that is still open is dropped. -/
def finish : State → List Token
  | .data t => flush t
  | _ => []

def tokens (s : Bytes) : List Token := (run (.data []) s).1 ++ finish (run (.data []) s).2

theorem run_append (q : State) (x y : Bytes) :
    run q (x ++ y) = ((run q x).1 ++ (run (run q x).2 y).1, (run (run q x).2 y).2) := by
  induction x generalizing q with
  | nil => rfl
  | cons b x ih => simp [run, ih]

/-- Reading on after a piece whose reading is known. -/
theorem run_append_of {q q' : State} {ts : List Token} {x : Bytes} (h : run q x = (ts, q'))
    (y : Bytes) : run q (x ++ y) = (ts ++ (run q' y).1, (run q' y).2) := by
  rw [run_append, h]

theorem run_text {x : Bytes} (h : ∀ b ∈ x, b ≠ 60) (t : Bytes) :
    run (.data t) x = ([], .data (t ++ x)) := by
  induction x generalizing t with
  | nil => simp [run]
  | cons b x ih =>
    have hb : (b == 60) = false := by simpa using h b List.mem_cons_self
    simp [run, feed, hb, ih (fun c hc => h c (List.mem_cons_of_mem _ hc))]

/-- Inside a quoted value everything but its quote belongs to the value. -/
theorem run_quoted {x : Bytes} {q : UInt8} (h : ∀ b ∈ x, b ≠ q) (n : Bytes) (as : List Attr)
    (m v : Bytes) : run (.inTag n as (.quoted q m v)) x =
      ([], .inTag n as (.quoted q m (v ++ x.flatMap attrByte))) := by
  induction x generalizing v with
  | nil => simp [run]
  | cons b x ih =>
    have hb : (b == q) = false := by simpa using h b List.mem_cons_self
    simp [run, feed, attrStep, hb, ih (fun c hc => h c (List.mem_cons_of_mem _ hc))]

theorem flatMap_attrByte {x : Bytes} (h : ∀ b ∈ x, b ≠ 0) : x.flatMap attrByte = x := by
  induction x with
  | nil => rfl
  | cons b x ih =>
    have hb : (b == 0) = false := by simpa using h b List.mem_cons_self
    rw [List.flatMap_cons, ih fun c hc => h c (List.mem_cons_of_mem _ hc)]
    simp [attrByte, hb]

/-- No double quote has been opened. -/
def AttrState.Single : AttrState → Prop
  | .quoted q _ _ => q = 39
  | _ => True

theorem attrStep_single {a : AttrState} {b : UInt8} (ha : a.Single) (h62 : b ≠ 62) (h34 : b ≠ 34) :
    ∃ new a', attrStep a b = (new, some a') ∧ a'.Single := by
  have e62 : (b == 62) = false := by simpa using h62
  have e34 : (b == 34) = false := by simpa using h34
  cases a with
  | before =>
    simp only [attrStep, e62]
    split <;> exact ⟨_, _, rfl, trivial⟩
  | name n =>
    simp only [attrStep, e62]
    repeat' split
    all_goals first
      | exact ⟨_, _, rfl, trivial⟩
      | simp at *
  | afterName n =>
    simp only [attrStep, e62]
    repeat' split
    all_goals first
      | exact ⟨_, _, rfl, trivial⟩
      | simp at *
  | beforeValue n =>
    simp only [attrStep, e62, e34, Bool.false_or]
    split
    · exact ⟨_, _, rfl, trivial⟩
    · split
      · next h => exact ⟨_, _, rfl, beq_iff_eq.mp h⟩
      · exact ⟨_, _, rfl, trivial⟩
  | quoted q n v =>
    simp only [attrStep]
    split
    · exact ⟨_, _, rfl, trivial⟩
    · exact ⟨_, _, rfl, ha⟩
  | unquoted n v =>
    simp only [attrStep, e62]
    split
    · exact ⟨_, _, rfl, trivial⟩
    · exact ⟨_, _, rfl, trivial⟩

/-- The attributes that bytes complete inside a tag, and where they leave it. -/
def attrRun : AttrState → Bytes → List Attr × AttrState
  | a, [] => ([], a)
  | a, b :: x =>
    match attrStep a b with
    | (new, some a') => (new ++ (attrRun a' x).1, (attrRun a' x).2)
    | (new, none) => (new, a)

/-- Bytes without `>` and without double quotes leave the tag open. -/
theorem run_attrs {x : Bytes} (h : ∀ b ∈ x, b ≠ 62 ∧ b ≠ 34) (n : Bytes) (as : List Attr)
    {a : AttrState} (ha : a.Single) :
    run (.inTag n as a) x = ([], .inTag n (as ++ (attrRun a x).1) (attrRun a x).2) ∧
      (attrRun a x).2.Single := by
  induction x generalizing as a with
  | nil => simp [run, attrRun, ha]
  | cons b x ih =>
    obtain ⟨h62, h34⟩ := h b List.mem_cons_self
    obtain ⟨new, a', hs, ha'⟩ := attrStep_single ha h62 h34
    obtain ⟨hr, hsingle⟩ := ih (fun c hc => h c (List.mem_cons_of_mem _ hc)) (as ++ new) ha'
    simp only [attrRun, hs]
    refine ⟨?_, hsingle⟩
    simp [run, feed, hs, hr]

/-- What follows the first quote of a text. -/
def afterQuote (y : Bytes) : Bytes := (y.dropWhile (· != 39)).drop 1

/-- A single-quoted value ends at the first quote, and what follows is read as attributes. -/
theorem run_value {y : Bytes} (h : ∀ b ∈ y, b ≠ 62 ∧ b ≠ 34) (hq : (39 : UInt8) ∈ y) (n : Bytes)
    (as : List Attr) (m v : Bytes) :
    run (.inTag n as (.quoted 39 m v)) y =
      ([], .inTag n (as ++ (m, v ++ (y.takeWhile (· != 39)).flatMap attrByte) ::
        (attrRun .before (afterQuote y)).1) (attrRun .before (afterQuote y)).2) ∧
      (attrRun .before (afterQuote y)).2.Single := by
  induction y generalizing v with
  | nil => cases hq
  | cons b y ih =>
    have hy : ∀ c ∈ y, c ≠ 62 ∧ c ≠ 34 := fun c hc => h c (List.mem_cons_of_mem _ hc)
    by_cases hb : b = 39
    · subst hb
      obtain ⟨hr, hsingle⟩ := run_attrs (a := .before) hy n (as ++ [(m, v)]) trivial
      refine ⟨?_, hsingle⟩
      simp [run, feed, attrStep, afterQuote, hr]
    · have hq' : (39 : UInt8) ∈ y := (List.mem_cons.mp hq).resolve_left (Ne.symm hb)
      have hbeq : (b == 39) = false := by simpa using hb
      have hbne : (b != 39) = true := by simpa using hb
      have hafter : afterQuote (b :: y) = afterQuote y := by
        simp [afterQuote, hbne]
      obtain ⟨hr, hsingle⟩ := ih hy hq' (v ++ attrByte b)
      rw [hafter]
      refine ⟨?_, hsingle⟩
      simp [run, feed, attrStep, hbeq, hbne, hr]

/-- Attributes read before stand before those that are read on. -/
theorem run_inTag_prefix {n : Bytes} {bs more : List Attr} {a : AttrState} {y : Bytes}
    {ts : List Token} {q : State} (h : run (.inTag n bs a) y = (.tag ⟨n, more⟩ :: ts, q))
    (as : List Attr) : run (.inTag n (as ++ bs) a) y = (.tag ⟨n, as ++ more⟩ :: ts, q) := by
  induction y generalizing bs a with
  | nil => cases h
  | cons b y ih =>
    simp only [run, feed] at h ⊢
    cases hs : attrStep a b with
    | mk new next =>
      cases next with
      | some a' =>
        simp only [hs] at h ⊢
        rw [List.append_assoc]
        exact ih h
      | none =>
        simp only [hs] at h ⊢
        obtain ⟨hts, rfl⟩ := Prod.mk.inj h
        obtain ⟨htag, rfl⟩ := List.cons.inj hts
        cases htag
        rw [List.append_assoc]
        rfl

/-- The attribute whose name is read, but which is not complete yet. -/
def AttrState.pending : AttrState → List Bytes
  | .before => []
  | .name n | .afterName n | .beforeValue n | .quoted _ n _ | .unquoted n _ => [n]

/-! ## Reading on -/

section
variable {σ : Type} (f : σ → Token → σ)

/-- Read a piece of a page: the tokenizer and what takes its tokens. -/
def readOn (p : State × σ) (x : Bytes) : State × σ :=
  ((run p.1 x).2, (run p.1 x).1.foldl f p.2)

theorem readOn_append (p : State × σ) (x y : Bytes) :
    readOn f p (x ++ y) = readOn f (readOn f p x) y := by
  simp [readOn, run_append]

theorem readOn_nil (p : State × σ) : readOn f p [] = p := rfl

theorem readOn_text {x : Bytes} (h : ∀ b ∈ x, b ≠ 60) (t : Bytes) (r : σ) :
    readOn f (.data t, r) x = (.data (t ++ x), r) := by
  simp [readOn, run_text h]

end

end Inventory.Html
