import Inventory.Lib.Bytes

/-!
# UTF-8

`valid` accepts the well-formed UTF-8 texts: no overlong form, no surrogate,
nothing above U+10FFFF. `encode` gives the bytes of a code point.
-/

namespace Inventory.Utf8

/-- Between characters, or owing `n + 1` continuation bytes, the next one in `[lo, hi]`. -/
inductive State where
  | start
  | tail (n lo hi : Nat)
  deriving DecidableEq, Repr

/-- The state after the first byte of a character. -/
def first (b : Nat) : Option State :=
  if b < 0x80 then some .start
  else if 0xC2 ≤ b ∧ b ≤ 0xDF then some (.tail 0 0x80 0xBF)
  else if b = 0xE0 then some (.tail 1 0xA0 0xBF)
  else if b = 0xED then some (.tail 1 0x80 0x9F)
  else if 0xE1 ≤ b ∧ b ≤ 0xEF then some (.tail 1 0x80 0xBF)
  else if b = 0xF0 then some (.tail 2 0x90 0xBF)
  else if 0xF1 ≤ b ∧ b ≤ 0xF3 then some (.tail 2 0x80 0xBF)
  else if b = 0xF4 then some (.tail 2 0x80 0x8F)
  else none

def step : State → UInt8 → Option State
  | .start, b => first b.toNat
  | .tail n lo hi, b =>
    if lo ≤ b.toNat ∧ b.toNat ≤ hi then
      match n with
      | 0 => some .start
      | n + 1 => some (.tail n 0x80 0xBF)
    else none

def run : State → Bytes → Option State
  | q, [] => some q
  | q, b :: l =>
    match step q b with
    | some q' => run q' l
    | none => none

def valid (s : Bytes) : Bool := run .start s == some .start

theorem run_append (q : State) (s t : Bytes) :
    run q (s ++ t) = (run q s).bind fun q' => run q' t := by
  induction s generalizing q with
  | nil => rfl
  | cons b s ih =>
    simp only [List.cons_append, run]
    cases step q b with
    | none => rfl
    | some q' => exact ih q'

theorem step_ascii {b : UInt8} (h : b.toNat < 0x80) : step .start b = some .start := by
  simp [step, first, h]

theorem valid_of_ascii {s : Bytes} (h : ∀ b ∈ s, b.toNat < 0x80) : valid s = true := by
  have : run .start s = some .start := by
    induction s with
    | nil => rfl
    | cons b s ih =>
      rw [run, step_ascii (h b List.mem_cons_self)]
      exact ih fun c hc => h c (List.mem_cons_of_mem _ hc)
  simp [valid, this]

/-- A continuation byte that is owed is none of ASCII. -/
def State.Owes : State → Prop
  | .start => True
  | .tail _ lo _ => 0x80 ≤ lo

theorem step_owes {q q' : State} {b : UInt8} (hq : q.Owes) (h : step q b = some q') : q'.Owes := by
  cases q with
  | start =>
    simp only [step, first] at h
    repeat' split at h
    all_goals cases h
    all_goals simp [State.Owes]
  | tail n lo hi =>
    simp only [step] at h
    split at h
    · cases n with
      | zero =>
        cases h
        trivial
      | succ n =>
        cases h
        exact Nat.le_refl 0x80
    · cases h

theorem run_owes {q q' : State} {s : Bytes} (hq : q.Owes) (h : run q s = some q') : q'.Owes := by
  induction s generalizing q with
  | nil =>
    cases h
    exact hq
  | cons b s ih =>
    rw [run] at h
    split at h
    · next p hp => exact ih (step_owes hq hp) h
    · cases h

/-- A character that is ASCII does not end another one. -/
theorem valid_of_append_ascii {s t : Bytes} {b : UInt8} (hb : b.toNat < 0x80)
    (h : valid (s ++ b :: t) = true) : valid s = true := by
  rw [valid, beq_iff_eq, run_append] at h
  obtain ⟨q, hq, hrun⟩ := Option.bind_eq_some_iff.mp h
  cases q with
  | start => rw [valid, hq, beq_self_eq_true]
  | tail n lo hi =>
    have howes : State.Owes .start := trivial
    have hlo : 0x80 ≤ lo := run_owes howes hq
    have hnone : step (.tail n lo hi) b = none := if_neg (by omega)
    rw [run, hnone] at hrun
    cases hrun

/-- Cut before an ASCII character, a text stays valid. -/
theorem valid_takeWhile {s : Bytes} {b : UInt8} (hb : b.toNat < 0x80) (h : valid s = true) :
    valid (s.takeWhile (· != b)) = true := by
  have hs : s.takeWhile (· != b) ++ s.dropWhile (· != b) = s := List.takeWhile_append_dropWhile
  cases hd : s.dropWhile (· != b) with
  | nil =>
    rw [hd, List.append_nil] at hs
    rw [hs]
    exact h
  | cons c t =>
    have hc : (s.dropWhile (· != b)).head? = some c := by rw [hd]; rfl
    have hcb : c = b := by
      have := List.head?_dropWhile_not (· != b) s
      rw [hc] at this
      simpa using this
    rw [hd, hcb] at hs
    rw [← hs] at h
    exact valid_of_append_ascii hb h

/-- An ASCII character is met between characters only. -/
theorem step_eq_start {q q' : State} {b : UInt8} (hq : q.Owes) (hb : b.toNat < 0x80)
    (h : step q b = some q') : q = .start ∧ q' = .start := by
  cases q with
  | start =>
    rw [step_ascii hb] at h
    exact ⟨rfl, (Option.some.inj h).symm⟩
  | tail n lo hi =>
    have hlo : 0x80 ≤ lo := hq
    have hnone : step (.tail n lo hi) b = none := if_neg (by omega)
    rw [hnone] at h
    cases h

/-- Valid texts in place of ASCII characters leave a text valid. -/
theorem valid_flatMap {g : UInt8 → Bytes} (hhigh : ∀ b, 0x80 ≤ b.toNat → g b = [b])
    (hlow : ∀ b, b.toNat < 0x80 → valid (g b) = true) {s : Bytes} (h : valid s = true) :
    valid (s.flatMap g) = true := by
  have hrun : ∀ q : State, q.Owes → run q s = some .start →
      run q (s.flatMap g) = some .start := by
    clear h
    induction s with
    | nil => exact fun q _ hq => hq
    | cons b s ih =>
      intro q hq hr
      rw [run] at hr
      split at hr
      · next q' hstep =>
        rw [List.flatMap_cons, run_append]
        by_cases hb : b.toNat < 0x80
        · obtain ⟨rfl, rfl⟩ := step_eq_start hq hb hstep
          rw [beq_iff_eq.mp (hlow b hb)]
          exact ih .start hq hr
        · rw [hhigh b (by omega), run, hstep]
          exact ih q' (step_owes hq hstep) hr
      · cases hr
  rw [valid, beq_iff_eq] at h ⊢
  exact hrun .start trivial h

def byte (n : Nat) : UInt8 := UInt8.ofNat n

def encode (u : Nat) : Bytes :=
  if u < 0x80 then [byte u]
  else if u < 0x800 then [byte (0xC0 + u / 64), byte (0x80 + u % 64)]
  else if u < 0x10000 then
    [byte (0xE0 + u / 4096), byte (0x80 + u / 64 % 64), byte (0x80 + u % 64)]
  else
    [byte (0xF0 + u / 262144), byte (0x80 + u / 4096 % 64), byte (0x80 + u / 64 % 64),
      byte (0x80 + u % 64)]

end Inventory.Utf8
