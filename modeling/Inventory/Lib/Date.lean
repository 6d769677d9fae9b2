import Inventory.Lib.Bytes

/-!
# Calendar dates

Dates as their text `YYYY-MM-DD`; a year may have more than four digits.
`isStored` are the texts a DATE column gives back (zero parts included, and four
digits of the year), `isValid` those a date control accepts.
-/

namespace Inventory.Date

structure Parts where
  year : Nat
  month : Nat
  day : Nat
  deriving DecidableEq, Repr

/-- The parts of a date, read from its end: the year is what stands before month and day. -/
def parse (s : Bytes) : Option Parts :=
  match s.reverse with
  | d2 :: d1 :: s2 :: m2 :: m1 :: s1 :: ys =>
    if (d2 :: d1 :: m2 :: m1 :: ys).all Bytes.isDigit && s1 == 45 && s2 == 45 &&
        decide (4 ≤ ys.length) then
      some ⟨Bytes.readNat ys.reverse, Bytes.readNat [m1, m2], Bytes.readNat [d1, d2]⟩
    else none
  | _ => none

/-- Leap years; the year 0 of a zero date is none. -/
def isLeap (y : Nat) : Bool := y % 4 == 0 && (y % 100 != 0 || (y % 400 == 0 && y != 0))

def daysIn (y m : Nat) : Nat :=
  if m = 2 then (if isLeap y then 29 else 28)
  else if m = 4 ∨ m = 6 ∨ m = 9 ∨ m = 11 then 30
  else 31

def Parts.stored (p : Parts) : Bool :=
  decide (p.month ≤ 12) && decide (p.day ≤ 31) &&
    (p.month == 0 || decide (p.day ≤ daysIn p.year p.month))

def Parts.valid (p : Parts) : Bool :=
  p.stored && decide (1 ≤ p.year) && decide (1 ≤ p.month) && decide (1 ≤ p.day)

def isStored (s : Bytes) : Bool := s.length == 10 && (parse s).any Parts.stored

def isValid (s : Bytes) : Bool := (parse s).any Parts.valid

theorem mem_of_parse {s : Bytes} {p : Parts} (h : parse s = some p) {b : UInt8} (hb : b ∈ s) :
    b = 45 ∨ Bytes.isDigit b = true := by
  unfold parse at h
  rw [← List.mem_reverse] at hb
  split at h
  · next d2 d1 s2 m2 m1 s1 ys hs =>
    split at h
    · next hc =>
      simp only [List.all_cons, Bool.and_eq_true, beq_iff_eq] at hc
      obtain ⟨⟨⟨⟨a1, a2, a3, a4, hy⟩, b1⟩, b2⟩, -⟩ := hc
      rw [hs] at hb
      simp only [List.mem_cons] at hb
      rcases hb with rfl | rfl | rfl | rfl | rfl | rfl | hb
      · exact .inr a1
      · exact .inr a2
      · exact .inl b2
      · exact .inr a3
      · exact .inr a4
      · exact .inl b1
      · exact .inr (List.all_eq_true.mp hy b hb)
    · cases h
  · cases h

/-- A date with valid parts is made of digits and hyphens. -/
theorem mem_of_any {s : Bytes} {P : Parts → Bool} (h : (parse s).any P = true) {b : UInt8}
    (hb : b ∈ s) : b = 45 ∨ Bytes.isDigit b = true := by
  cases hp : parse s with
  | none => simp [hp] at h
  | some p => exact mem_of_parse hp hb

theorem mem_of_isStored {s : Bytes} (h : isStored s = true) {b : UInt8} (hb : b ∈ s) :
    b = 45 ∨ Bytes.isDigit b = true :=
  mem_of_any (Bool.and_eq_true_iff.mp h).2 hb

theorem mem_of_isValid {s : Bytes} (h : isValid s = true) {b : UInt8} (hb : b ∈ s) :
    b = 45 ∨ Bytes.isDigit b = true :=
  mem_of_any h hb

/-- A stored date has four digits for its year. -/
theorem year_of_isStored {s : Bytes} {p : Parts} (h : isStored s = true) (hp : parse s = some p) :
    p.year ≤ 9999 := by
  have hlen : s.length = 10 := beq_iff_eq.mp (Bool.and_eq_true_iff.mp h).1
  rw [← List.length_reverse] at hlen
  unfold parse at hp
  split at hp
  · next d2 d1 s2 m2 m1 s1 ys hs =>
    split at hp
    · next hc =>
      cases hp
      simp only [List.all_cons, Bool.and_eq_true] at hc
      have hy : ys.reverse.all Bytes.isDigit = true := by simpa using hc.1.1.1.2.2.2.2
      have hlt := Bytes.readNat_lt hy
      rw [hs] at hlen
      simp only [List.length_cons] at hlen
      rw [List.length_reverse, show ys.length = 4 by omega] at hlt
      show Bytes.readNat ys.reverse ≤ 9999
      omega
    · cases hp
  · cases hp

theorem isStored_ne_nil {s : Bytes} (h : isStored s = true) : s ≠ [] := by
  rintro rfl
  exact absurd h (by decide)

example : isValid (str "2024-02-29") = true := by decide
example : (isStored (str "12345-06-07"), isValid (str "12345-06-07")) = (false, true) := by decide
example : isStored (str "2023-02-29") = false := by decide
example : (isStored (str "0000-00-00"), isValid (str "0000-00-00")) = (true, false) := by decide

end Inventory.Date
