import Mathlib.Algebra.Group.Nat.Defs
import Mathlib.Data.Bool.AllAny
import Mathlib.Data.List.Induction

/-!
# Byte strings

Texts are lists of bytes, as the program's language and the database see them.
`str` gives the UTF-8 bytes of a literal; `natText` and `intText` are the
decimal texts of numbers. A text is read as a number by `readNat`.
-/

namespace Inventory

abbrev Bytes := List UInt8

/-- The UTF-8 bytes of a literal. -/
def str (s : String) : Bytes := s.toUTF8.data.toList

namespace Bytes

/-! ## Decimal digits -/

def isDigit (b : UInt8) : Bool := decide (48 ≤ b.toNat) && decide (b.toNat ≤ 57)

def digitVal (b : UInt8) : Nat := b.toNat - 48

/-- The byte of an ASCII character. -/
def ofChar (c : Char) : UInt8 := UInt8.ofNat c.toNat

def natText (n : Nat) : Bytes := (Nat.toDigits 10 n).map ofChar

def intText : Int → Bytes
  | .ofNat n => natText n
  | .negSucc n => 45 :: natText (n + 1)

/-- The lower case of an ASCII letter. -/
def lower (b : UInt8) : UInt8 := if 65 ≤ b.toNat ∧ b.toNat ≤ 90 then b + 32 else b

/-- The number a run of digits writes. -/
def readNat (ds : Bytes) : Nat := ds.foldl (fun a b => 10 * a + digitVal b) 0

theorem readNat_lt {ds : Bytes} (h : ds.all isDigit = true) : readNat ds < 10 ^ ds.length := by
  induction ds using List.reverseRecOn with
  | nil => decide
  | append_singleton ds b ih =>
    simp only [List.all_append, List.all_cons, List.all_nil, Bool.and_true, Bool.and_eq_true] at h
    have hds := ih h.1
    simp only [isDigit, Bool.and_eq_true, decide_eq_true_eq] at h
    have hb : digitVal b ≤ 9 := by
      unfold digitVal
      omega
    have hread : readNat (ds ++ [b]) = 10 * readNat ds + digitVal b := by
      simp [readNat]
    rw [hread, List.length_append, List.length_singleton, Nat.pow_succ]
    omega

theorem toNat_of_isDigit {c : Char} (h : c.isDigit = true) : 48 ≤ c.toNat ∧ c.toNat ≤ 57 := by
  simp only [Char.isDigit, Bool.and_eq_true, decide_eq_true_eq] at h
  exact ⟨UInt32.le_iff_toNat_le.mp h.1, UInt32.le_iff_toNat_le.mp h.2⟩

theorem toNat_ofChar {c : Char} (h : c.isDigit = true) : (ofChar c).toNat = c.toNat := by
  have hc := toNat_of_isDigit h
  simp only [ofChar, UInt8.toNat_ofNat']
  omega

theorem isDigit_ofChar {c : Char} (h : c.isDigit = true) : isDigit (ofChar c) = true := by
  have hc := toNat_of_isDigit h
  simp only [isDigit, toNat_ofChar h, hc, decide_true, Bool.and_self]

theorem isDigit_of_mem_natText {n : Nat} {b : UInt8} (h : b ∈ natText n) : isDigit b = true := by
  obtain ⟨c, hc, rfl⟩ := List.mem_map.mp h
  exact isDigit_ofChar (Nat.isDigit_of_mem_toDigits (by decide) (by decide) hc)

theorem natText_ne_nil (n : Nat) : natText n ≠ [] := by
  simp [natText, Nat.toDigits_ne_nil]

theorem foldl_ofChar (l : List Char) (hl : ∀ c ∈ l, c.isDigit = true) (a : Nat) :
    (l.map ofChar).foldl (fun a b => 10 * a + digitVal b) a = Nat.ofDigitChars 10 l a := by
  induction l generalizing a with
  | nil => rfl
  | cons c l ih =>
    have hc := toNat_ofChar (hl c List.mem_cons_self)
    rw [List.map_cons, List.foldl_cons, ih (fun d hd => hl d (List.mem_cons_of_mem _ hd)),
      Nat.ofDigitChars_cons, digitVal, hc]
    rfl

@[simp] theorem readNat_natText (n : Nat) : readNat (natText n) = n := by
  unfold readNat natText
  rw [foldl_ofChar _ (fun c hc => Nat.isDigit_of_mem_toDigits (by decide) (by decide) hc)]
  exact Nat.ofDigitChars_ten_toDigits

theorem natText_injective : Function.Injective natText := fun a b h => by
  rw [← readNat_natText a, h, readNat_natText]

/-- The minus sign is no digit. -/
theorem natText_head_ne_minus {n : Nat} {l : Bytes} : natText n ≠ 45 :: l := by
  intro h
  have : isDigit 45 = true := isDigit_of_mem_natText (n := n) (by rw [h]; exact List.mem_cons_self)
  exact absurd this (by decide)

theorem intText_injective : Function.Injective intText := by
  intro a b h
  cases a with
  | ofNat a =>
    cases b with
    | ofNat b => exact congrArg Int.ofNat (natText_injective h)
    | negSucc b => exact absurd h natText_head_ne_minus
  | negSucc a =>
    cases b with
    | ofNat b => exact absurd h.symm natText_head_ne_minus
    | negSucc b =>
      have := natText_injective (List.cons.inj h).2
      rw [Nat.succ.inj this]

/-- Decimal texts hold digits and a minus sign only. -/
theorem mem_intText {i : Int} {b : UInt8} (h : b ∈ intText i) : b = 45 ∨ isDigit b = true := by
  cases i with
  | ofNat n => exact .inr (isDigit_of_mem_natText h)
  | negSucc n =>
    rcases List.mem_cons.mp h with rfl | h
    · exact .inl rfl
    · exact .inr (isDigit_of_mem_natText h)

/-- Numbers and dates are made of a small range of bytes. -/
theorem range_of_digit {b : UInt8} (h : b = 45 ∨ isDigit b = true) :
    45 ≤ b.toNat ∧ b.toNat ≤ 57 := by
  rcases h with rfl | hd
  · decide
  · simp only [isDigit, Bool.and_eq_true, decide_eq_true_eq] at hd
    omega

theorem intText_ne_nil (i : Int) : intText i ≠ [] := by
  cases i with
  | ofNat n => exact natText_ne_nil n
  | negSucc n => exact List.cons_ne_nil _ _

end Bytes

end Inventory
