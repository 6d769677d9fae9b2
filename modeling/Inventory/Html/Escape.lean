import Mathlib.Data.List.TakeWhile
import Inventory.Lib.Utf8

/-!
# Escaping

`htmlspecialchars` with the PHP 7.1 defaults: `&`, `<`, `>` and the double quote
are escaped, the single quote is not, and a text that is not UTF-8 gives the
empty text. `unescape` reads the four references back.
-/

namespace Inventory.Html

def escapeByte (b : UInt8) : Bytes :=
  if b == 38 then str "&amp;"
  else if b == 34 then str "&quot;"
  else if b == 60 then str "&lt;"
  else if b == 62 then str "&gt;"
  else [b]

def escape (s : Bytes) : Bytes := s.flatMap escapeByte

/-- `htmlspecialchars`, ENT_COMPAT and UTF-8. -/
def htmlspecialchars (s : Bytes) : Bytes := if Utf8.valid s then escape s else []

/-- Read the references of `escape`; any other text stands for itself. -/
def unescape : Bytes → Bytes
  | 38 :: 97 :: 109 :: 112 :: 59 :: s => 38 :: unescape s
  | 38 :: 113 :: 117 :: 111 :: 116 :: 59 :: s => 34 :: unescape s
  | 38 :: 108 :: 116 :: 59 :: s => 60 :: unescape s
  | 38 :: 103 :: 116 :: 59 :: s => 62 :: unescape s
  | b :: s => b :: unescape s
  | [] => []

theorem unescape_cons {b : UInt8} (h : b ≠ 38) (s : Bytes) :
    unescape (b :: s) = b :: unescape s := by
  rw [unescape.eq_def]
  split <;> simp_all

theorem unescape_escapeByte (b : UInt8) (s : Bytes) :
    unescape (escapeByte b ++ s) = b :: unescape s := by
  unfold escapeByte
  split
  · next h => rw [beq_iff_eq.mp h]; rfl
  · next h38 =>
    split
    · next h => rw [beq_iff_eq.mp h]; rfl
    · split
      · next h => rw [beq_iff_eq.mp h]; rfl
      · split
        · next h => rw [beq_iff_eq.mp h]; rfl
        · exact unescape_cons (by simpa using h38) s

@[simp] theorem unescape_escape (s : Bytes) : unescape (escape s) = s := by
  induction s with
  | nil => rfl
  | cons b s ih =>
    rw [escape, List.flatMap_cons, unescape_escapeByte]
    exact congrArg (b :: ·) ih

theorem mem_escapeByte {b c : UInt8} (h : c ∈ escapeByte b) : c ≠ 34 ∧ c ≠ 60 ∧ c ≠ 62 := by
  unfold escapeByte at h
  split at h
  · exact (List.all_iff_forall_prop.mp (by decide) : ∀ c ∈ str "&amp;", c ≠ 34 ∧ c ≠ 60 ∧ c ≠ 62) c h
  · split at h
    · exact (List.all_iff_forall_prop.mp (by decide) : ∀ c ∈ str "&quot;", c ≠ 34 ∧ c ≠ 60 ∧ c ≠ 62) c h
    · split at h
      · exact (List.all_iff_forall_prop.mp (by decide) : ∀ c ∈ str "&lt;", c ≠ 34 ∧ c ≠ 60 ∧ c ≠ 62) c h
      · split at h
        · exact (List.all_iff_forall_prop.mp (by decide) : ∀ c ∈ str "&gt;", c ≠ 34 ∧ c ≠ 60 ∧ c ≠ 62) c h
        · next h1 h2 h3 h4 =>
          rw [List.mem_singleton.mp h]
          simp only [beq_iff_eq] at h2 h3 h4
          exact ⟨h2, h3, h4⟩

/-- An escaped text holds no double quote and no angle bracket. -/
theorem mem_escape {s : Bytes} {b : UInt8} (h : b ∈ escape s) : b ≠ 34 ∧ b ≠ 60 ∧ b ≠ 62 := by
  obtain ⟨c, -, hb⟩ := List.mem_flatMap.mp h
  exact mem_escapeByte hb

/-- A byte that no reference contains and that is not escaped ends the escaped text where it
ends the text itself. -/
theorem takeWhile_escape {q : UInt8} (hq : ∀ b, b ≠ q → q ∉ escapeByte b)
    (hq' : escapeByte q = [q]) (s : Bytes) :
    (escape s).takeWhile (· != q) = escape (s.takeWhile (· != q)) := by
  induction s with
  | nil => rfl
  | cons b s ih =>
    by_cases hb : b = q
    · subst hb
      simp [escape, hq']
    · have hall : (escapeByte b).takeWhile (· != q) = escapeByte b :=
        List.takeWhile_eq_self_iff.mpr fun c hc => by
          have : c ≠ q := fun e => hq b hb (e ▸ hc)
          simpa using this
      have hb' : (b != q) = true := by simpa using hb
      rw [List.takeWhile_cons_of_pos (p := (· != q)) hb', escape, List.flatMap_cons, escape, List.flatMap_cons,
        List.takeWhile_append_of_pos (List.takeWhile_eq_self_iff.mp hall)]
      exact congrArg (escapeByte b ++ ·) ih

theorem quote_not_mem_escapeByte (b : UInt8) (h : b ≠ 39) : (39 : UInt8) ∉ escapeByte b := by
  unfold escapeByte
  split
  · decide
  · split
    · decide
    · split
      · decide
      · split
        · decide
        · simpa using h.symm

/-- The single quote is left as it is. -/
theorem mem_quote_escape (s : Bytes) : (39 : UInt8) ∈ escape s ↔ (39 : UInt8) ∈ s := by
  constructor
  · intro h
    obtain ⟨b, hb, hq⟩ := List.mem_flatMap.mp h
    by_cases hb' : b = 39
    · exact hb' ▸ hb
    · exact absurd hq (quote_not_mem_escapeByte b hb')
  · exact fun h => List.mem_flatMap.mpr ⟨39, h, by decide⟩

theorem takeWhile_quote_escape (s : Bytes) :
    (escape s).takeWhile (· != 39) = escape (s.takeWhile (· != 39)) :=
  takeWhile_escape quote_not_mem_escapeByte (by decide) s

/-- A text without `&` has no reference to read. -/
theorem unescape_of_plain {s : Bytes} (h : ∀ b ∈ s, b ≠ 38) : unescape s = s := by
  induction s with
  | nil => rfl
  | cons b s ih =>
    rw [unescape_cons (h b List.mem_cons_self), ih fun c hc => h c (List.mem_cons_of_mem _ hc)]

/-- What a page shows of a text: one that is not UTF-8 is not shown. -/
def readable (s : Bytes) : Bytes := if Utf8.valid s then s else []

theorem htmlspecialchars_eq (s : Bytes) : htmlspecialchars s = escape (readable s) := by
  unfold htmlspecialchars readable
  split <;> rfl

/-- Numbers and dates are left as they are. -/
theorem htmlspecialchars_of_digits {s : Bytes} (h : ∀ b ∈ s, b = 45 ∨ Bytes.isDigit b = true) :
    htmlspecialchars s = s := by
  have hrange : ∀ b ∈ s, 45 ≤ b.toNat ∧ b.toNat ≤ 57 := fun b hb => Bytes.range_of_digit (h b hb)
  have hvalid : Utf8.valid s = true := Utf8.valid_of_ascii fun b hb => by
    have := hrange b hb
    omega
  rw [htmlspecialchars, if_pos hvalid]
  clear hvalid h
  induction s with
  | nil => rfl
  | cons b s ih =>
    have hb := hrange b List.mem_cons_self
    have hself : escapeByte b = [b] := by
      have hne : ∀ c : UInt8, c.toNat < 45 ∨ 57 < c.toNat → (b == c) = false := by
        intro c hc
        rw [beq_eq_false_iff_ne]
        rintro rfl
        omega
      simp [escapeByte, hne 38 (by decide), hne 34 (by decide), hne 60 (by decide),
        hne 62 (by decide)]
    rw [escape, List.flatMap_cons, hself, ← escape, ih fun c hc => hrange c (List.mem_cons_of_mem _ hc)]
    rfl

end Inventory.Html
