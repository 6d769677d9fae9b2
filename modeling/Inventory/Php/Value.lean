import Mathlib.Algebra.Group.Int.Defs
import Mathlib.Algebra.Group.Nat.Defs
import Mathlib.Data.List.Nodup
import Mathlib.Data.List.TakeWhile
import Inventory.Lib.Bytes

/-!
# PHP values

The values a request and a session hold, with the conversions of PHP 7.1 on a
32-bit build: truth (`truthy`), text (`toText`), numbers read from text
(`numericPrefix`), loose equality (`looseEq`) and the integer of a parameter
bound with type `i` (`bindInt`). A float is an exact decimal: the rounding to a
double, from the 16th significant digit on, is not modelled.
-/

namespace Inventory.Php

/-! ## Floats -/

/-- The decimal `mant * 10 ^ exp`. -/
structure Decimal where
  mant : Int
  exp : Int
  deriving DecidableEq, Repr

namespace Decimal

def ofInt (n : Int) : Decimal := ⟨n, 0⟩

def le (a b : Decimal) : Bool :=
  let e := min a.exp b.exp
  decide (a.mant * 10 ^ (a.exp - e).toNat ≤ b.mant * 10 ^ (b.exp - e).toNat)

def eq (a b : Decimal) : Bool := a.le b && b.le a

/-- The integer part. -/
def trunc (d : Decimal) : Int :=
  if 0 ≤ d.exp then d.mant * 10 ^ d.exp.toNat else d.mant.tdiv (10 ^ (-d.exp).toNat)

/-- The significant digits of `n` (at most 14, rounded) and where the point stands. -/
def significant (n : Nat) (exp : Int) : Bytes × Int :=
  let ds := Bytes.natText n
  let n' := if ds.length ≤ 14 then n else (n / 10 ^ (ds.length - 15) + 5) / 10
  let ds' := Bytes.natText n'
  let carry : Int := if 14 < ds'.length then 1 else 0
  ((ds'.reverse.dropWhile (· == 48)).reverse, ds.length + exp + carry)

/-- The text of a float with `precision = 14` (`%.14G`). -/
def toText (d : Decimal) : Bytes :=
  if d.mant = 0 then str "0" else
  let (ds, pt) := significant d.mant.natAbs d.exp
  let sign := if d.mant < 0 then str "-" else []
  let fill (n : Nat) (s : Bytes) : Bytes := s ++ List.replicate (n - s.length) 48
  let body :=
    if pt < -3 ∨ 14 < pt then
      ds.take 1 ++ str "." ++ (if ds.length ≤ 1 then str "0" else ds.drop 1) ++ str "E" ++
        (if pt - 1 < 0 then str "-" else str "+") ++ Bytes.natText (pt - 1).natAbs
    else if pt < 0 then str "0." ++ List.replicate pt.natAbs 48 ++ ds
    else
      let n := pt.toNat
      if ds.length ≤ n then fill n ds
      else (if n = 0 then str "0" else ds.take n) ++ str "." ++ ds.drop n
  sign ++ body

end Decimal

example : (Decimal.mk 125 (-1)).toText = str "12.5" := by decide
example : (Decimal.mk 1 25).toText = str "1.0E+25" := by decide
example : (Decimal.mk (-5) (-3)).toText = str "-0.005" := by decide

/-! ## Values -/

/-- An array key. -/
inductive Key where
  | int (n : Int)
  | str (s : Bytes)
  deriving DecidableEq, Repr

/-- A value; an unset variable or a missing key reads as `null`. -/
inductive Value where
  | null
  | bool (b : Bool)
  | int (n : Int)
  | float (d : Decimal)
  | str (s : Bytes)
  | arr (entries : List (Key × Value))
  deriving Repr, Inhabited

namespace Value

/-- `isset`. -/
def isSet : Value → Bool
  | null => false
  | _ => true

def truthy : Value → Bool
  | null => false
  | bool b => b
  | int n => n != 0
  | float d => d.mant != 0
  | str s => !(s == [] || s == Inventory.str "0")
  | arr es => !es.isEmpty

/-- `empty`. -/
def isEmpty (v : Value) : Bool := !v.truthy

/-- The text of a value in a string. -/
def toText : Value → Bytes
  | null => []
  | bool b => if b then Inventory.str "1" else []
  | int n => Bytes.intText n
  | float d => d.toText
  | str s => s
  | arr _ => Inventory.str "Array"

/-- The elements of an array, in order. -/
def elems : Value → List Value
  | arr es => es.map Prod.snd
  | _ => []

/-- The array with the keys `0, 1, …` (`array_values`). -/
def list (vs : List Value) : Value :=
  arr (vs.zipIdx.map fun p => (.int p.2, p.1))

@[simp] theorem elems_list (vs : List Value) : (list vs).elems = vs := by
  simp only [list, elems, List.map_map]
  exact List.zipIdx_map_fst 0 vs

/-- The entry of an array under a key. -/
def lookup (k : Key) (es : List (Key × Value)) : Option Value :=
  (es.find? fun e => e.1 == k).map Prod.snd

/-- `$v[0]`: an element of an array, the first byte of a string, nothing of another value. -/
def index0 : Value → Value
  | arr es => (lookup (.int 0) es).getD null
  | str (b :: _) => str [b]
  | _ => null

theorem index0_list (v : Value) (vs : List Value) : (list (v :: vs)).index0 = v := by
  simp [list, index0, lookup, List.zipIdx_cons]

end Value

/-! ## Numbers in text -/

def PHP_INT_MAX : Int := 2147483647
def PHP_INT_MIN : Int := -2147483648

inductive Num where
  | int (n : Int)
  | float (d : Decimal)
  deriving DecidableEq, Repr

namespace Num

/-- An integer literal; out of range it is a float. -/
def ofInt (n : Int) : Num :=
  if PHP_INT_MIN ≤ n ∧ n ≤ PHP_INT_MAX then .int n else .float (.ofInt n)

def toDecimal : Num → Decimal
  | int n => .ofInt n
  | float d => d

end Num

def isSpace (b : UInt8) : Bool := b == 32 || b == 9 || b == 10 || b == 13 || b == 11 || b == 12

def splitSign : Bytes → Bool × Bytes
  | 45 :: r => (true, r)
  | 43 :: r => (false, r)
  | r => (false, r)

def signed (neg : Bool) (n : Nat) : Int := if neg then -n else n

/-- An exponent part `e±digits`. -/
def exponent : Bytes → Option (Int × Bytes)
  | [] => none
  | c :: r =>
    if c == 101 || c == 69 then
      let (neg, r) := splitSign r
      match r.takeWhile Bytes.isDigit with
      | [] => none
      | ds => some (signed neg (Bytes.readNat ds), r.dropWhile Bytes.isDigit)
    else none

/-- The number a text starts with, and the rest of the text. -/
def numericPrefix (s : Bytes) : Option (Num × Bytes) :=
  let (neg, r) := splitSign (s.dropWhile isSpace)
  let ds := r.takeWhile Bytes.isDigit
  let frac : Option (Bytes × Bytes) := match r.dropWhile Bytes.isDigit with
    | 46 :: r => some (r.takeWhile Bytes.isDigit, r.dropWhile Bytes.isDigit)
    | _ => none
  match frac with
  | some (fs, r) =>
    if ds.isEmpty && fs.isEmpty then none else
    let m := signed neg (Bytes.readNat (ds ++ fs))
    match exponent r with
    | some (e, r) => some (.float ⟨m, e - fs.length⟩, r)
    | none => some (.float ⟨m, -fs.length⟩, r)
  | none =>
    if ds.isEmpty then none else
    let r := r.dropWhile Bytes.isDigit
    match exponent r with
    | some (e, r) => some (.float ⟨signed neg (Bytes.readNat ds), e⟩, r)
    | none => some (.ofInt (signed neg (Bytes.readNat ds)), r)

/-- The number a numeric string is. -/
def numeric (s : Bytes) : Option Num :=
  match numericPrefix s with
  | some (n, []) => some n
  | _ => none

example : numericPrefix (str "12abc") = some (.int 12, str "abc") := by decide
example : numeric (str " 1.5e3") = some (.float ⟨15, 2⟩) := by decide

theorem takeWhile_isDigit_natText (n : Nat) :
    (Bytes.natText n).takeWhile Bytes.isDigit = Bytes.natText n :=
  List.takeWhile_eq_self_iff.mpr fun _ h => Bytes.isDigit_of_mem_natText h

theorem dropWhile_isDigit_natText (n : Nat) : (Bytes.natText n).dropWhile Bytes.isDigit = [] :=
  List.dropWhile_eq_nil_iff.mpr fun _ h => Bytes.isDigit_of_mem_natText h

theorem isSpace_of_isDigit {b : UInt8} (h : Bytes.isDigit b = true) : isSpace b = false := by
  cases hs : isSpace b with
  | false => rfl
  | true =>
    simp only [isSpace, Bool.or_eq_true, beq_iff_eq] at hs
    rcases hs with ((((rfl | rfl) | rfl) | rfl) | rfl) | rfl <;> exact absurd h (by decide)

/-- A digit starts neither white space nor a sign. -/
theorem splitSign_natText (n : Nat) :
    splitSign ((Bytes.natText n).dropWhile isSpace) = (false, Bytes.natText n) := by
  cases h : Bytes.natText n with
  | nil => exact absurd h (Bytes.natText_ne_nil n)
  | cons b l =>
    have hb : Bytes.isDigit b = true := Bytes.isDigit_of_mem_natText (n := n) (by simp [h])
    have hs : isSpace b = false := isSpace_of_isDigit hb
    have hd : (b :: l).dropWhile isSpace = b :: l := List.dropWhile_cons_of_neg (by simp [hs])
    rw [hd]
    unfold splitSign
    split
    · next he => cases he; exact absurd hb (by decide)
    · next he => cases he; exact absurd hb (by decide)
    · rfl

theorem splitSign_intText (i : Int) :
    splitSign ((Bytes.intText i).dropWhile isSpace) = (decide (i < 0), Bytes.natText i.natAbs) := by
  cases i with
  | ofNat n =>
    rw [Bytes.intText, splitSign_natText]
    simp
  | negSucc n =>
    simp only [Bytes.intText]
    rw [List.dropWhile_cons_of_neg (by decide)]
    simp [splitSign, Int.negSucc_lt_zero]

theorem numericPrefix_intText (i : Int) :
    numericPrefix (Bytes.intText i) = some (.ofInt i, []) := by
  unfold numericPrefix
  rw [splitSign_intText]
  have he : (Bytes.natText i.natAbs).isEmpty = false := by
    simp [List.isEmpty_eq_false_iff, Bytes.natText_ne_nil]
  have hs : signed (decide (i < 0)) i.natAbs = i := by
    unfold signed
    split
    · next h => simp only [decide_eq_true_eq] at h; omega
    · next h => simp only [decide_eq_true_eq] at h; omega
  simp [takeWhile_isDigit_natText, dropWhile_isDigit_natText, he, exponent, hs]

/-! ## Loose equality -/

/-- The number a scalar is compared as. -/
def Value.toDecimal : Value → Decimal
  | .int n => .ofInt n
  | .float d => d
  | .str s => match numericPrefix s with
    | some (n, _) => n.toDecimal
    | none => .ofInt 0
  | _ => .ofInt 0

/-- `==` on strings: as numbers when both are numeric. -/
def strEq (s t : Bytes) : Bool :=
  match numeric s, numeric t with
  | some a, some b => a.toDecimal.eq b.toDecimal
  | _, _ => s == t

mutual

/-- `==` of PHP 7.1. -/
def looseEq : Value → Value → Bool
  | .str s, .str t => strEq s t
  | .null, .str s => s.isEmpty
  | .str s, .null => s.isEmpty
  | .null, v => !v.truthy
  | v, .null => !v.truthy
  | .bool b, v => b == v.truthy
  | v, .bool b => v.truthy == b
  | .arr a, .arr b => a.length == b.length && looseEqEntries a b
  | .arr _, _ => false
  | _, .arr _ => false
  | a, b => a.toDecimal.eq b.toDecimal

/-- Every entry of the first array has a loosely equal one under its key in the second. -/
def looseEqEntries : List (Key × Value) → List (Key × Value) → Bool
  | [], _ => true
  | (k, v) :: rest, bs =>
    (match Value.lookup k bs with
      | some w => looseEq v w
      | none => false) && looseEqEntries rest bs

end

/-- `array_search`: the key of the first element loosely equal to the needle. -/
def array_search (needle : Value) (es : List (Key × Value)) : Option Key :=
  (es.find? fun e => looseEq needle e.2).map Prod.fst

/-- `unset($a[$k])`. -/
def unsetKey (k : Key) (es : List (Key × Value)) : List (Key × Value) :=
  es.filter fun e => !(e.1 == k)

/-- The keys of an array are its own, once each. -/
def Value.KeysNodup : Value → Prop
  | .arr es => (es.map Prod.fst).Nodup
  | _ => True

theorem Value.keysNodup_list (vs : List Value) : (Value.list vs).KeysNodup := by
  have hkeys : (vs.zipIdx.map fun p => (Key.int p.2, p.1)).map Prod.fst =
      (vs.zipIdx.map Prod.snd).map fun n : Nat => Key.int n := by
    simp only [List.map_map]
    rfl
  show ((vs.zipIdx.map fun p => (Key.int p.2, p.1)).map Prod.fst).Nodup
  rw [hkeys, List.zipIdx_map_snd]
  exact List.Nodup.map (fun a b h => Int.ofNat.inj (Key.int.inj h)) (List.nodup_range' 1)

/-- Only the entry of the key goes. -/
theorem unsetKey_head {k : Key} {v : Value} {es : List (Key × Value)}
    (h : (Value.arr ((k, v) :: es)).KeysNodup) : unsetKey k ((k, v) :: es) = es := by
  have hk : k ∉ es.map Prod.fst := (List.nodup_cons.mp h).1
  unfold unsetKey
  rw [List.filter_cons_of_neg (by simp)]
  refine List.filter_eq_self.mpr fun e he => ?_
  have hne : e.1 ≠ k := fun heq => hk (heq ▸ List.mem_map_of_mem he)
  simpa using hne

theorem unsetKey_tail {k k' : Key} {v : Value} {es : List (Key × Value)}
    (h : (Value.arr ((k, v) :: es)).KeysNodup) (hk' : k' ∈ es.map Prod.fst) :
    unsetKey k' ((k, v) :: es) = (k, v) :: unsetKey k' es := by
  have hk : k ∉ es.map Prod.fst := (List.nodup_cons.mp h).1
  have hne : k ≠ k' := fun heq => hk (heq ▸ hk')
  exact List.filter_cons_of_pos (by simpa using hne)

/-- Unsetting the found key removes the first loosely equal element. -/
theorem elems_unsetKey {needle : Value} {key : Key} {es : List (Key × Value)}
    (hk : (Value.arr es).KeysNodup) (h : array_search needle es = some key) :
    (unsetKey key es).map Prod.snd = (es.map Prod.snd).eraseP (looseEq needle) := by
  induction es with
  | nil => cases h
  | cons e es ih =>
    obtain ⟨k, v⟩ := e
    have htail : (Value.arr es).KeysNodup := (List.nodup_cons.mp hk).2
    unfold array_search at h
    rw [List.find?_cons] at h
    cases hv : looseEq needle v with
    | true =>
      rw [hv] at h
      cases h
      rw [unsetKey_head hk, List.map_cons, List.eraseP_cons_of_pos hv]
    | false =>
      rw [hv] at h
      obtain ⟨e, he, rfl⟩ := Option.map_eq_some_iff.mp h
      rw [unsetKey_tail hk (List.mem_map_of_mem (List.mem_of_find?_eq_some he)), List.map_cons,
        List.map_cons, List.eraseP_cons_of_neg (by simp [hv])]
      exact congrArg (v :: ·) (ih htail h)

theorem array_search_eq_none {needle : Value} {es : List (Key × Value)} :
    array_search needle es = none ↔ ∀ v ∈ es.map Prod.snd, looseEq needle v ≠ true := by
  unfold array_search
  rw [Option.map_eq_none_iff, List.find?_eq_none, List.forall_mem_map]

/-! ## Bound parameters -/

/-- A number as an integer parameter; out of range it is sent as text, which no `int` column
equals. -/
def Num.bindInt (n : Num) : Option Int :=
  if (Decimal.ofInt PHP_INT_MIN).le n.toDecimal && n.toDecimal.le (.ofInt PHP_INT_MAX) then
    some n.toDecimal.trunc
  else none

/-- A parameter bound with type `i`; `none` compares equal to no row's value. -/
def Value.bindInt : Value → Option Int
  | .null => none
  | .bool b => some (if b then 1 else 0)
  | .int n => some n
  | .float d => (Num.float d).bindInt
  | .str s => match numericPrefix s with
    | some (n, _) => n.bindInt
    | none => some 0
  | .arr es => some (if es.isEmpty then 0 else 1)

/-- A parameter bound with type `s`; `none` is NULL. -/
def Value.bindStr : Value → Option Bytes
  | .null => none
  | v => some v.toText

/-! ## Text functions -/

def isTrimmed (b : UInt8) : Bool :=
  b == 32 || b == 9 || b == 10 || b == 13 || b == 0 || b == 11

def trimText (s : Bytes) : Bytes :=
  ((s.dropWhile isTrimmed).reverse.dropWhile isTrimmed).reverse

/-- `trim`; of an array it is `null`. -/
def trim : Value → Value
  | .arr _ => .null
  | v => .str (trimText v.toText)

def implode (glue : Bytes) (parts : List Bytes) : Bytes := glue.intercalate parts

/-! ## Numbers as parameters -/

theorem Decimal.le_ofInt (a b : Int) : (ofInt a).le (ofInt b) = decide (a ≤ b) := by
  simp [le, ofInt]

theorem Decimal.eq_ofInt (a b : Int) : (ofInt a).eq (ofInt b) = decide (a = b) := by
  simp only [eq, le_ofInt, ← Bool.decide_and]
  exact decide_eq_decide.mpr (by omega)

theorem Num.toDecimal_ofInt (n : Int) : (Num.ofInt n).toDecimal = .ofInt n := by
  unfold Num.ofInt
  split <;> rfl

/-- The decimal text of an integer in range binds as that integer. -/
theorem bindInt_intText {i : Int} (h1 : PHP_INT_MIN ≤ i) (h2 : i ≤ PHP_INT_MAX) :
    (Value.str (Bytes.intText i)).bindInt = some i := by
  simp only [Value.bindInt, numericPrefix_intText, Num.bindInt, Num.toDecimal_ofInt,
    Decimal.le_ofInt, h1, h2, decide_true, Bool.and_self, ↓reduceIte]
  simp [Decimal.trunc, Decimal.ofInt]

/-- Decimal texts are loosely equal only for the same number. -/
theorem strEq_intText (i j : Int) :
    strEq (Bytes.intText i) (Bytes.intText j) = decide (i = j) := by
  simp [strEq, numeric, numericPrefix_intText, Num.toDecimal_ofInt, Decimal.eq_ofInt]

end Inventory.Php
