import Inventory.Lib.Utf8
import Inventory.Php.Value

/-!
# `json_decode`

The decoder of PHP 7.1 with associative arrays, as a recursive descent over
bytes. A text that is not UTF-8, that breaks the grammar or that nests arrays
deeper than 512 decodes to `null`. Loops over elements, members and characters
take the length of the text as fuel, which they never use up: each round
consumes a byte.
-/

namespace Inventory.Php.Json

def skipWs (s : Bytes) : Bytes := s.dropWhile fun b => b == 32 || b == 9 || b == 10 || b == 13

/-- The rest of the text after a literal, in any letter case. -/
def literal : Bytes → Bytes → Option Bytes
  | [], s => some s
  | c :: l, b :: s => if b == c || b == c - 32 then literal l s else none
  | _ :: _, [] => none

/-! ## Strings -/

def hexVal (b : UInt8) : Option Nat :=
  let n := b.toNat
  if 48 ≤ n ∧ n ≤ 57 then some (n - 48)
  else if 97 ≤ n ∧ n ≤ 102 then some (n - 87)
  else if 65 ≤ n ∧ n ≤ 70 then some (n - 55)
  else none

def hex4 : Bytes → Option (Nat × Bytes)
  | a :: b :: c :: d :: s => do
    let a ← hexVal a
    let b ← hexVal b
    let c ← hexVal c
    let d ← hexVal d
    pure (((a * 16 + b) * 16 + c) * 16 + d, s)
  | _ => none

/-- What follows `\u`: one code unit, or a surrogate pair. -/
def unicodeEscape (s : Bytes) : Option (Bytes × Bytes) :=
  match hex4 s with
  | none => none
  | some (u, s) =>
    if 0xD800 ≤ u ∧ u < 0xDC00 then
      match s with
      | 92 :: 117 :: s =>
        match hex4 s with
        | some (v, s) =>
          if 0xDC00 ≤ v ∧ v < 0xE000 then
            some (Utf8.encode (0x10000 + (u - 0xD800) * 0x400 + (v - 0xDC00)), s)
          else none
        | none => none
      | _ => none
    else if 0xDC00 ≤ u ∧ u < 0xE000 then none
    else some (Utf8.encode u, s)

/-- What follows a backslash. -/
def escape : Bytes → Option (Bytes × Bytes)
  | 34 :: s => some ([34], s)
  | 92 :: s => some ([92], s)
  | 47 :: s => some ([47], s)
  | 98 :: s => some ([8], s)
  | 102 :: s => some ([12], s)
  | 110 :: s => some ([10], s)
  | 114 :: s => some ([13], s)
  | 116 :: s => some ([9], s)
  | 117 :: s => unicodeEscape s
  | _ => none

/-- A string after its opening quote. -/
def string : Nat → Bytes → Option (Bytes × Bytes)
  | 0, _ => none
  | _, [] => none
  | fuel + 1, b :: s =>
    if b == 34 then some ([], s)
    else if b == 92 then
      match escape s with
      | some (c, s) => (string fuel s).map fun p => (c ++ p.1, p.2)
      | none => none
    else if b.toNat < 32 then none
    else (string fuel s).map fun p => (b :: p.1, p.2)

/-! ## Numbers -/

/-- The digits of an integer part: no leading zero. -/
def intDigits (s : Bytes) : Option (Bytes × Bytes) :=
  match s with
  | 48 :: r => some ([48], r)
  | _ =>
    match s.takeWhile Bytes.isDigit with
    | [] => none
    | ds => some (ds, s.dropWhile Bytes.isDigit)

def number (s : Bytes) : Option (Value × Bytes) :=
  let (neg, r) := match s with
    | 45 :: r => (true, r)
    | _ => (false, s)
  match intDigits r with
  | none => none
  | some (ds, r) =>
    let frac : Option (Bytes × Bytes) := match r with
      | 46 :: r => match r.takeWhile Bytes.isDigit with
        | [] => none
        | fs => some (fs, r.dropWhile Bytes.isDigit)
      | _ => none
    match frac with
    | some (fs, r) =>
      let m := signed neg (Bytes.readNat (ds ++ fs))
      match exponent r with
      | some (e, r) => some (.float ⟨m, e - fs.length⟩, r)
      | none => some (.float ⟨m, -fs.length⟩, r)
    | none =>
      let m := signed neg (Bytes.readNat ds)
      match exponent r with
      | some (e, r) => some (.float ⟨m, e⟩, r)
      | none =>
        match Num.ofInt m with
        | .int n => some (.int n, r)
        | .float d => some (.float d, r)

/-! ## Values -/

/-- A key of an object: decimal texts of integers become integer keys. -/
def objectKey (s : Bytes) : Key :=
  match numericPrefix s with
  | some (.int n, []) => if Bytes.intText n = s then .int n else .str s
  | _ => .str s

/-- Set an entry: an existing key keeps its place. -/
def setEntry (k : Key) (v : Value) (es : List (Key × Value)) : List (Key × Value) :=
  if es.any (fun e => e.1 == k) then es.map fun e => if e.1 == k then (k, v) else e
  else es ++ [(k, v)]

section
variable (value : Bytes → Option (Value × Bytes))

/-- The elements of an array after its first. -/
def elements : Nat → Bytes → Option (List Value × Bytes)
  | 0, _ => none
  | fuel + 1, s =>
    match value (skipWs s) with
    | none => none
    | some (v, s) =>
      match skipWs s with
      | 93 :: s => some ([v], s)
      | 44 :: s => (elements fuel s).map fun p => (v :: p.1, p.2)
      | _ => none

/-- The members of an object after its first. -/
def members : Nat → List (Key × Value) → Bytes → Option (List (Key × Value) × Bytes)
  | 0, _, _ => none
  | fuel + 1, es, s =>
    match skipWs s with
    | 34 :: s =>
      match string (s.length + 1) s with
      | none => none
      | some (k, s) =>
        match skipWs s with
        | 58 :: s =>
          match value (skipWs s) with
          | none => none
          | some (v, s) =>
            match skipWs s with
            | 125 :: s => some (setEntry (objectKey k) v es, s)
            | 44 :: s => members fuel (setEntry (objectKey k) v es) s
            | _ => none
        | _ => none
    | _ => none

end

/-- A value that nests at most `depth` arrays; the text starts at its first byte. -/
def value : Nat → Bytes → Option (Value × Bytes)
  | depth, s =>
    match s with
    | [] => none
    | b :: r =>
      if b == 34 then (string (r.length + 1) r).map fun p => (.str p.1, p.2)
      else if b == 91 then
        match depth with
        | 0 => none
        | depth + 1 =>
          match skipWs r with
          | 93 :: r => some (.arr [], r)
          | _ => (elements (value depth) (r.length + 1) r).map fun p => (.list p.1, p.2)
      else if b == 123 then
        match depth with
        | 0 => none
        | depth + 1 =>
          match skipWs r with
          | 125 :: r => some (.arr [], r)
          | _ => (members (value depth) (r.length + 1) [] r).map fun p => (.arr p.1, p.2)
      else if b == 45 || Bytes.isDigit b then number s
      else
        match literal (str "null") s, literal (str "true") s, literal (str "false") s with
        | some r, _, _ => some (.null, r)
        | _, some r, _ => some (.bool true, r)
        | _, _, some r => some (.bool false, r)
        | _, _, _ => none

def decodeText (s : Bytes) : Value :=
  if Utf8.valid s then
    match value 512 (skipWs s) with
    | some (v, r) => if skipWs r = [] then v else .null
    | none => .null
  else .null

/-! ## Keys -/

theorem map_fst_map_replace (k : Key) (v : Value) (es : List (Key × Value)) :
    (es.map fun e => if e.1 == k then (k, v) else e).map Prod.fst = es.map Prod.fst := by
  rw [List.map_map]
  refine List.map_congr_left fun e _ => ?_
  show (if e.1 == k then (k, v) else e).1 = e.1
  split
  · next h => exact (beq_iff_eq.mp h).symm
  · rfl

theorem setEntry_nodup {k : Key} {v : Value} {es : List (Key × Value)}
    (h : (es.map Prod.fst).Nodup) : ((setEntry k v es).map Prod.fst).Nodup := by
  unfold setEntry
  split
  · rw [map_fst_map_replace]
    exact h
  · next hk =>
    rw [List.map_append, List.nodup_append]
    refine ⟨h, List.nodup_singleton k, fun a ha b hb hab => hk ?_⟩
    obtain ⟨e, he, rfl⟩ := List.mem_map.mp ha
    rw [List.mem_singleton.mp hb] at hab
    exact List.any_eq_true.mpr ⟨e, he, beq_iff_eq.mpr hab⟩

theorem members_nodup {val : Bytes → Option (Value × Bytes)} {fuel : Nat}
    {es es' : List (Key × Value)} {s r : Bytes} (h : (es.map Prod.fst).Nodup)
    (hm : members val fuel es s = some (es', r)) : (es'.map Prod.fst).Nodup := by
  induction fuel generalizing es s with
  | zero => cases hm
  | succ fuel ih =>
    unfold members at hm
    split at hm
    · split at hm
      · cases hm
      · split at hm
        · split at hm
          · cases hm
          · split at hm
            · cases hm
              exact setEntry_nodup h
            · exact ih (setEntry_nodup h) hm
            · cases hm
        · cases hm
    · cases hm

theorem number_keysNodup {s r : Bytes} {v : Value} (h : number s = some (v, r)) :
    v.KeysNodup := by
  unfold number at h
  dsimp only at h
  repeat' split at h
  all_goals cases h
  all_goals trivial

theorem value_keysNodup {depth : Nat} {s r : Bytes} {v : Value}
    (h : value depth s = some (v, r)) : v.KeysNodup := by
  unfold value at h
  split at h
  · cases h
  · split at h
    · obtain ⟨p, -, he⟩ := Option.map_eq_some_iff.mp h
      cases he
      trivial
    · split at h
      · split at h
        · cases h
        · split at h
          · cases h
            exact List.nodup_nil
          · obtain ⟨p, -, he⟩ := Option.map_eq_some_iff.mp h
            cases he
            exact Value.keysNodup_list _
      · split at h
        · split at h
          · cases h
          · split at h
            · cases h
              exact List.nodup_nil
            · obtain ⟨p, hp, he⟩ := Option.map_eq_some_iff.mp h
              cases he
              have hnil : (([] : List (Key × Value)).map Prod.fst).Nodup := List.nodup_nil
              exact members_nodup hnil hp
        · split at h
          · exact number_keysNodup h
          · split at h <;> cases h <;> trivial

theorem decodeText_keysNodup (s : Bytes) : (decodeText s).KeysNodup := by
  unfold decodeText
  split
  · split
    · next hv =>
      split
      · exact value_keysNodup hv
      · trivial
    · trivial
  · trivial

/-! ## Lists of texts -/

/-- The text needs no escape in a string. -/
def Unescaped (t : Bytes) : Prop := ∀ b ∈ t, 32 ≤ b.toNat ∧ b.toNat < 128 ∧ b ≠ 34 ∧ b ≠ 92

def quoted (t : Bytes) : Bytes := 34 :: (t ++ [34])

/-- What `JSON.stringify` writes for a list of texts that need no escape. -/
def stringify : List Bytes → Bytes
  | [] => [91, 93]
  | t :: ts => 91 :: (quoted t ++ (ts.flatMap fun u => 44 :: quoted u) ++ [93])

theorem skipWs_cons {b : UInt8} (h : (b == 32 || b == 9 || b == 10 || b == 13) = false) (s : Bytes) :
    skipWs (b :: s) = b :: s :=
  List.dropWhile_cons_of_neg (by simp [h])

theorem string_unescaped {t r : Bytes} {fuel : Nat} (ht : Unescaped t) (h : t.length < fuel) :
    string fuel (t ++ 34 :: r) = some (t, r) := by
  induction t generalizing fuel with
  | nil =>
    cases fuel with
    | zero => cases h
    | succ fuel => rfl
  | cons b t ih =>
    cases fuel with
    | zero => cases h
    | succ fuel =>
      obtain ⟨h32, -, hq, hs⟩ := ht b List.mem_cons_self
      have hrest := @ih fuel (fun c hc => ht c (List.mem_cons_of_mem _ hc)) (Nat.lt_of_succ_lt_succ h)
      rw [List.cons_append, string, if_neg (by simpa using hq), if_neg (by simpa using hs),
        if_neg (by omega), hrest]
      rfl

theorem value_quoted {t r : Bytes} {depth : Nat} (ht : Unescaped t) :
    value depth (quoted t ++ r) = some (.str t, r) := by
  have hs : string ((t ++ 34 :: r).length + 1) (t ++ 34 :: r) = some (t, r) := by
    refine string_unescaped ht ?_
    rw [List.length_append]
    omega
  have happ : quoted t ++ r = 34 :: (t ++ 34 :: r) := by simp [quoted]
  rw [happ, value.eq_def]
  simp only [beq_self_eq_true, ↓reduceIte, hs, Option.map_some]

/-- The elements are read one by one; the induction is on the texts after the first. -/
theorem elements_quoted {t : Bytes} {ts : List Bytes} {r : Bytes} {depth fuel : Nat}
    (h : ∀ u ∈ t :: ts, Unescaped u) (hf : ts.length < fuel) :
    elements (value depth) fuel (quoted t ++ (ts.flatMap fun u => 44 :: quoted u) ++ 93 :: r) =
      some ((t :: ts).map .str, r) := by
  induction ts generalizing t fuel with
  | nil =>
    cases fuel with
    | zero => cases hf
    | succ fuel =>
      have hv : value depth (quoted t ++ 93 :: r) = some (.str t, 93 :: r) :=
        value_quoted (h t List.mem_cons_self)
      rw [List.flatMap_nil, List.append_nil, elements]
      rw [show skipWs (quoted t ++ 93 :: r) = quoted t ++ 93 :: r from skipWs_cons rfl _, hv]
      rfl
  | cons u ts ih =>
    cases fuel with
    | zero => cases hf
    | succ fuel =>
      have hrest := @ih u fuel (fun v hv => h v (List.mem_cons_of_mem _ hv))
        (Nat.lt_of_succ_lt_succ hf)
      have happ : quoted t ++ ((u :: ts).flatMap fun u => 44 :: quoted u) ++ 93 :: r =
          quoted t ++ 44 :: (quoted u ++ (ts.flatMap fun u => 44 :: quoted u) ++ 93 :: r) := by
        simp
      rw [happ, elements, show skipWs (quoted t ++ _) = quoted t ++ _ from skipWs_cons rfl _,
        value_quoted (h t List.mem_cons_self)]
      dsimp only
      rw [skipWs_cons rfl]
      exact congrArg (Option.map fun p => (Value.str t :: p.1, p.2)) hrest

theorem length_le_quoted (ts : List Bytes) :
    ts.length ≤ (ts.flatMap fun u => 44 :: quoted u).length := by
  induction ts with
  | nil => exact Nat.le_refl 0
  | cons u ts ih =>
    simp only [List.length_cons, List.flatMap_cons, List.length_append]
    omega

theorem value_stringify {ts : List Bytes} {depth : Nat} (h : ∀ t ∈ ts, Unescaped t) :
    value (depth + 1) (stringify ts) = some (.list (ts.map .str), []) := by
  cases ts with
  | nil => rfl
  | cons t ts =>
    have hlen : ts.length < (quoted t ++ (ts.flatMap fun u => 44 :: quoted u) ++ [93]).length + 1 := by
      have hle := length_le_quoted ts
      simp only [List.length_append]
      omega
    have hel := @elements_quoted t ts [] depth _ h hlen
    rw [stringify, value.eq_def]
    simp only [show ((91 : UInt8) == 34) = false from rfl, Bool.false_eq_true, beq_self_eq_true,
      ↓reduceIte, hel, Option.map_some]
    rfl

theorem stringify_ascii {ts : List Bytes} (h : ∀ t ∈ ts, Unescaped t) :
    ∀ b ∈ stringify ts, b.toNat < 128 := by
  have hq : ∀ t, Unescaped t → ∀ b ∈ quoted t, b.toNat < 128 := by
    intro t ht b hb
    rcases List.mem_cons.mp hb with rfl | hb
    · decide
    · rcases List.mem_append.mp hb with hb | hb
      · exact (ht b hb).2.1
      · rw [List.mem_singleton.mp hb]
        decide
  intro b hb
  cases ts with
  | nil =>
    rcases List.mem_cons.mp hb with rfl | hb
    · decide
    · rw [List.mem_singleton.mp hb]
      decide
  | cons t ts =>
    rcases List.mem_cons.mp hb with rfl | hb
    · decide
    · rcases List.mem_append.mp hb with hb | hb
      · rcases List.mem_append.mp hb with hb | hb
        · exact hq t (h t List.mem_cons_self) b hb
        · obtain ⟨u, hu, hb⟩ := List.mem_flatMap.mp hb
          rcases List.mem_cons.mp hb with rfl | hb
          · decide
          · exact hq u (h u (List.mem_cons_of_mem _ hu)) b hb
      · rw [List.mem_singleton.mp hb]
        decide

/-- **A list of texts is decoded as it was written.** -/
theorem decodeText_stringify {ts : List Bytes} (h : ∀ t ∈ ts, Unescaped t) :
    decodeText (stringify ts) = .list (ts.map .str) := by
  have hws : skipWs (stringify ts) = stringify ts := by
    cases ts <;> exact skipWs_cons rfl _
  rw [decodeText, if_pos (Utf8.valid_of_ascii (stringify_ascii h)), hws, value_stringify h]
  rfl

end Json

/-- `json_decode($v, true)`: an array as argument is refused with a warning. -/
def json_decode (v : Value) : Value :=
  match v with
  | .arr _ => .null
  | v => Json.decodeText v.toText

/-- A decoded array has every key once. -/
theorem json_decode_keysNodup (v : Value) : (json_decode v).KeysNodup := by
  unfold json_decode
  split
  · trivial
  · exact Json.decodeText_keysNodup _

example : (json_decode (.str (str "[\"33\", 7]"))).elems.map Value.toText =
    [str "33", str "7"] := by decide
example : (json_decode (.str (str "[\"33\""))).isSet = false := by decide

end Inventory.Php
