import Inventory.Model.Pages

/-!
# A server and a database

`Server.canonical` accepts dates and numbers in canonical form only and compares
texts byte by byte; it shows that the laws of `Server` can be met. `sample` is a
small database with two assets, on which the pages can be evaluated.
-/

namespace Inventory

open Lib Php

def readInt : Bytes → Int
  | 45 :: ds => -(Bytes.readNat ds)
  | ds => Bytes.readNat ds

theorem readInt_intText (i : Int) : readInt (Bytes.intText i) = i := by
  cases i with
  | ofNat n =>
    rw [Bytes.intText, readInt, Bytes.readNat_natText]
    · rfl
    · exact fun _ => Bytes.natText_head_ne_minus
  | negSucc n =>
    rw [Bytes.intText, readInt, Bytes.readNat_natText]
    rfl

/-- Numbers in canonical decimal form that an `int(11)` holds. -/
def canonicalInt (s : Bytes) : Option Int :=
  if INT_MIN ≤ readInt s ∧ readInt s ≤ INT_MAX ∧ Bytes.intText (readInt s) = s then
    some (readInt s)
  else none

def Server.canonical : Server where
  castDate s := if Date.isStored s then some s else none
  castDate_stored s d h := by
    split at h
    · cases h
      assumption
    · cases h
  castDate_self s h := if_pos h
  castDate_date s d _ h := by
    split at h
    · cases h
      rfl
    · cases h
  castDate_empty := rfl
  castInt := canonicalInt
  castInt_range s i h := by
    unfold canonicalInt at h
    split at h
    · next hc =>
      cases h
      exact ⟨hc.1, hc.2.1⟩
    · cases h
  castInt_intText i h1 h2 := by simp [canonicalInt, readInt_intText, h1, h2]
  castStamp s := if Bytes.natText (Bytes.readNat s) = s then some (Bytes.readNat s) else none
  stampText := Bytes.natText
  castStamp_stampText n := by simp
  same s t := s == t
  same_refl s := by simp
  same_symm s t h := by simpa using (beq_iff_eq.mp h).symm
  same_trans s t u h1 h2 := by simpa using (beq_iff_eq.mp h1).trans (beq_iff_eq.mp h2)
  distinct l := l.dedup
  distinct_subset l v h := List.mem_dedup.mp h

/-- A hash of the length of SHA-256; it stands for the hash where no login is served. -/
def zeroHash (_ : Bytes) : Bytes := List.replicate 64 48

/-- A clock that stands, rows with equal timestamps as they stand. -/
def Env.at (now : Nat) : Env where
  now := now
  order := .stable _
  message := []
  rows := none
  matched _ := none

def sampleText : Col → Bytes
  | .type_os_type => str "WINDOWS 10"
  | .processor => str "Intel Core i5"
  | .type_of_hard_disk => str "SSD"
  | .size_of_disk => str "500 GB"
  | .memory => str "4 GB"
  | .office_version => str "OFFICE 365"
  | .type_of_user => str "EMAIL USER"
  | .email_address => str "user@example.com"
  | .date_purchased => str "2024-01-15"
  | .ups => str "YES"
  | .recovery_type => str "DVD"
  | .unit_type => str "DESKTOP"
  | _ => str "ASSET-33"

def sampleFields : Fields where
  val c := some (sampleText c)
  holds c s h := by
    obtain rfl : sampleText c = s := Option.some.inj h
    cases c <;> decide

def sampleAsset (id : Int) (h1 : INT_MIN ≤ id) (h2 : id ≤ INT_MAX) : Asset :=
  ⟨id, h1, h2, sampleFields, 1⟩

/-- A log with the next id 108. -/
def sampleLog (rows : List LogRow) (hs : rows.Pairwise fun a b => a.id < b.id)
    (hb : ∀ r ∈ rows, r.id < 108) : Table LogRow LogRow.id :=
  { rows, next := 108, sorted := hs, below := hb, pos := by decide }

/-- The assets 33 and 34, an empty log and two users. -/
def sample : Db where
  assets := {
    rows := [sampleAsset 33 (by decide) (by decide), sampleAsset 34 (by decide) (by decide)]
    next := 1016
    sorted := by decide
    below := by decide
    pos := by decide }
  log := sampleLog [] .nil (by simp)
  users := [⟨str "admin", str "1234"⟩, ⟨str "Ahkmenrah", str "1234"⟩]

/-- The asset 33 of the sample. -/
def asset33 : Asset := sampleAsset 33 (by decide) (by decide)

/-- The sample values without a memory. -/
def noMemory : Fields where
  val c := if c = .memory then none else sampleFields c
  holds c s h := by
    split at h
    · cases h
    · exact sampleFields.holds c s h

/-- The asset 33 without a memory. -/
def assetNoMemory : Asset := { sampleAsset 33 (by decide) (by decide) with fields := noMemory }

def sampleNoMemory : Db :=
  { sample with assets := {
      rows := [assetNoMemory]
      next := 1016
      sorted := by decide
      below := by decide
      pos := by decide } }

/-- The sample values with 32 GB of memory. -/
def largeMemory : Fields where
  val c := if c = .memory then some (str "32 GB") else sampleFields c
  holds c s h := by
    split at h
    · next hc =>
      subst hc
      cases h
      decide
    · exact sampleFields.holds c s h

/-- The assets 33 with 32 GB and 34 with 4 GB of memory. -/
def sampleMemories : Db :=
  { sample with assets := {
      rows := [{ sampleAsset 33 (by decide) (by decide) with fields := largeMemory },
        sampleAsset 34 (by decide) (by decide)]
      next := 1016
      sorted := by decide
      below := by decide
      pos := by decide } }

/-- The sessions of one logged-in user over a database. -/
def loggedIn (d : Db) : PageState Nat where
  db := d
  sess _ := { user := some (str "admin") }
  flight _ := none

/-- A POST body with the given texts. -/
def posted (fs : List (Bytes × Bytes)) : Body :=
  .post fun n => match fs.find? fun f => f.1 == n with
    | some f => .str f.2
    | none => .null

/-- The edit form of the sample values under an id, submitted. -/
def sampleEdit (id : Bytes) : Request :=
  ⟨.edit_asset, posted (Col.all.map (fun c => (c.name, sampleText c)) ++
    [(str "id", id), (str "update", [])])⟩

/-- The edit form of the sample values for the asset 33. -/
def samplePost : Post := (sampleEdit (str "33")).body.fields

/-- The assets 33 and 34, selected for deletion. -/
def sampleDelete : Post := fun n =>
  if n = str "selected_ids" then .str (str "[\"33\",\"34\"]") else .null

theorem sampleDelete_elems : (json_decode (sampleDelete (str "selected_ids"))).elems =
    [.str (str "33"), .str (str "34")] := by rfl

end Inventory
