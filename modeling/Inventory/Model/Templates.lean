import Inventory.Model.Statements

/-!
# Statements built as text

The log INSERTs and the INSERT of add_asset.php put texts between single quotes
without escaping them. `logInsert_reads` and `addInsert_reads` say exactly when
such a statement is the INSERT of one row its template writes: when every text
in it is clean. Whatever the texts are, it names the template's table and
columns (`target_logInsert`, `target_addInsert`). The query of index.php is read
as its template when the texts in it are clean (`readLogin_clean`).
-/

namespace Inventory

open Php Sql

/-- The statement is a single INSERT of one row, and each text of `texts` is one literal of it,
with itself as source and as value. -/
def Reads (sql table : Bytes) (cols texts : List Bytes) : Prop :=
  parseInsert sql = some ⟨table, cols, texts.map fun t => ⟨t, t⟩⟩

instance (sql table : Bytes) (cols texts : List Bytes) : Decidable (Reads sql table cols texts) :=
  by unfold Reads; infer_instance

theorem clean_implode (ts : List Bytes) :
    clean (implode (str ", ") ts) = ts.all clean := by
  unfold implode
  induction ts with
  | nil => rfl
  | cons t ts ih =>
    cases ts with
    | nil => simp
    | cons u us =>
      have hsep : str ", " = [44, 32] := by decide
      rw [hsep] at ih ⊢
      rw [List.intercalate_cons_cons, List.append_assoc, List.cons_append,
        clean_append_cons (by decide) (by decide) (by decide) (by decide), List.cons_append,
        List.nil_append, clean_cons (by decide) (by decide), ih]
      rfl

/-! ## The log INSERT -/

def logHead : Bytes := str "INSERT INTO history_log (username, action) VALUES ("

theorem logInsert_eq (u a : Bytes) :
    logInsert u a = logHead ++ row ([(u, str ", ")] ++ [(a, str ")")]) := by
  have h1 : str "INSERT INTO history_log (username, action) VALUES ('" = logHead ++ [39] := by
    decide
  have h2 : str "', '" = 39 :: str ", " ++ [39] := by decide
  have h3 : str "')" = 39 :: str ")" := by decide
  simp [logInsert, row, h1, h2, h3]

theorem logInsert_right_injective (u : Bytes) : Function.Injective (logInsert u) := fun a b h => by
  unfold logInsert at h
  exact List.append_cancel_left (List.append_cancel_right h)

theorem isHead_logHead : IsHead logHead logTable [str "username"] (str "action") := by
  decide

theorem logInsert_reads (u a : Bytes) :
    Reads (logInsert u a) logTable logCols [u, a] ↔ clean u = true ∧ clean a = true := by
  have h := parseInsert_row_iff [(u, str ", ")] a (str ")") isHead_logHead
    (List.forall_mem_singleton.mpr (by show IsSep 44 (str ", "); decide)) (by decide)
  rw [Reads, logInsert_eq]
  simpa [logCols] using h

theorem target_logInsert (u a : Bytes) : target (logInsert u a) = some (logTable, logCols) := by
  rw [logInsert_eq]
  exact target_head isHead_logHead _

theorem clean_editedAction (assetId : Bytes) : clean (editedAction assetId) = clean assetId :=
  clean_append (List.all_iff_forall_prop.mp (by decide)) assetId

theorem clean_deletedAction (ids : List Bytes) : clean (deletedAction ids) = ids.all clean :=
  (clean_append (List.all_iff_forall_prop.mp (by decide)) _).trans (clean_implode ids)

theorem clean_addedAction (new_id : Int) : clean (addedAction new_id) = true := by
  rw [addedAction, clean_append (List.all_iff_forall_prop.mp (by decide))]
  refine clean_of_forall fun b hb => ?_
  rcases Bytes.mem_intText hb with rfl | hd
  · decide
  · exact ⟨by rintro rfl; exact absurd hd (by decide), by rintro rfl; exact absurd hd (by decide)⟩

/-! ## The INSERT of add_asset.php -/

def addHead : Bytes :=
  str "INSERT INTO assets (
      asset_tag, tag_number, brand_model, serial_number, processor,
      hdd_ssd_size, recovery_tape, office_version, memory,
      ip_address, user, email_address
    ) VALUES (
      "

/-- The texts but the last, with what separates them. -/
def addPlaces (f : Bytes → Bytes) : List (Bytes × Bytes) :=
  [(f (str "asset_tag"), str ", "), (f (str "tag_number"), str ", "),
    (f (str "brand_model"), str ", "), (f (str "serial_number"), str ", "),
    (f (str "processor"), str ",\n      "), (f (str "hdd_ssd_size"), str ", "),
    (f (str "recovery_tape"), str ", "), (f (str "office_version"), str ", "),
    (f (str "memory"), str ",\n      "), (f (str "ip_address"), str ", "),
    (f (str "user"), str ", ")]

set_option maxRecDepth 20000 in
theorem addInsert_eq (f : Bytes → Bytes) : addInsert f =
    addHead ++ row (addPlaces f ++ [(f (str "email_address"), str "\n    )")]) := by
  have h1 : str "INSERT INTO assets (
      asset_tag, tag_number, brand_model, serial_number, processor,
      hdd_ssd_size, recovery_tape, office_version, memory,
      ip_address, user, email_address
    ) VALUES (
      '" = addHead ++ [39] := by decide
  have h2 : str "', '" = 39 :: str ", " ++ [39] := by decide
  have h3 : str "',
      '" = 39 :: str ",\n      " ++ [39] := by decide
  have h4 : str "'
    )" = 39 :: str "\n    )" := by decide
  unfold addInsert addPlaces
  rw [h1, h2, h3, h4]
  generalize str ", " = comma
  generalize str ",\n      " = commaLine
  generalize str "\n    )" = close
  simp [row]

theorem isSep_addPlaces (f : Bytes → Bytes) : ∀ p ∈ addPlaces f, IsSep 44 p.2 := by
  have h1 : IsSep 44 (str ", ") := by decide
  have h2 : IsSep 44 (str ",\n      ") := by decide
  simp [addPlaces, h1, h2]

set_option maxRecDepth 20000 in
theorem isHead_addHead :
    IsHead addHead (str "assets") addFields.dropLast (str "email_address") := by decide

theorem addInsert_reads (f : Bytes → Bytes) :
    Reads (addInsert f) (str "assets") addFields (addFields.map f) ↔
      ∀ c ∈ addFields, clean (f c) = true := by
  have h := parseInsert_row_iff (addPlaces f) (f (str "email_address")) (str "\n    )")
    isHead_addHead (isSep_addPlaces f) (by decide)
  rw [Reads, addInsert_eq]
  simpa [addPlaces, addFields] using h

theorem target_addInsert (f : Bytes → Bytes) :
    target (addInsert f) = some (str "assets", addFields) := by
  rw [addInsert_eq]
  exact target_head isHead_addHead _

/-! ## The login query -/

def loginHead : Bytes := str "SELECT * FROM users WHERE username="

theorem loginSelect_eq (u pw : Bytes) : loginSelect u pw =
    loginHead ++ (39 :: (u ++ (39 :: (str " AND password=" ++ (39 :: (pw ++ [39])))))) := by
  have h1 : str "SELECT * FROM users WHERE username='" = loginHead ++ [39] := by decide
  have h2 : str "' AND password='" = 39 :: (str " AND password=" ++ [39]) := by decide
  simp [loginSelect, h1, h2, show str "'" = [39] from rfl]

theorem tokens_loginSelect {u pw : Bytes} (hu : clean u = true) (hp : clean pw = true) :
    tokens (loginSelect u pw) = some [.word (str "SELECT"), .punct 42, .word (str "FROM"),
      .word (str "users"), .word (str "WHERE"), .word (str "username"), .punct 61, .lit u u,
      .word (str "AND"), .word (str "password"), .punct 61, .lit pw pw] := by
  have hhead : run .gap loginHead = ([.word (str "SELECT"), .punct 42, .word (str "FROM"),
      .word (str "users"), .word (str "WHERE"), .word (str "username"), .punct 61], .gap) := by
    decide
  have hopen : run .gap [39] = ([], .lit 39 [] []) := rfl
  have hclose : ∀ t : Bytes, run (.lit 39 t t) [39] = ([], .quote 39 t t) := fun _ => rfl
  have hmid : ∀ t : Bytes, run (.quote 39 t t) (str " AND password=") =
      ([.lit t t, .word (str "AND"), .word (str "password"), .punct 61], .gap) := by
    intro t
    rfl
  have happ : ∀ (b : UInt8) (s : Bytes), b :: s = [b] ++ s := fun _ _ => rfl
  rw [loginSelect_eq, tokens, tokensFrom_append hhead, happ 39, tokensFrom_append hopen,
    tokensFrom_append (run_clean hu [] []), happ 39 (_ ++ _), List.nil_append,
    tokensFrom_append (hclose u), tokensFrom_append (hmid u), happ 39 (_ ++ _),
    tokensFrom_append hopen, tokensFrom_append (run_clean hp [] []), List.nil_append]
  rfl

theorem readLogin_clean {u pw : Bytes} (hu : clean u = true) (hp : clean pw = true) :
    readLogin (loginSelect u pw) = some (u, pw) := by
  unfold readLogin
  rw [tokens_loginSelect hu hp]
  rfl

theorem loginMatches_clean {sv : Server} {users : List User} {u pw : Bytes} (hu : clean u = true)
    (hp : clean pw = true) : loginMatches sv users (loginSelect u pw) =
      some (users.filter fun r => sv.same r.username u && sv.same r.password pw).length := by
  rw [loginMatches, readLogin_clean hu hp]
  rfl

/-! ## All templates -/

/-- The INSERTs that the pages build as text. -/
inductive Template : Bytes → Prop where
  | edited (username assetId : Bytes) : Template (logInsert username (editedAction assetId))
  | deleted (username : Bytes) (ids : List Bytes) :
      Template (logInsert username (deletedAction ids))
  | added (username : Bytes) (new_id : Int) : Template (logInsert username (addedAction new_id))
  | asset (f : Bytes → Bytes) : Template (addInsert f)

theorem handle_queries (sha256 : Bytes → Bytes) (q : Request) (s : Session) :
    (handle sha256 q s).Emits fun st => ∀ sql, st = .query sql → Template sql := by
  refine (handle_emits sha256 q s).mono fun st h sql hst => ?_
  subst hst
  unfold Sends at h
  split at h
  · obtain ⟨_, h⟩ := h
    cases h
  · obtain ⟨_, h⟩ := h
    cases h
  · cases h
  · cases h.2
  · rcases h.2 with h | ⟨_, h⟩ <;> cases h
  · obtain ⟨u, p, -, -, h | ⟨n, h⟩ | h⟩ := h <;> cases h
    exact .added u n
  · obtain ⟨u, -, h | h | h | ⟨_, h⟩⟩ := h <;> cases h
    exact .edited u _
  · obtain ⟨p, -, h⟩ := h
    rw [Stmt.query.inj h]
    exact .asset _
  · obtain ⟨u, p, -, -, h | h | h⟩ := h <;> cases h
    exact .deleted u _
  · obtain ⟨-, _, _, h⟩ := h
    cases h
  · cases h.2

end Inventory
