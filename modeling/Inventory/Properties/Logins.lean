import Inventory.Model.Sample
import Inventory.Model.Serving

/-!
# The two login pages

login.php compares the posted password with the stored one and sets `user`;
index.php compares its SHA-256 inside the query and sets `username`, which no
page looks at. So in a session that is not logged in the two
agree only on what both refuse (`logins_agree_iff`).
-/

namespace Inventory

open Lib Php Sql

/-- One user has the trimmed username, and the posted password is the stored one. -/
def LoginMatch (sv : Server) (d : Db) (p : Post) : Prop :=
  ∃ row, (d.users.filter fun r => (trim (p (str "username"))).bindStr.any (sv.same r.username)) =
    [row] ∧ p (str "password") = .str row.password

/-- One user has the username and the hash of the password. A text that breaks out of its literal
selects what the database chooses for the statement. -/
def IndexMatch (sha256 : Bytes → Bytes) (sv : Server) (e : Env) (d : Db) (p : Post) : Prop :=
  let u := (p (str "username")).toText
  let pw := passwordHash sha256 (p (str "password"))
  if clean u ∧ clean pw then
    (d.users.filter fun r => sv.same r.username u && sv.same r.password pw).length = 1
  else (loginMatches sv d.users (loginSelect u pw)).or (e.matched d) = some 1

/-- The pages behind the login. -/
def guardedPages : List Page := [.dashboard, .masterlist, .new_entry, .edit_asset]

/-- No page sends the session to the login. -/
def LoggedIn (sha256 : Bytes → Bytes) (sv : Server) (s : Session) : Prop :=
  ∀ page ∈ guardedPages, ∀ b env d,
    ((handle sha256 ⟨page, b⟩ s).run (exec sv) env d).1.2 ≠ .redirect (str "login.php")

section
variable (sha256 : Bytes → Bytes) (sv : Server) (s : Session) (p : Post) (env : Nat → Env) (d : Db)

/-- index.php accepts the posted username and password if and only if login.php does, and after
either of them accepts the session is logged in. -/
structure LoginsAgree : Prop where
  accept : ((index sha256 s (.post p)).run (exec sv) env d).1.2 = .redirect (str "dashboard.php") ↔
    ((login s (.post p)).run (exec sv) env d).1.2 = .redirect (str "dashboard.php")
  index : ((index sha256 s (.post p)).run (exec sv) env d).1.2 = .redirect (str "dashboard.php") →
    LoggedIn sha256 sv ((index sha256 s (.post p)).run (exec sv) env d).1.1
  login : ((login s (.post p)).run (exec sv) env d).1.2 = .redirect (str "dashboard.php") →
    LoggedIn sha256 sv ((login s (.post p)).run (exec sv) env d).1.1

end

/-! ## When the pages accept -/

section
variable {sha256 : Bytes → Bytes} {sv : Server} {s : Session} {p : Post} {env : Nat → Env} {d : Db}

theorem login_accepts :
    ((login s (.post p)).run (exec sv) env d).1.2 = .redirect (str "dashboard.php") ↔
      LoginMatch sv d p := by
  refine run_send_ends (.selectUser _)
    (P := fun (users : List User) (a : Session × Response) =>
      a.2 = .redirect (str "dashboard.php") ↔
        ∃ row, users = [row] ∧ p (str "password") = .str row.password)
    (fun (users : List User) => ?_) env d
  split
  · next row =>
    split
    · next pw hpw =>
      split
      · next hrow =>
        subst hrow
        exact iff_of_true rfl ⟨row, rfl, hpw⟩
      · next hrow =>
        refine iff_of_false (fun he => by cases he) ?_
        rintro ⟨r, hr, he⟩
        cases hr
        rw [hpw] at he
        exact hrow (Value.str.inj he)
    · next hno =>
      refine iff_of_false (fun he => by cases he) ?_
      rintro ⟨r, hr, he⟩
      exact hno _ he
  · next hno =>
    refine iff_of_false (fun he => by cases he) ?_
    rintro ⟨r, hr, -⟩
    exact hno r hr

theorem index_accepts :
    ((index sha256 s (.post p)).run (exec sv) env d).1.2 = .redirect (str "dashboard.php") ↔
      IndexMatch sha256 sv (env 0) d p := by
  have hreply : ((index sha256 s (.post p)).run (exec sv) env d).1.2 =
      .redirect (str "dashboard.php") ↔
        (loginMatches sv d.users (loginSelect (p (str "username")).toText
          (passwordHash sha256 (p (str "password"))))).or ((env 0).matched d) = some 1 := by
    refine run_send_ends (.selectLogin _)
      (P := fun (rows : Option Nat) (a : Session × Response) =>
        a.2 = .redirect (str "dashboard.php") ↔ rows = some 1)
      (fun (rows : Option Nat) => ?_) env d
    split
    · next h => exact iff_of_true rfl h
    · next h => exact iff_of_false (fun he => by cases he) h
  rw [hreply, IndexMatch]
  split
  · next h => rw [loginMatches_clean h.1 h.2, Option.some_or, Option.some_inj]
  · exact Iff.rfl

/-- index.php logs nobody in. -/
theorem index_user : ((index sha256 s (.post p)).run (exec sv) env d).1.1.user = s.user := by
  rcases (ends_index s sha256 (.post p)).run (exec sv) env d with h | ⟨u, h⟩
  · rw [h]
  · rw [h]

theorem login_user
    (h : ((login s (.post p)).run (exec sv) env d).1.2 = .redirect (str "dashboard.php")) :
    ((login s (.post p)).run (exec sv) env d).1.1.user ≠ none := by
  revert h
  refine run_send_ends (.selectUser _)
    (P := fun (_ : List User) (a : Session × Response) =>
      a.2 = .redirect (str "dashboard.php") → a.1.user ≠ none)
    (fun (users : List User) => ?_) env d
  split
  · split
    · split
      · exact fun _ => Option.some_ne_none _
      · exact fun he => by cases he
    · exact fun he => by cases he
  · exact fun he => by cases he

/-! ## Who is logged in -/

/-- Not a redirect to the login. -/
def Answered (a : Session × Response) : Prop := a.2 ≠ .redirect (str "login.php")

theorem dashboard_answers {u : Bytes} (hu : s.user = some u) : (dashboard s).Ends Answered := by
  unfold dashboard
  rw [hu]
  exact ends_send fun _ he => by cases he

theorem masterlist_answers {u : Bytes} (hu : s.user = some u) : (masterlist s).Ends Answered := by
  unfold masterlist
  rw [hu]
  exact ends_send fun _ => (ends_true _).bind fun _ _ he => by cases he

theorem new_entry_answers {u : Bytes} (hu : s.user = some u) (b : Body) :
    (new_entry s b).Ends Answered := by
  unfold new_entry
  rw [hu]
  cases b with
  | get => exact fun he => by cases he
  | post p =>
    dsimp only
    split
    · exact fun he => by cases he
    · refine ends_send fun (r : Except Bytes Int) => ?_
      cases r with
      | ok n => exact (ends_true _).bind fun _ _ he => absurd (Response.redirect.inj he) (by decide)
      | error m => exact fun he => by cases he

theorem showNext_answers (p : Post) (success : Bytes) : (showNext s p success).Ends Answered := by
  unfold showNext
  dsimp only
  split
  · refine ends_send fun (r : Option Asset) => ?_
    cases r <;> exact fun he => by cases he
  · split <;> exact fun he => by cases he

theorem edit_asset_answers {u : Bytes} (hu : s.user = some u) (b : Body) :
    (edit_asset s b).Ends Answered := by
  unfold edit_asset
  rw [hu]
  dsimp only
  split
  · refine (ends_true _).bind fun _ _ => ?_
    split
    · exact fun he => by cases he
    · exact showNext_answers _ _
  · exact showNext_answers _ _

/-- The pages look at `user` alone. -/
theorem loggedIn_iff : LoggedIn sha256 sv s ↔ s.user ≠ none := by
  constructor
  · intro h hu
    have hdash : dashboard s = redirectLogin s := by
      unfold dashboard
      rw [hu]
    refine h .dashboard (by decide) .get (fun _ => .at 0) sample ?_
    show ((dashboard s).run _ _ _).1.2 = _
    rw [hdash]
    rfl
  · intro hu page hp b env d
    obtain ⟨u, hu⟩ := Option.ne_none_iff_exists'.mp hu
    unfold guardedPages at hp
    rcases List.mem_cons.mp hp with rfl | hp
    · exact (dashboard_answers hu).run (exec sv) env d
    rcases List.mem_cons.mp hp with rfl | hp
    · exact (masterlist_answers hu).run (exec sv) env d
    rcases List.mem_cons.mp hp with rfl | hp
    · exact (new_entry_answers hu b).run (exec sv) env d
    · rw [List.mem_singleton.mp hp]
      exact (edit_asset_answers hu b).run (exec sv) env d

/-- **When the two login pages agree**: when both refuse, or when both accept and the session was
logged in before. -/
theorem logins_agree_iff :
    LoginsAgree sha256 sv s p env d ↔
      (¬ LoginMatch sv d p ∧ ¬ IndexMatch sha256 sv (env 0) d p) ∨
        (LoginMatch sv d p ∧ IndexMatch sha256 sv (env 0) d p ∧ s.user ≠ none) := by
  rw [← @login_accepts sv s p env d, ← @index_accepts sha256 sv s p env d]
  constructor
  · intro h
    by_cases hindex : ((index sha256 s (.post p)).run (exec sv) env d).1.2 =
        .redirect (str "dashboard.php")
    · refine .inr ⟨h.accept.mp hindex, hindex, ?_⟩
      have huser := loggedIn_iff.mp (h.index hindex)
      rwa [index_user] at huser
    · exact .inl ⟨fun hlogin => hindex (h.accept.mpr hlogin), hindex⟩
  · rintro (⟨hlogin, hindex⟩ | ⟨hlogin, hindex, hu⟩)
    · exact ⟨iff_of_false hindex hlogin, fun h => absurd h hindex, fun h => absurd h hlogin⟩
    · exact ⟨iff_of_true hindex hlogin, fun _ => loggedIn_iff.mpr (by rwa [index_user]),
        fun h => loggedIn_iff.mpr (login_user h)⟩

end

/-- The hash of "1234" is that of SHA-256. -/
def sampleHash (t : Bytes) : Bytes :=
  if t = str "1234" then str "03ac674216f3e15c761ee1a5e255f067953623c8b388b4459e13f978d7c846f4"
  else zeroHash t

/-- A username and a password, posted. -/
def credentials (username password : Bytes) : Post :=
  (posted [(str "username", username), (str "password", password)]).fields

/-- No user of the sample has a hash as its password. -/
theorem sample_not_index {u : Bytes} (hu : clean u = true) :
    ¬ IndexMatch sampleHash .canonical (.at 100) sample (credentials u (str "1234")) := by
  have hhash : passwordHash sampleHash ((credentials u (str "1234")) (str "password")) =
      sampleHash (str "1234") := rfl
  have hclean : clean ((credentials u (str "1234")) (str "username")).toText = true ∧
      clean (sampleHash (str "1234")) = true := ⟨hu, by decide⟩
  have hnone : ∀ r ∈ sample.users,
      Server.canonical.same r.password (sampleHash (str "1234")) = false := by decide
  rw [IndexMatch, hhash, if_pos hclean, List.filter_eq_nil_iff.mpr fun r hr => ?_]
  · decide
  · rw [hnone r hr, Bool.and_false]
    exact Bool.false_ne_true

/-- login.php accepts the user of the sample, and index.php does not. -/
theorem logins_disagree : ¬ LoginsAgree sampleHash .canonical {} (credentials (str "admin")
    (str "1234")) (fun _ => .at 100) sample := by
  intro h
  have hlogin : LoginMatch .canonical sample (credentials (str "admin") (str "1234")) :=
    ⟨⟨str "admin", str "1234"⟩, by decide, by rfl⟩
  exact sample_not_index (by decide) (index_accepts.mp (h.accept.mpr (login_accepts.mpr hlogin)))

end Inventory
