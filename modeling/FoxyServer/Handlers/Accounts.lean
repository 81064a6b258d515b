import FoxyServer.Handlers.Login

/-!
This module contains what signup and login do to the AUTH table: which page a signup is answered with, and
which passwords log a user in over a whole run of requests.
-/

namespace Foxy

def LoginEnv.forTest : LoginEnv where
  files := fun _ => none
  generateHash := fun password => Bytes.lit "$2b$12$" ++ password
  checkpw := fun password hash => if hash = Bytes.lit "$2b$12$" ++ password then 0 else -1
  sqlite := Sqlite.reliable
  generateCookie := fun username => username

namespace LoginRequestHandler

def IsSignup (request : Request) : Prop :=
  request.method = .post ∧ request.uri.contains (Bytes.lit "signup") = true

def IsLogin (request : Request) : Prop :=
  request.method = .post ∧ request.uri.contains (Bytes.lit "signup") = false

instance (request : Request) : Decidable (IsSignup request) := inferInstanceAs (Decidable (_ ∧ _))
instance (request : Request) : Decidable (IsLogin request) := inferInstanceAs (Decidable (_ ∧ _))

/-! ## One statement on the table -/

def Inserts (sqlite : Sqlite) (table : AuthTable) (user hash : Bytes) : Prop :=
  sqlite.prepareInsert table user hash = Sqlite.ok ∧ sqlite.stepInsert table user hash = Sqlite.done

def Refuses (sqlite : Sqlite) (table : AuthTable) (user hash : Bytes) : Prop :=
  sqlite.prepareInsert table user hash = Sqlite.constraint
    ∨ sqlite.prepareInsert table user hash = Sqlite.ok
        ∧ sqlite.stepInsert table user hash = Sqlite.constraint

instance (sqlite : Sqlite) (table : AuthTable) (user hash : Bytes)
    : Decidable (Inserts sqlite table user hash) := inferInstanceAs (Decidable (_ ∧ _))
instance (sqlite : Sqlite) (table : AuthTable) (user hash : Bytes)
    : Decidable (Refuses sqlite table user hash) := inferInstanceAs (Decidable (_ ∨ _))

theorem dbInsert_table (sqlite : Sqlite) (generateHash : Bytes → Bytes) (table : AuthTable)
    (user pass : Bytes)
    : (Inserts sqlite table user (generateHash pass) →
          (database.dbInsert sqlite generateHash table user pass).2
            = table.insert user (generateHash pass))
        ∧ (¬Inserts sqlite table user (generateHash pass) →
            (database.dbInsert sqlite generateHash table user pass).2 = table) := by
  simp only [Inserts, database.dbInsert]
  split_ifs <;> simp_all

theorem dbInsert_code (sqlite : Sqlite) (generateHash : Bytes → Bytes) (table : AuthTable)
    (user pass : Bytes)
    : (database.dbInsert sqlite generateHash table user pass).1 = Sqlite.constraint
        ↔
      Refuses sqlite table user (generateHash pass) := by
  simp only [Refuses, database.dbInsert]
  by_cases h : sqlite.prepareInsert table user (generateHash pass) = Sqlite.ok
  . simp [h, Sqlite.ok, Sqlite.constraint]
  . simp [h]

theorem not_refuses_of_inserts {sqlite : Sqlite} {table : AuthTable} {user hash : Bytes}
    (h : Inserts sqlite table user hash) : ¬Refuses sqlite table user hash := by
  rcases h with ⟨hprepare, hstep⟩
  simp [Refuses, hprepare, hstep, Sqlite.ok, Sqlite.done, Sqlite.constraint]

theorem find?_none_of_inserts {sqlite : Sqlite} (hdup : sqlite.RejectsDuplicates) {table : AuthTable}
    {user hash : Bytes} (h : Inserts sqlite table user hash) : table.find? user = none := by
  by_contra hpresent
  have hconstraint := hdup table user hash hpresent h.1
  rw [h.2] at hconstraint
  cases hconstraint

/-! ## Signup -/

def successPage : Bytes := Bytes.lit "signup/signup_success.html"
def failurePage : Bytes := Bytes.lit "signup/signup_failure.html"

def RowInserted (table table' : AuthTable) (user hash : Bytes) : Prop :=
  table.find? user = none ∧ table'.find? user = some hash

theorem rowInserted_insert {table : AuthTable} {user : Bytes} (h : table.find? user = none) (hash : Bytes)
    : RowInserted table (table.insert user hash) user hash := by
  simp [RowInserted, h, OrdMap.find?_insert]

theorem RowInserted.ne {table table' : AuthTable} {user hash : Bytes}
    (h : RowInserted table table' user hash) : table' ≠ table := by
  rintro rfl
  have hpresent := h.2
  rw [h.1] at hpresent
  cases hpresent

/-- The response is the page in this file, which is there. -/
def IsPage (handler : LoginRequestHandler) (files : FileSystem) (file : Bytes) (response : Response)
    : Prop :=
  handler.pageFile files file ≠ none ∧ response = handler.prepareHtmlResponse files file

/--
The success page if and only if the row with both fields was inserted, and with the failure page an
unchanged table.
-/
def AnswersSignup (handler : LoginRequestHandler) (env : LoginEnv) (table : AuthTable)
    (request : Request) : Prop :=
  let reply := handler.handleRequest env table request
  let username := extractUsername request.body
  let password := extractPassword request.body
  (handler.IsPage env.files successPage reply.1
      ↔ RowInserted table reply.2 username (env.generateHash password)
          ∧ username ≠ [] ∧ password ≠ [])
    ∧ (handler.IsPage env.files failurePage reply.1 → reply.2 = table)

theorem isPage_prepareHtmlResponse (handler : LoginRequestHandler) (files : FileSystem)
    (file file' : Bytes)
    : handler.IsPage files file (handler.prepareHtmlResponse files file')
        ↔
      handler.pageFile files file ≠ none
        ∧ handler.pageFile files file = handler.pageFile files file' := by
  unfold IsPage prepareHtmlResponse
  cases handler.pageFile files file with
  | none => simp
  | some body =>
    cases handler.pageFile files file' with
    | none => simp [ResponseGenerator.stockResponse]
    | some body' =>
      simp only [ne_eq, reduceCtorEq, not_false_eq_true, true_and, Response.mk.injEq, Option.some.injEq]
      constructor
      . rintro ⟨-, hbody⟩
        exact hbody.symm
      . rintro rfl
        exact ⟨rfl, rfl⟩

theorem handleRequest_signup {handler : LoginRequestHandler} {env : LoginEnv} {table : AuthTable}
    {request : Request} (h : IsSignup request)
    : (handler.handleRequest env table request).2
          = (database.dbInsert env.sqlite env.generateHash table (extractUsername request.body)
              (extractPassword request.body)).2
        ∧ (handler.handleRequest env table request).1
            = handler.prepareHtmlResponse env.files
                (if extractUsername request.body ≠ [] ∧ extractPassword request.body ≠ []
                    ∧ ¬Refuses env.sqlite table (extractUsername request.body)
                        (env.generateHash (extractPassword request.body)) then
                  successPage
                else
                  failurePage) := by
  simp only [handleRequest, h.1, h.2, if_true, signup, decide_eq_true_eq, ne_eq, dbInsert_code]
  split_ifs <;> exact ⟨rfl, rfl⟩

/--
A signup is answered as it should be exactly when the two pages can be told apart, SQLite, given both
fields, adds the row while the success page is there or reports a constraint, and, when a field is empty,
adds no row. A missing page is not answered with, which excuses the other results.
-/
theorem answersSignup_iff (handler : LoginRequestHandler) (env : LoginEnv)
    (hdup : env.sqlite.RejectsDuplicates) (table : AuthTable) (request : Request)
    (hsignup : IsSignup request)
    : handler.AnswersSignup env table request
        ↔
      let username := extractUsername request.body
      let password := extractPassword request.body
      let hash := env.generateHash password
      let success := handler.pageFile env.files successPage
      let failure := handler.pageFile env.files failurePage
      (success = failure → success = none)
        ∧ (username ≠ [] ∧ password ≠ [] →
            Inserts env.sqlite table username hash ∧ success ≠ none
              ∨ Refuses env.sqlite table username hash
              ∨ ¬Inserts env.sqlite table username hash ∧ success = none)
        ∧ (username = [] ∨ password = [] →
            ¬Inserts env.sqlite table username hash ∨ failure = none) := by
  simp only [AnswersSignup, (handleRequest_signup hsignup).1, (handleRequest_signup hsignup).2,
    isPage_prepareHtmlResponse]
  generalize extractUsername request.body = username
  generalize extractPassword request.body = password
  rcases dbInsert_table env.sqlite env.generateHash table username password with ⟨hadds, hkeeps⟩
  by_cases hinserts : Inserts env.sqlite table username (env.generateHash password)
  . -- the row is new, so the table changes
    have hrow := rowInserted_insert (find?_none_of_inserts hdup hinserts) (env.generateHash password)
    have hrefuses := not_refuses_of_inserts hinserts
    have hchanged := hrow.ne
    rw [hadds hinserts]
    by_cases hfields : username ≠ [] ∧ password ≠ []
    . rw [if_pos ⟨hfields.1, hfields.2, hrefuses⟩]
      grind
    . rw [if_neg (by tauto)]
      grind
  . have hrow : ¬RowInserted table table username (env.generateHash password) :=
      fun hinserted => hinserted.ne rfl
    rw [hkeeps hinserts]
    split_ifs with hsuccess <;> grind

def pagesForTest : FileSystem := fun path =>
  if path = Bytes.lit "./test_data/signup/signup_success.html" then
    some (Bytes.lit "<h1>Signup success</h1>")
  else if path = Bytes.lit "./test_data/signup/signup_failure.html" then
    some (Bytes.lit "<h1>Signup failure</h1>")
  else
    none

theorem answersSignup_testing
    : AnswersSignup ⟨Bytes.lit "./test_data/", Bytes.lit "/test/"⟩
        { LoginEnv.forTest with files := pagesForTest } .empty
        { method := .post, uri := Bytes.lit "/test/signup/",
          body := Bytes.lit "username=testing&password=testing" } :=
  (answersSignup_iff _ _ Sqlite.reliable_rejectsDuplicates _ _ (by decide +kernel)).mpr
    (by decide +kernel)

theorem answersSignup_bogus
    : LoginEnv.forTest.sqlite.RejectsDuplicates
        ∧ ¬AnswersSignup ⟨Bytes.lit "./test_data/", Bytes.lit "/test/"⟩
            { LoginEnv.forTest with files := pagesForTest } .empty
            { method := .post, uri := Bytes.lit "/test/signup/", body := Bytes.lit "bogus" } := by
  refine ⟨Sqlite.reliable_rejectsDuplicates, ?_⟩
  intro h
  have hkeeps := h.2 ⟨by decide +kernel, by decide +kernel⟩
  revert hkeeps
  decide +kernel

end LoginRequestHandler

/-! ## Runs of requests -/

structure LoginEvent where
  handler : LoginRequestHandler
  env : LoginEnv
  request : Request

namespace LoginEvent

open LoginRequestHandler

def reply (event : LoginEvent) (table : AuthTable) : Response :=
  (event.handler.handleRequest event.env table event.request).1

def step (table : AuthTable) (event : LoginEvent) : AuthTable :=
  (event.handler.handleRequest event.env table event.request).2

def run (table : AuthTable) (events : List LoginEvent) : AuthTable :=
  events.foldl step table

def firstHash (user : Bytes) (table : AuthTable) : List LoginEvent → Option Bytes
  | [] => table.find? user
  | event :: events =>
    match table.find? user with
    | some hash => some hash
    | none => firstHash user (step table event) events

structure Sound (checkpw : Bytes → Bytes → Int) (event : LoginEvent) : Prop where
  reliable : event.env.sqlite.Reliable
  checkpw : event.env.checkpw = checkpw

theorem step_cases (table : AuthTable) (event : LoginEvent)
    : step table event = table ∨ ∃ user hash, step table event = table.insert user hash := by
  by_cases hsignup : IsSignup event.request
  . rw [step, (handleRequest_signup hsignup).1]
    rcases dbInsert_table event.env.sqlite event.env.generateHash table
      (extractUsername event.request.body) (extractPassword event.request.body) with ⟨hadds, hkeeps⟩
    by_cases hinserts : Inserts event.env.sqlite table (extractUsername event.request.body)
      (event.env.generateHash (extractPassword event.request.body))
    . exact .inr ⟨_, _, hadds hinserts⟩
    . exact .inl (hkeeps hinserts)
  . left
    rw [step, handleRequest]
    split
    . split <;> rfl
    next hpost =>
      have huri : event.request.uri.contains (Bytes.lit "signup") = false := by
        simpa [IsSignup, hpost] using hsignup
      simp only [huri, Bool.false_eq_true, if_false]
      split <;> rfl
    . rfl

theorem find?_step {table : AuthTable} {user hash : Bytes} (h : table.find? user = some hash)
    (event : LoginEvent) : (step table event).find? user = some hash := by
  rcases step_cases table event with heq | ⟨user', hash', heq⟩
  . rw [heq, h]
  . rw [heq, OrdMap.find?_insert]
    split
    next huser => rw [huser, h, Option.getD_some]
    next => exact h

theorem find?_run {table : AuthTable} {user hash : Bytes} (h : table.find? user = some hash)
    (events : List LoginEvent) : (run table events).find? user = some hash := by
  induction events generalizing table with
  | nil => exact h
  | cons event events ih => exact ih (find?_step h event)

theorem firstHash_eq (user : Bytes) (table : AuthTable) (events : List LoginEvent)
    : firstHash user table events = (run table events).find? user := by
  induction events generalizing table with
  | nil => rfl
  | cons event events ih =>
    rw [firstHash]
    split
    next hash h => exact (find?_run h (event :: events)).symm
    next => exact ih _

theorem dbSelectPass_reliable {sqlite : Sqlite} (h : sqlite.Reliable) (table : AuthTable) (user : Bytes)
    : (database.dbSelectPass sqlite table user []).2 = Bytes.cStr ((table.find? user).getD []) := by
  simp only [database.dbSelectPass, h.prepareSelect, h.rowsSelect, ne_eq, not_true_eq_false, if_false]
  cases table.find? user <;> rfl

theorem setCookie_prepareHtmlResponse (handler : LoginRequestHandler) (files : FileSystem)
    (file : Bytes)
    : (handler.prepareHtmlResponse files file).headers.find? (Bytes.lit "Set-Cookie")
        = none := by
  have hstock : (ResponseGenerator.stockResponse .notFound).headers.find? (Bytes.lit "Set-Cookie")
      = none := by
    decide +kernel
  rw [prepareHtmlResponse]
  split
  . exact hstock
  . simp only [OrdMap.find?_set]
    rfl

theorem setCookie_iff {handler : LoginRequestHandler} {env : LoginEnv} {table : AuthTable} {request : Request}
    {setCookie : Bytes}
    : (handler.handleRequest env table request).1.headers.find? (Bytes.lit "Set-Cookie")
        = some setCookie
        ↔
      IsLogin request ∧ extractUsername request.body ≠ []
        ∧ comparePassword env table (extractUsername request.body) (extractPassword request.body) = true
        ∧ setCookie = Bytes.lit "jwt=" ++ env.generateCookie (extractUsername request.body)
            ++ Bytes.lit "; Path=/" := by
  have hstock : (ResponseGenerator.stockResponse .badRequest).headers.find? (Bytes.lit "Set-Cookie") = none := by
    decide +kernel
  have hpage := setCookie_prepareHtmlResponse handler env.files
  unfold handleRequest IsLogin
  split
  next hmethod => split <;> simp [hpage, hmethod]
  next hmethod =>
    dsimp only
    split
    next hsignup => split <;> simp [hpage, hsignup]
    next hsignup =>
      rw [Bool.not_eq_true] at hsignup
      split
      next hvalid => simp [OrdMap.find?_set, hmethod, hsignup, hvalid, eq_comm]
      next hvalid =>
        rw [hpage]
        simp only [hmethod, hsignup]
        tauto
  next hget hpost =>
    have hmethod : request.method ≠ .post := hpost
    simp [hstock, hmethod]

theorem setCookie_reply {checkpw : Bytes → Bytes → Int} (hempty : ∀ password, checkpw password [] ≠ 0)
    {event : LoginEvent} (hsound : event.Sound checkpw) (hlogin : IsLogin event.request)
    (huser : extractUsername event.request.body ≠ []) (table : AuthTable)
    : (event.reply table).headers.find? (Bytes.lit "Set-Cookie") ≠ none
        ↔
      ∃ hash, table.find? (extractUsername event.request.body) = some hash
        ∧ Password.validatePassword checkpw (extractPassword event.request.body) hash = true := by
  have hcompare : comparePassword event.env table (extractUsername event.request.body)
        (extractPassword event.request.body) = true
      ↔ ∃ hash, table.find? (extractUsername event.request.body) = some hash
        ∧ Password.validatePassword checkpw (extractPassword event.request.body) hash = true := by
    rw [comparePassword, dbSelectPass_reliable hsound.reliable, hsound.checkpw]
    cases table.find? (extractUsername event.request.body) with
    | none => simp [Password.checkPassword, Password.validatePassword, Bytes.cStr, hempty]
    | some hash =>
      simp [Password.checkPassword, Password.validatePassword, Bytes.cStr_of_noNul (Bytes.noNul_cStr _)]
  rw [← hcompare, Option.ne_none_iff_exists']
  constructor
  . rintro ⟨setCookie, h⟩
    exact (setCookie_iff.mp h).2.2.1
  . intro hvalid
    exact ⟨_, setCookie_iff.mpr ⟨hlogin, huser, hvalid, rfl⟩⟩

/--
Over every run from every table: a row that is there stays as it is, and a login with a nonempty user name
sets a cookie if and only if its password is valid for the hash of the first row the user ever had.
-/
theorem login_first_hash {checkpw : Bytes → Bytes → Int} (hempty : ∀ password, checkpw password [] ≠ 0)
    (table : AuthTable) (events : List LoginEvent) (hsound : ∀ event ∈ events, event.Sound checkpw)
    : (∀ before after user hash, events = before ++ after →
          (run table before).find? user = some hash → (run table events).find? user = some hash)
        ∧ ∀ before event after, events = before ++ event :: after →
            IsLogin event.request → extractUsername event.request.body ≠ [] →
            ((event.reply (run table before)).headers.find? (Bytes.lit "Set-Cookie") ≠ none
              ↔
            ∃ hash, firstHash (extractUsername event.request.body) table before = some hash
              ∧ Password.validatePassword checkpw (extractPassword event.request.body) hash = true) := by
  constructor
  . rintro before after user hash rfl h
    rw [run, List.foldl_append]
    exact find?_run h after
  . rintro before event after rfl hlogin huser
    rw [firstHash_eq]
    exact setCookie_reply hempty (hsound event (by simp)) hlogin huser _

def forTest (uri body : String) : LoginEvent where
  handler := ⟨Bytes.lit "./login/", Bytes.lit "/auth/"⟩
  env := LoginEnv.forTest
  request := { method := .post, uri := Bytes.lit uri, body := Bytes.lit body }

theorem login_first_hash_twice
    : ((forTest "/auth/" "username=foxy&password=a").reply
        (run .empty [forTest "/auth/signup/" "username=foxy&password=a",
          forTest "/auth/signup/" "username=foxy&password=b"])).headers.find?
            (Bytes.lit "Set-Cookie") ≠ none := by
  have hempty : ∀ password, LoginEnv.forTest.checkpw password [] ≠ 0 := by
    intro password
    simp [LoginEnv.forTest, Bytes.lit]
  have hlogin := (login_first_hash hempty .empty
    [forTest "/auth/signup/" "username=foxy&password=a",
      forTest "/auth/signup/" "username=foxy&password=b",
      forTest "/auth/" "username=foxy&password=a"] (by
        intro event hevent
        simp only [List.mem_cons, List.not_mem_nil, or_false] at hevent
        rcases hevent with rfl | rfl | rfl <;> exact ⟨Sqlite.reliable_reliable, rfl⟩)).2
  apply (hlogin _ _ [] rfl (by decide +kernel) (by decide +kernel)).mpr
  exact ⟨Bytes.lit "$2b$12$a", by decide +kernel, by decide +kernel⟩

end LoginEvent

end Foxy
