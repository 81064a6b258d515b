import FoxyServer.Handlers.Accounts
import FoxyServer.Server.Accepting

/-!
This module contains what is left of the program when it ends: the rows of the AUTH table. `main` adds its two
users to them whenever it starts, and whoever has an account keeps it with the password it has been created
with, whatever the servers are asked for and however often they are started again.
-/

namespace Foxy

/-! ## The table of a process -/

namespace Connection

variable {σ ω : Type} {cls : SessionClass σ ω} {I : ω → Prop}

def HandlersKeepWorld (cls : SessionClass σ ω) (I : ω → Prop) : Prop :=
  ∀ own shared request response own' shared', I shared.world →
    cls.handleRequest own shared request = .ok (response, own', shared') → I shared'.world

theorem step_world (hcls : HandlersKeepWorld cls I) {state : Connection σ × Shared ω} {completion : Completion}
    {out : (Connection σ × Shared ω) × List Action} (h : I state.2.world)
    (hstep : (machine cls).step state completion = .ok out) : I out.1.2.world := by
  rcases state with ⟨conn, shared⟩
  cases hpending : conn.pending with
  | nil =>
    simp only [machine, step, hpending, Outcome.ok.injEq] at hstep
    rw [← hstep]
    exact h
  | cons operation pending =>
    cases (step_ended kept_true hpending trivial hstep).2 with
    | scheduled => exact h
    | deleted => exact h
    | abandoned => exact h
    | closed => exact h
    | aborted => exact h
    | refused => exact h
    | answered hhandle =>
      have hworld : I shared.world := h
      have hkept := hcls _ _ _ _ _ _ hworld hhandle
      exact hkept

end Connection

def KeptByInsert (I : AuthTable → Prop) : Prop :=
  ∀ table user hash, I table → I (table.insert user hash)

theorem keptByInsert_find? (user hash : Bytes) : KeptByInsert (fun table => table.find? user = some hash) := by
  intro table user' hash' h
  rw [OrdMap.find?_insert]
  split
  next huser => rw [huser, h, Option.getD_some]
  next => exact h

variable {I : AuthTable → Prop} (hI : KeptByInsert I)

include hI

theorem RequestHandler.handleRequest_table {handler : RequestHandler} {outside : Outside}
    {collector : DataCollector} {table : AuthTable} {request : Request} {handled : Handled} (h : I table)
    (hhandle : handler.handleRequest outside collector table request = .ok handled) : I handled.table := by
  cases handler with
  | login handler =>
    have htable : I (LoginEvent.step table ⟨handler, outside.login, request⟩) := by
      rcases LoginEvent.step_cases table ⟨handler, outside.login, request⟩ with heq | ⟨user, hash, heq⟩
      . rw [heq]
        exact h
      . rw [heq]
        exact hI table user hash h
    simp only [handleRequest, Outcome.ok.injEq] at hhandle
    rw [← hhandle]
    exact htable
  | proxy handler =>
    rcases Outcome.bind_eq_ok.mp hhandle with ⟨⟨response, exchanges⟩, -, hhandle⟩
    cases hhandle
    exact h
  | static handler => cases hhandle; exact h
  | echo => cases hhandle; exact h
  | status => cases hhandle; exact h
  | notFound => cases hhandle; exact h
  | health => cases hhandle; exact h

theorem AnySession.step_table {outside : Nat → Outside} {shared : Shared World} {completion : Completion}
    {session : AnySession} {out : (AnySession × Shared World) × List Action} (h : I shared.world.table)
    (hstep : session.step outside shared completion = .ok out) : I out.1.2.world.table := by
  cases session with
  | https conn =>
    rcases Outcome.bind_eq_ok.mp hstep with ⟨⟨⟨conn', shared'⟩, actions⟩, hconn, hstep⟩
    cases hstep
    have hcls : Connection.HandlersKeepWorld (Session.cls (handlers outside))
        (fun world : World => I world.table) := by
      intro own shared request response own' shared' h hhandle
      simp only [Session.cls, Session.handleRequest] at hhandle
      split at hhandle
      next => cases hhandle
      next =>
        rcases Outcome.bind_eq_ok.mp hhandle with ⟨⟨response1, shared1⟩, hhandlers, hhandle⟩
        rcases Outcome.bind_eq_ok.mp hhandlers with ⟨handled, hhandled, hhandlers⟩
        cases hhandlers
        cases hhandle
        exact RequestHandler.handleRequest_table hI h hhandled
    exact Connection.step_world (I := fun world : World => I world.table) hcls h hconn
  | http conn =>
    rcases Outcome.bind_eq_ok.mp hstep with ⟨⟨⟨conn', shared'⟩, actions⟩, hconn, hstep⟩
    cases hstep
    have hcls : Connection.HandlersKeepWorld (@HttpSession.cls World)
        (fun world : World => I world.table) := by
      intro own shared request response own' shared' h hhandle
      cases hhandle
      exact h
    exact Connection.step_world (I := fun world : World => I world.table) hcls h hconn

theorem Serving.step_table {outside : Nat → Outside} {serving serving' : Serving} {event : ServingEvent}
    {actions : List Action} (h : I serving.process.shared.world.table)
    (hstep : Serving.step outside serving event = .ok (serving', actions))
    : I serving'.process.shared.world.table := by
  cases event with
  | accept number error memory =>
    simp only [Serving.step] at hstep
    split at hstep
    . cases hstep
      exact h
    . split at hstep
      . cases hstep
        exact h
      . cases hstep
        exact h
  | complete index completion =>
    rcases Outcome.bind_eq_ok.mp hstep with ⟨⟨process, actions'⟩, hprocess, hstep⟩
    cases hstep
    simp only [Process.step] at hprocess
    split at hprocess
    next =>
      cases hprocess
      exact h
    next session hsession =>
      rcases Outcome.bind_eq_ok.mp hprocess with ⟨⟨⟨session', shared⟩, actions'⟩, hany, hprocess⟩
      cases hprocess
      exact AnySession.step_table hI h hany

omit hI

/-! ## The start of the program -/

/--
`CREATE TABLE IF NOT EXISTS` leaves the rows as they are, whatever its result code: a table that is not there
has none.
-/
def database.dbCreate (rc : Int) (table : AuthTable) : Int × AuthTable :=
  (rc, table)

/-- What `main` runs into besides the config. A hash is drawn with a new salt every time. -/
structure StartEnv where
  starts : Nat → Bool := fun _ => true
  createTable : Int := Sqlite.ok
  sqlite : Sqlite
  hashAdmin : Bytes → Bytes
  hashFoxy : Bytes → Bytes
  memory : Nat → Memory := fun _ => {}

def insertMockUsers (env : StartEnv) (table : AuthTable) : AuthTable :=
  let (_, table) := database.dbInsert env.sqlite env.hashAdmin table (Bytes.lit "admin") (Bytes.lit "admin")
  let (_, table) := database.dbInsert env.sqlite env.hashFoxy table (Bytes.lit "foxy") (Bytes.lit "password")
  table

def readConfig (parseSuccess : Bool) (config : NginxConfig)
    : Outcome (Bool × List (Int × Bytes) × Int × Bytes × RequestHandlerGenerator × Startup) := do
  let (getPort, portTypes) ← config.getPort []
  let (getDir, _) ← config.getDir []
  let (_, threads) ← config.getThreads 4
  let (getHostname, hostname) ← config.getHostname []
  let (getMap, generator, startup) ← RequestHandlerGenerator.getMap {} config {}
  return (parseSuccess && getPort && getMap && getDir && getHostname, portTypes, threads, hostname, generator,
    startup)

/--
`main` catches every exception and ends. The rows that it leaves, and the servers if it gets as far as running
them.
-/
def main (env : StartEnv) (parseSuccess : Bool) (config : NginxConfig) (table : AuthTable)
    : Outcome (AuthTable × Option Serving) :=
  match readConfig parseSuccess config with
  | .undefined => .undefined
  | .throws _ => .ok (table, none)
  | .ok (accepted, portTypes, threads, hostname, generator, startup) =>
    if accepted then
      let (_, table) := database.dbCreate env.createTable table
      let table := insertMockUsers env table
      match createServers env.starts generator threads hostname 0 portTypes with
      | .undefined => .undefined
      | .throws _ => .ok (table, none)
      | .ok servers =>
        let process := { shared := { collector := startup.collector, world := { table } } }
        .ok (table, some (Serving.create servers env.memory process))
    else
      .ok (table, none)

/-- The servers run exactly if `startUp` says so, and they are the servers it says. -/
theorem main_eq_some_iff {env : StartEnv} {parseSuccess : Bool} {config : NginxConfig}
    {table table' : AuthTable} {serving : Serving}
    : main env parseSuccess config table = .ok (table', some serving)
        ↔
      ∃ served, startUp env.starts parseSuccess config = .ok (some served)
        ∧ table' = insertMockUsers env table
        ∧ serving = Serving.create served.servers env.memory
            { shared := { collector := served.startup.collector, world := { table := table' } } } := by
  rw [main, readConfig, startUp]
  rcases config.getPort [] with ⟨getPort, portTypes⟩ | e | _
  . rcases config.getDir [] with ⟨getDir, dir⟩ | e | _
    . rcases config.getThreads 4 with ⟨getThreads, threads⟩ | e | _
      . rcases config.getHostname [] with ⟨getHostname, hostname⟩ | e | _
        . rcases RequestHandlerGenerator.getMap {} config {} with ⟨getMap, generator, startup⟩ | e | _
          . simp only [Outcome.ok_bind, Outcome.pure_eq_ok]
            by_cases haccepted : parseSuccess ∧ getPort ∧ getMap ∧ getDir ∧ getHostname
            . have hall : (parseSuccess && getPort && getMap && getDir && getHostname) = true := by
                simp only [haccepted, Bool.and_self]
              rw [if_pos hall, if_pos haccepted]
              rcases createServers env.starts generator threads hostname 0 portTypes with servers | e | _
              . simp only [database.dbCreate, Outcome.ok_bind, Outcome.ok.injEq, Prod.mk.injEq,
                  Option.some.injEq]
                constructor
                . rintro ⟨rfl, rfl⟩
                  exact ⟨_, rfl, rfl, rfl⟩
                . rintro ⟨served, rfl, rfl, rfl⟩
                  exact ⟨rfl, rfl⟩
              . simp
              . simp
            . have hsome : ¬(parseSuccess && getPort && getMap && getDir && getHostname) = true := by
                simpa only [Bool.and_eq_true, and_assoc] using haccepted
              rw [if_neg hsome, if_neg haccepted]
              simp
          . simp
          . simp
        . simp
        . simp
      . simp
      . simp
    . simp
    . simp
  . simp
  . simp

/-! ## One life after another -/

structure Host where
  table : AuthTable := .empty
  serving : Option Serving := none
  lives : Nat := 0

inductive HostEvent where
  | start (env : StartEnv) (input : Bytes)
  | serve (event : ServingEvent)
  | stop

namespace Host

def rows (host : Host) : AuthTable :=
  match host.serving with
  | some serving => serving.process.shared.world.table
  | none => host.table

/-- A parser that takes from its stack what is not there may leave anything behind. -/
def start (host : Host) (env : StartEnv) (input : Bytes) : Outcome Host :=
  match NginxConfigParser.parse input [] with
  | some (.ok (parseSuccess, config)) => do
    let (table, serving) ← main env parseSuccess config host.table
    return { table, serving, lives := host.lives + 1 }
  | _ => .undefined

/-- Nothing else runs on the database, so that the program is started only when it has ended. -/
def step (outside : Nat → Nat → Outside) (host : Host) : HostEvent → Outcome (Host × List Action)
  | .start env input =>
    match host.serving with
    | some _ => .ok (host, [])
    | none => do
      let host ← host.start env input
      return (host, [])
  | .serve event =>
    match host.serving with
    | some serving => do
      let (serving, actions) ← Serving.step (outside host.lives) serving event
      return ({ host with serving := some serving }, actions)
    | none => .ok (host, [])
  | .stop => .ok ({ host with table := host.rows, serving := none }, [])

def machine (outside : Nat → Nat → Outside) : Machine Host HostEvent Action where
  step := step outside

variable {outside : Nat → Nat → Outside}

theorem dbInsert_table_of_kept (hI : KeptByInsert I) {sqlite : Sqlite} {generateHash : Bytes → Bytes}
    {table : AuthTable} {user pass : Bytes} (h : I table)
    : I (database.dbInsert sqlite generateHash table user pass).2 := by
  rcases LoginRequestHandler.dbInsert_table sqlite generateHash table user pass with ⟨hadds, hkeeps⟩
  by_cases hinserts : LoginRequestHandler.Inserts sqlite table user (generateHash pass)
  . rw [hadds hinserts]
    exact hI _ _ _ h
  . rw [hkeeps hinserts]
    exact h

theorem insertMockUsers_of_kept (hI : KeptByInsert I) {env : StartEnv} {table : AuthTable} (h : I table)
    : I (insertMockUsers env table) :=
  dbInsert_table_of_kept hI (dbInsert_table_of_kept hI h)

theorem main_rows {env : StartEnv} {parseSuccess : Bool} {config : NginxConfig} {table table' : AuthTable}
    {serving : Option Serving} (h : main env parseSuccess config table = .ok (table', serving))
    : (table' = table ∧ serving = none ∨ table' = insertMockUsers env table)
        ∧ ∀ serving', serving = some serving' → serving'.process.shared.world.table = table' := by
  cases serving with
  | some serving =>
    rcases main_eq_some_iff.mp h with ⟨served, -, rfl, rfl⟩
    refine ⟨.inr rfl, fun serving' hserving => ?_⟩
    cases hserving
    rfl
  | none =>
    refine ⟨?_, fun serving' hserving => by cases hserving⟩
    simp only [main] at h
    split at h
    . cases h
    . cases h
      exact .inl ⟨rfl, rfl⟩
    . split at h
      . split at h
        . cases h
        . cases h
          exact .inr rfl
        . cases h
      . cases h
        exact .inl ⟨rfl, rfl⟩

theorem rows_start {host host' : Host} {env : StartEnv} {input : Bytes} (hnone : host.serving = none)
    (h : host.start env input = .ok host')
    : host'.rows = host.rows ∧ host'.serving = none ∨ host'.rows = insertMockUsers env host.rows := by
  simp only [start] at h
  split at h
  . rcases Outcome.bind_eq_ok.mp h with ⟨⟨table, serving⟩, hmain, h⟩
    cases h
    rcases main_rows hmain with ⟨htable, hserving⟩
    have hrows : host.rows = host.table := by
      rw [rows, hnone]
    have hrows' : rows { table, serving, lives := host.lives + 1 } = table := by
      rw [rows]
      split
      next serving' heq => exact hserving serving' heq
      next => rfl
    rw [hrows, hrows']
    exact htable
  . cases h

theorem step_rows (hI : KeptByInsert I) {host host' : Host} {event : HostEvent} {actions : List Action}
    (h : I host.rows) (hstep : step outside host event = .ok (host', actions)) : I host'.rows := by
  cases event with
  | start env input =>
    simp only [step] at hstep
    split at hstep
    next =>
      cases hstep
      exact h
    next hnone =>
      rcases Outcome.bind_eq_ok.mp hstep with ⟨host1, hstart, hstep⟩
      cases hstep
      rcases rows_start hnone hstart with ⟨hrows, -⟩ | hrows
      . rw [hrows]
        exact h
      . rw [hrows]
        exact insertMockUsers_of_kept hI h
  | serve event =>
    simp only [step] at hstep
    split at hstep
    next serving hserving =>
      rcases Outcome.bind_eq_ok.mp hstep with ⟨⟨serving', actions'⟩, hserve, hstep⟩
      cases hstep
      rw [rows, hserving] at h
      exact Serving.step_table hI h hserve
    next =>
      cases hstep
      exact h
  | stop =>
    cases hstep
    exact h

theorem run_rows (hI : KeptByInsert I) {host host' : Host} {events : List HostEvent} {actions : List Action}
    (h : I host.rows) (hrun : (machine outside).run host events = .ok (host', actions)) : I host'.rows :=
  Machine.run_keeps (R := fun _ _ => True) (I := fun host : Host => I host.rows)
    (fun h _ hstep => step_rows hI h hstep) h (Machine.meets_true _ events) hrun

/-! ## The users of `main` -/

theorem find?_dbInsert {sqlite : Sqlite} (h : sqlite.Reliable) (generateHash : Bytes → Bytes)
    (table : AuthTable) (user pass : Bytes)
    : (database.dbInsert sqlite generateHash table user pass).2.find? user
        = some ((table.find? user).getD (generateHash pass)) := by
  rw [database.dbInsert]
  simp only [h.prepareInsert, h.stepInsert, ne_eq, not_true_eq_false, if_false]
  cases hfind : table.find? user with
  | none => simp [hfind, OrdMap.find?_insert]
  | some hash => simp [hfind, Sqlite.constraint, Sqlite.done]

theorem find?_dbInsert_ne {sqlite : Sqlite} {generateHash : Bytes → Bytes} {table : AuthTable}
    {user user' pass : Bytes} (hne : user ≠ user')
    : (database.dbInsert sqlite generateHash table user pass).2.find? user' = table.find? user' := by
  rcases LoginRequestHandler.dbInsert_table sqlite generateHash table user pass with ⟨hadds, hkeeps⟩
  by_cases hinserts : LoginRequestHandler.Inserts sqlite table user (generateHash pass)
  . rw [hadds hinserts, OrdMap.find?_insert, if_neg hne]
  . rw [hkeeps hinserts]

theorem admin_ne_foxy : Bytes.lit "admin" ≠ Bytes.lit "foxy" := by decide

structure HasMockUsers (events : List HostEvent) (table : AuthTable) : Prop where
  admin : ∃ env input, .start env input ∈ events
    ∧ table.find? (Bytes.lit "admin") = some (env.hashAdmin (Bytes.lit "admin"))
  foxy : ∃ env input, .start env input ∈ events
    ∧ table.find? (Bytes.lit "foxy") = some (env.hashFoxy (Bytes.lit "password"))

theorem keptByInsert_hasMockUsers (events : List HostEvent) : KeptByInsert (HasMockUsers events) := by
  intro table user hash h
  constructor
  . rcases h.admin with ⟨env, input, hmem, hfind⟩
    exact ⟨env, input, hmem, keptByInsert_find? _ _ _ _ _ hfind⟩
  . rcases h.foxy with ⟨env, input, hmem, hfind⟩
    exact ⟨env, input, hmem, keptByInsert_find? _ _ _ _ _ hfind⟩

theorem hasMockUsers_insertMockUsers {events : List HostEvent} {env : StartEnv} {input : Bytes}
    {table : AuthTable} (hsqlite : env.sqlite.Reliable) (hmem : .start env input ∈ events)
    (hadmin : table.find? (Bytes.lit "admin") = none) (hfoxy : table.find? (Bytes.lit "foxy") = none)
    : HasMockUsers events (insertMockUsers env table) := by
  refine ⟨⟨env, input, hmem, ?_⟩, ⟨env, input, hmem, ?_⟩⟩
  . rw [insertMockUsers]
    dsimp only
    rw [find?_dbInsert_ne admin_ne_foxy.symm, find?_dbInsert hsqlite, hadmin, Option.getD_none]
  . rw [insertMockUsers]
    dsimp only
    rw [find?_dbInsert hsqlite, find?_dbInsert_ne admin_ne_foxy, hfoxy, Option.getD_none]

def Populated (events : List HostEvent) (host : Host) : Prop :=
  host.serving = none ∧ host.rows.find? (Bytes.lit "admin") = none ∧ host.rows.find? (Bytes.lit "foxy") = none
    ∨ HasMockUsers events host.rows

theorem populated_step {events : List HostEvent} {host host' : Host} {event : HostEvent} {actions : List Action}
    (h : Populated events host) (hmem : event ∈ events)
    (hsqlite : ∀ env input, event = .start env input → env.sqlite.Reliable)
    (hstep : step outside host event = .ok (host', actions)) : Populated events host' := by
  rcases h with ⟨hnone, hadmin, hfoxy⟩ | h
  . cases event with
    | start env input =>
      simp only [step, hnone] at hstep
      rcases Outcome.bind_eq_ok.mp hstep with ⟨host1, hstart, hstep⟩
      cases hstep
      rcases rows_start hnone hstart with ⟨hrows, hnone'⟩ | hrows
      . rw [Populated, hrows]
        exact .inl ⟨hnone', hadmin, hfoxy⟩
      . rw [Populated, hrows]
        exact .inr (hasMockUsers_insertMockUsers (hsqlite env input rfl) hmem hadmin hfoxy)
    | serve event =>
      simp only [step, hnone] at hstep
      cases hstep
      exact .inl ⟨hnone, hadmin, hfoxy⟩
    | stop =>
      cases hstep
      exact .inl ⟨rfl, hadmin, hfoxy⟩
  . exact .inr (step_rows (keptByInsert_hasMockUsers events) h hstep)

/-! ## Logins -/

def LogsIn (checkpw : Bytes → Bytes → Int) (outside : Nat → Outside) (process : Process) : Prop :=
  ∀ event handler request response, Process.Answers outside process event (.login handler) request response →
    LoginRequestHandler.IsLogin request → LoginRequestHandler.extractUsername request.body ≠ [] →
    (response.headers.find? (Bytes.lit "Set-Cookie") ≠ none
      ↔
    ∃ hash, process.shared.world.table.find? (LoginRequestHandler.extractUsername request.body) = some hash
      ∧ Password.validatePassword checkpw (LoginRequestHandler.extractPassword request.body) hash = true)

theorem logsIn_of_sound {checkpw : Bytes → Bytes → Int} (hempty : ∀ password, checkpw password [] ≠ 0)
    {outside : Nat → Outside}
    (hsound : ∀ n, (outside n).login.sqlite.Reliable ∧ (outside n).login.checkpw = checkpw) (process : Process)
    : LogsIn checkpw outside process := by
  intro event handler request response hanswers hlogin huser
  rcases Process.handleRequest_of_answers hanswers with ⟨handled, hhandled, rfl⟩
  simp only [RequestHandler.handleRequest, Outcome.ok.injEq] at hhandled
  rw [← hhandled]
  exact @LoginEvent.setCookie_reply checkpw hempty
    ⟨handler, (outside process.shared.world.handled).login, request⟩
    ⟨(hsound process.shared.world.handled).1, (hsound process.shared.world.handled).2⟩ hlogin huser _

/--
From a database without rows on, through any number of starts and whatever the servers do in between, a row
that is there stays as it is, and whenever servers run the two users of `main` have rows with the hashes of one
of the starts. A login gets a cookie exactly if its password is that of the row.
-/
theorem accounts_across_restarts {checkpw : Bytes → Bytes → Int} (hempty : ∀ password, checkpw password [] ≠ 0)
    {outside : Nat → Nat → Outside}
    (hsound : ∀ life n, (outside life n).login.sqlite.Reliable ∧ (outside life n).login.checkpw = checkpw)
    (events : List HostEvent) (hstarts : ∀ env input, .start env input ∈ events → env.sqlite.Reliable)
    (host : Host) (actions : List Action) (hrun : (machine outside).run {} events = .ok (host, actions))
    : (∀ before host' actions' user hash, before <+: events →
          (machine outside).run {} before = .ok (host', actions') →
          host'.rows.find? user = some hash → host.rows.find? user = some hash)
        ∧ ∀ serving, host.serving = some serving →
            HasMockUsers events host.rows ∧ LogsIn checkpw (outside host.lives) serving.process := by
  constructor
  . rintro before host' actions' user hash ⟨after, rfl⟩ hbefore hfind
    rw [Machine.run_append hbefore] at hrun
    rcases Outcome.bind_eq_ok.mp hrun with ⟨⟨host1, actions1⟩, hafter, hrun⟩
    cases hrun
    exact run_rows (keptByInsert_find? user hash) hfind hafter
  . intro serving hserving
    refine ⟨?_, logsIn_of_sound hempty (hsound host.lives) serving.process⟩
    have hpopulated := Machine.run_keeps (I := Populated events)
      (R := fun _ event => event ∈ events)
      (fun h hmem hstep => populated_step h hmem (fun env input heq => hstarts env input (heq ▸ hmem)) hstep)
      (.inl ⟨rfl, rfl, rfl⟩) (Machine.meets_of_forall (fun event hmem _ => hmem) _) hrun
    rcases hpopulated with ⟨hnone, -⟩ | hmock
    . rw [hserving] at hnone
      cases hnone
    . exact hmock

def loginConfig : Bytes :=
  Bytes.lit "listen https 443; location \"/\" LoginHandler \x7b root \"./data\"; \x7d"

def startForTest (salt : String) : HostEvent :=
  .start
    { sqlite := .reliable
      hashAdmin := fun password => Bytes.lit salt ++ password
      hashFoxy := fun password => Bytes.lit salt ++ password } loginConfig

def outsideForTest (_ _ : Nat) : Outside :=
  { deserted with login := LoginEnv.forTest }

def restartsForTest : List HostEvent :=
  [startForTest "$2b$12$", .stop, startForTest "other", .serve (.accept 0 false {}), .serve (.complete 0 {})]

def hostForTest : Host :=
  match (machine outsideForTest).run {} restartsForTest with
  | .ok (host, _) => host
  | _ => {}

theorem run_restartsForTest
    : ∃ actions, (machine outsideForTest).run {} restartsForTest = .ok (hostForTest, actions) := by
  have hrun : ((machine outsideForTest).run {} restartsForTest).Yields (fun _ => True) := by
    decide +kernel
  rcases hrun with ⟨⟨host, actions⟩, hrun, -⟩
  refine ⟨actions, ?_⟩
  rw [hostForTest, hrun]

def servingForTest : Serving :=
  hostForTest.serving.getD { acceptors := [], process := { shared := { world := { table := .empty } } } }

theorem eq_some_getD {serving : Option Serving} (h : serving.isSome = true) (serving' : Serving)
    : serving = some (serving.getD serving') := by
  cases serving with
  | none => cases h
  | some serving => rfl

def adminLogsIn : Completion where
  read := ⟨Bytes.lit "POST / HTTP/1.1\r\nContent-Length: 29\r\n\r\nusername=admin&password=admin", by decide⟩

theorem accounts_across_restarts_admin
    : hostForTest.rows.find? (Bytes.lit "admin") = some (Bytes.lit "$2b$12$admin")
        ∧ ∃ handler request response, hostForTest.serving = some servingForTest
            ∧ Process.Answers (outsideForTest hostForTest.lives) servingForTest.process
                (.complete 0 adminLogsIn) (.login handler) request response
            ∧ response.headers.find? (Bytes.lit "Set-Cookie") ≠ none := by
  have hserving : hostForTest.serving = some servingForTest :=
    eq_some_getD (by decide +kernel) _
  have hanswers : ∃ request response, (request.method = .post ∧ request.uri = Bytes.lit "/"
        ∧ request.body = Bytes.lit "username=admin&password=admin")
      ∧ Process.Answers (outsideForTest hostForTest.lives) servingForTest.process (.complete 0 adminLogsIn)
          (.login ⟨Bytes.lit "./data/", Bytes.lit "/"⟩) request response :=
    Process.answers_read (by decide +kernel) (by decide +kernel) rfl rfl (by decide +kernel) (by decide +kernel)
  rcases hanswers with ⟨request, response, ⟨hmethod, huri, hbody⟩, hanswers⟩
  have hempty : ∀ password, LoginEnv.forTest.checkpw password [] ≠ 0 := by
    intro password
    simp [LoginEnv.forTest, Bytes.lit]
  have hstarts : ∀ env input, .start env input ∈ restartsForTest → env.sqlite.Reliable := by
    intro env input hmem
    simp only [restartsForTest, startForTest, List.mem_cons, List.not_mem_nil, or_false, reduceCtorEq, false_or,
      HostEvent.start.injEq] at hmem
    rcases hmem with ⟨rfl, -⟩ | ⟨rfl, -⟩ <;> exact Sqlite.reliable_reliable
  rcases run_restartsForTest with ⟨done, hrun⟩
  rcases accounts_across_restarts hempty (fun _ _ => ⟨Sqlite.reliable_reliable, rfl⟩) restartsForTest hstarts
    hostForTest done hrun with ⟨hkept, hservers⟩
  have hfirst : ((machine outsideForTest).run {} [startForTest "$2b$12$"]).Yields
      (fun out => out.1.rows.find? (Bytes.lit "admin") = some (Bytes.lit "$2b$12$admin")) := by
    decide +kernel
  rcases hfirst with ⟨⟨host, first⟩, hfirst, hadmin⟩
  have hrow := hkept [startForTest "$2b$12$"] host first _ _ ⟨_, rfl⟩ hfirst hadmin
  refine ⟨hrow, _, request, response, hserving, hanswers, ?_⟩
  have hname : LoginRequestHandler.extractUsername request.body = Bytes.lit "admin" := by
    rw [hbody]
    decide +kernel
  have hlogin : LoginRequestHandler.IsLogin request := by
    rw [LoginRequestHandler.IsLogin, huri]
    exact ⟨hmethod, by decide +kernel⟩
  apply ((hservers servingForTest hserving).2 _ _ request _ hanswers hlogin (by rw [hname]; decide)).mpr
  rw [rows, hserving] at hrow
  refine ⟨_, by rw [hname]; exact hrow, ?_⟩
  rw [hbody]
  decide +kernel

end Host

end Foxy
