import FoxyServer.Handlers.Generator

/-!
This module contains what registration guarantees about the map it builds: no entry is null, no two
locations share a handler, and a handler that serves files knows the location it was registered for.
-/

namespace Foxy

theorem StaticRequestHandler.init_eq_some {path : Bytes} {config : NginxConfig}
    {collector collector' : DataCollector} {handler : StaticRequestHandler}
    (h : init path config collector = .ok (some handler, collector'))
    : handler.path = path
        ∧ (∃ root, lastOperand (Bytes.lit "root") [] config = .ok root
            ∧ utility.isQuoted root = .ok (true, handler.root))
        ∧ ∃ auth authIsQuoted auth', lastOperand (Bytes.lit "auth") [] config = .ok auth
            ∧ utility.isQuoted auth = .ok (authIsQuoted, auth')
            ∧ handler.authPath = if authIsQuoted then auth' else [] := by
  rw [init] at h
  rcases Outcome.bind_eq_ok.mp h with ⟨root, hroot, h⟩
  rcases Outcome.bind_eq_ok.mp h with ⟨auth, hauth, h⟩
  rcases Outcome.bind_eq_ok.mp h with ⟨⟨rootIsQuoted, root'⟩, hrootQuoted, h⟩
  cases rootIsQuoted with
  | false => simp at h
  | true =>
    rcases Outcome.bind_eq_ok.mp h with ⟨⟨authIsQuoted, auth'⟩, hauthQuoted, h⟩
    simp only [Outcome.pure_eq_ok, Outcome.ok.injEq, Prod.mk.injEq, Option.some.injEq] at h
    rw [← h.1]
    exact ⟨rfl, ⟨root, hroot, hrootQuoted⟩, auth, authIsQuoted, auth', hauth, hauthQuoted, by
      cases authIsQuoted <;> rfl⟩

theorem LoginRequestHandler.init_eq_some {path : Bytes} {config : NginxConfig}
    {collector collector' : DataCollector} {handler : LoginRequestHandler}
    (h : init path config collector = .ok (some handler, collector'))
    : handler.path = path
        ∧ ∃ root, StaticRequestHandler.lastOperand (Bytes.lit "root") [] config = .ok root
            ∧ utility.isQuoted root = .ok (true, handler.root) := by
  rw [init] at h
  rcases Outcome.bind_eq_ok.mp h with ⟨root, hroot, h⟩
  rcases Outcome.bind_eq_ok.mp h with ⟨⟨rootIsQuoted, root'⟩, hquoted, h⟩
  cases rootIsQuoted with
  | false => cases h
  | true =>
    cases h
    exact ⟨rfl, root, hroot, hquoted⟩

theorem ProxyRequestHandler.lastOperand_of_go {root root' : Bytes} {port port' : Int} {config : NginxConfig}
    (h : init.go root port config = .ok (root', port'))
    : StaticRequestHandler.lastOperand (Bytes.lit "host") root config = .ok root' := by
  induction config generalizing root port with
  | nil =>
    cases h
    rfl
  | cons statement statements ih =>
    rw [init.go] at h
    rcases Outcome.bind_eq_ok.mp h with ⟨host, hhost, h⟩
    rcases Outcome.bind_eq_ok.mp h with ⟨portString, -, h⟩
    rw [StaticRequestHandler.lastOperand, hhost, Outcome.ok_bind]
    cases portString with
    | none => exact ih h
    | some portString =>
      rcases Outcome.bind_eq_ok.mp h with ⟨port1, -, h⟩
      exact ih h

theorem ProxyRequestHandler.init_eq_some {path : Bytes} {config : NginxConfig}
    {collector collector' : DataCollector} {handler : ProxyRequestHandler}
    (h : init path config collector = .ok (some handler, collector'))
    : handler.path = path
        ∧ ∃ host directory, StaticRequestHandler.lastOperand (Bytes.lit "host") [] config = .ok host
            ∧ utility.isQuoted host = .ok (true, directory) ∧ handler.root = directory.dropLast := by
  rw [init] at h
  rcases Outcome.bind_eq_ok.mp h with ⟨⟨host, port⟩, hhost, h⟩
  rcases Outcome.bind_eq_ok.mp h with ⟨⟨hostIsQuoted, directory⟩, hquoted, h⟩
  cases hostIsQuoted with
  | false => cases h
  | true =>
    cases h
    exact ⟨rfl, host, directory, lastOperand_of_go hhost, hquoted, rfl⟩

/-- The iterator that finds the keyword is the first one, also in a statement without tokens. -/
def IsLocation (statement : NginxConfigStatement) : Prop :=
  statement.tokens = [] ∨ statement.tokens.head? = some (Bytes.lit "location")

instance (statement : NginxConfigStatement) : Decidable (IsLocation statement) :=
  inferInstanceAs (Decidable (_ ∨ _))

namespace RequestHandlerGenerator

structure CreatedFor (path : Bytes) (startup startup' : Startup) (rh : HandlerPtr) : Prop where
  address : rh.address = startup.allocated
  allocated : startup'.allocated = startup.allocated + 1
  static : ∀ handler, rh.object = .static handler →
    handler.path = path ∧ handler.root.getLast? = some '/'.toUInt8

theorem allocate_eq_some {H : Type} {object : H → RequestHandler} {startup startup' : Startup}
    {built : Outcome (Option H × DataCollector)} {rh : HandlerPtr}
    (h : allocate object startup built = .ok (some rh, startup'))
    : ∃ handler collector, built = .ok (some handler, collector)
        ∧ rh = ⟨startup.allocated, object handler⟩
        ∧ startup' = { allocated := startup.allocated + 1, collector } := by
  rcases Outcome.bind_eq_ok.mp h with ⟨⟨handler, collector⟩, hbuilt, h⟩
  cases handler with
  | none => simp at h
  | some handler =>
    simp only [Startup.new, Outcome.pure_eq_ok, Outcome.ok.injEq, Prod.mk.injEq, Option.some.injEq] at h
    exact ⟨handler, collector, hbuilt, h.1.symm, h.2.symm⟩

inductive Builds (path : Bytes) (block : NginxConfig) (collector : DataCollector)
    : Bytes → RequestHandler → DataCollector → Prop where
  | static (hinit : StaticRequestHandler.init path block collector = .ok (some handler, collector'))
    : Builds path block collector (Bytes.lit "StaticHandler") (.static handler) collector'
  | echo : Builds path block collector (Bytes.lit "EchoHandler") .echo
      (collector.addHandler path (Bytes.lit "Echo Request Handler"))
  | status : Builds path block collector (Bytes.lit "StatusHandler") .status
      (collector.addHandler path (Bytes.lit "Status Request Handler"))
  | notFound : Builds path block collector (Bytes.lit "NotFoundHandler") .notFound
      (collector.addHandler path (Bytes.lit "404 Not Found Request Handler"))
  | proxy (hinit : ProxyRequestHandler.init path block collector = .ok (some handler, collector'))
    : Builds path block collector (Bytes.lit "ProxyHandler") (.proxy handler) collector'
  | health : Builds path block collector (Bytes.lit "HealthHandler") .health
      (collector.addHandler path (Bytes.lit "Health Request Handler"))
  | login (hinit : LoginRequestHandler.init path block collector = .ok (some handler, collector'))
    : Builds path block collector (Bytes.lit "LoginHandler") (.login handler) collector'

theorem createHandler_eq_some {path method : Bytes} {block : NginxConfig} {startup startup' : Startup}
    {rh : HandlerPtr} (h : createHandler path method block startup = .ok (some rh, startup'))
    : rh.address = startup.allocated ∧ startup'.allocated = startup.allocated + 1
        ∧ Builds path block startup.collector method rh.object startup'.collector := by
  rw [createHandler] at h
  split_ifs at h with hstatic hecho hstatus hnotFound hproxy hhealth hlogin
  . rcases allocate_eq_some h with ⟨handler, collector, hinit, rfl, rfl⟩
    exact ⟨rfl, rfl, hstatic ▸ .static hinit⟩
  . cases h
    exact ⟨rfl, rfl, hecho ▸ .echo⟩
  . cases h
    exact ⟨rfl, rfl, hstatus ▸ .status⟩
  . cases h
    exact ⟨rfl, rfl, hnotFound ▸ .notFound⟩
  . rcases allocate_eq_some h with ⟨handler, collector, hinit, rfl, rfl⟩
    exact ⟨rfl, rfl, hproxy ▸ .proxy hinit⟩
  . cases h
    exact ⟨rfl, rfl, hhealth ▸ .health⟩
  . rcases allocate_eq_some h with ⟨handler, collector, hinit, rfl, rfl⟩
    exact ⟨rfl, rfl, hlogin ▸ .login hinit⟩
  . cases h

theorem createdFor_createHandler {path method : Bytes} {config : NginxConfig}
    {startup startup' : Startup} {rh : HandlerPtr}
    (h : createHandler path method config startup = .ok (some rh, startup'))
    : CreatedFor path startup startup' rh := by
  rcases createHandler_eq_some h with ⟨haddress, hallocated, hbuilds⟩
  refine ⟨haddress, hallocated, ?_⟩
  intro handler hobject
  rw [hobject] at hbuilds
  cases hbuilds with
  | static hinit =>
    rcases StaticRequestHandler.init_eq_some hinit with ⟨hpath, ⟨root, -, hquoted⟩, -⟩
    exact ⟨hpath, utility.getLast?_of_isQuoted hquoted⟩

/--
The entries of a map built by registration, when `allocated` handlers have been allocated.
-/
structure Registered (generator : RequestHandlerGenerator) (allocated : Nat) : Prop where
  entry : ∀ path value, generator.map.find? path = some value →
    ∃ ptr, value = some ptr ∧ ptr.address < allocated
      ∧ ∀ handler, ptr.object = .static handler →
          handler.path = path ∧ handler.root.getLast? = some '/'.toUInt8
  distinct : ∀ path path' value, generator.map.find? path = some value →
    generator.map.find? path' = some value → path = path'

theorem Registered.insert {generator : RequestHandlerGenerator} {path : Bytes}
    {startup startup' : Startup} {rh : HandlerPtr} (h : Registered generator startup.allocated)
    (hcreated : CreatedFor path startup startup' rh)
    : Registered { generator with map := generator.map.insert path (some rh) } startup'.allocated := by
  have hnew : ∀ path' value, generator.map.find? path' = some value → value ≠ some rh := by
    rintro path' value hfind rfl
    rcases h.entry path' _ hfind with ⟨ptr, hptr, haddress, -⟩
    simp only [Option.some.injEq] at hptr
    rw [← hptr, hcreated.address] at haddress
    omega
  constructor
  . intro path' value hfind
    rcases OrdMap.find?_insert_eq_some hfind with hfind | ⟨rfl, rfl⟩
    . rcases h.entry path' value hfind with ⟨ptr, hptr, haddress, hstatic⟩
      have hallocated := hcreated.allocated
      exact ⟨ptr, hptr, by omega, hstatic⟩
    . have haddress := hcreated.address
      have hallocated := hcreated.allocated
      exact ⟨rh, rfl, by omega, hcreated.static⟩
  . intro path1 path2 value hfind1 hfind2
    rcases OrdMap.find?_insert_eq_some hfind1 with hold1 | ⟨rfl, rfl⟩
    . rcases OrdMap.find?_insert_eq_some hfind2 with hold2 | ⟨rfl, rfl⟩
      . exact h.distinct path1 path2 value hold1 hold2
      . exact absurd rfl (hnew path1 _ hold1)
    . rcases OrdMap.find?_insert_eq_some hfind2 with hold2 | ⟨rfl, -⟩
      . exact absurd rfl (hnew path2 _ hold2)
      . rfl

/-! ## Statement by statement -/

theorem getMapFrom_cons_eq (generator : RequestHandlerGenerator) (startup : Startup)
    (statement : NginxConfigStatement) (statements : NginxConfig)
    : getMapFrom generator startup (statement :: statements)
        =
      getMapFrom generator startup [statement] >>= fun result =>
        if result.1 then getMapFrom result.2.1 result.2.2 statements else .ok result := by
  rw [getMapFrom, getMapFrom]
  split
  . split
    . rfl
    . split
      . next method path hmethod hpath =>
        cases utility.isQuoted path with
        | ok quoted =>
          rcases quoted with ⟨pathIsQuoted, path'⟩
          cases pathIsQuoted with
          | false => rfl
          | true =>
            cases statement.childBlock with
            | none => rfl
            | some block =>
              simp only [Outcome.ok_bind]
              cases createHandler path' method block startup with
              | ok created =>
                rcases created with ⟨rh, startup'⟩
                cases rh <;> rfl
              | throws e => rfl
              | undefined => rfl
        | throws e => rfl
        | undefined => rfl
      . rfl
  . rfl

theorem getMapFrom_of_not_location {generator : RequestHandlerGenerator} {startup : Startup}
    {statement : NginxConfigStatement} (hlocation : ¬IsLocation statement)
    : getMapFrom generator startup [statement] = .ok (true, generator, startup) := by
  rw [IsLocation] at hlocation
  rw [getMapFrom, if_neg hlocation]
  rfl

structure Creates (statement : NginxConfigStatement) (path : Bytes) (startup startup' : Startup)
    (rh : HandlerPtr) : Prop where
  keyword : statement.tokens.head? = some (Bytes.lit "location")
  token : ∃ token, statement.tokens[1]? = some token ∧ utility.isQuoted token = .ok (true, path)
  handler : ∃ method block, statement.tokens[2]? = some method ∧ statement.childBlock = some block
    ∧ createHandler path method block startup = .ok (some rh, startup')

theorem getMapFrom_location {generator generator' : RequestHandlerGenerator} {startup startup' : Startup}
    {statement : NginxConfigStatement} {accepted : Bool} (hlocation : IsLocation statement)
    (h : getMapFrom generator startup [statement] = .ok (accepted, generator', startup'))
    : accepted = false ∧ generator' = generator
        ∨ accepted = true ∧ ∃ path rh, Creates statement path startup startup' rh
          ∧ generator' = { generator with map := generator.map.insert path (some rh) } := by
  rw [IsLocation] at hlocation
  rw [getMapFrom, if_pos hlocation] at h
  split at h
  next =>
    cases h
    exact .inl ⟨rfl, rfl⟩
  next =>
    split at h
    next method token hmethod htoken =>
      -- there is a second token, so it is not a statement without tokens that is taken for a location
      have hkeyword : statement.tokens.head? = some (Bytes.lit "location") := by
        apply hlocation.resolve_left
        intro hnil
        rw [hnil] at htoken
        cases htoken
      rcases Outcome.bind_eq_ok.mp h with ⟨⟨pathIsQuoted, path⟩, hquoted, h⟩
      cases pathIsQuoted with
      | false =>
        cases h
        exact .inl ⟨rfl, rfl⟩
      | true =>
        simp only [Bool.not_true, Bool.false_eq_true, if_false] at h
        split at h
        next => cases h
        next block hblock =>
          rcases Outcome.bind_eq_ok.mp h with ⟨⟨rh, startup1⟩, hcreate, h⟩
          cases rh with
          | none =>
            cases h
            exact .inl ⟨rfl, rfl⟩
          | some rh =>
            cases h
            exact .inr ⟨rfl, path, rh, ⟨hkeyword, ⟨token, htoken, hquoted⟩,
              method, block, hmethod, hblock, hcreate⟩, rfl⟩
    next => cases h

theorem getMapFrom_cons {generator generator' : RequestHandlerGenerator} {startup startup' : Startup}
    {statement : NginxConfigStatement} {statements : NginxConfig} {accepted : Bool}
    (h : getMapFrom generator startup (statement :: statements) = .ok (accepted, generator', startup'))
    : generator' = generator
        ∨ getMapFrom generator startup statements = .ok (accepted, generator', startup')
        ∨ ∃ path rh startup1, Creates statement path startup startup1 rh
            ∧ getMapFrom { generator with map := generator.map.insert path (some rh) } startup1 statements
                = .ok (accepted, generator', startup') := by
  rw [getMapFrom_cons_eq] at h
  rcases Outcome.bind_eq_ok.mp h with ⟨⟨passed, generator1, startup1⟩, hstatement, hrest⟩
  by_cases hlocation : IsLocation statement
  . rcases getMapFrom_location hlocation hstatement with ⟨rfl, rfl⟩ | ⟨rfl, path, rh, hcreates, rfl⟩
    . cases hrest
      exact .inl rfl
    . exact .inr (.inr ⟨path, rh, startup1, hcreates, hrest⟩)
  . rw [getMapFrom_of_not_location hlocation] at hstatement
    cases hstatement
    exact .inr (.inl hrest)

theorem getMapFrom_keeps {I : RequestHandlerGenerator → Startup → Prop} {config : NginxConfig}
    (hinsert : ∀ {generator startup statement path rh startup1}, statement ∈ config →
      I generator startup → Creates statement path startup startup1 rh →
      I { generator with map := generator.map.insert path (some rh) } startup1)
    {generator generator' : RequestHandlerGenerator} {startup startup' : Startup} {accepted : Bool}
    (h : I generator startup)
    (hmap : getMapFrom generator startup config = .ok (accepted, generator', startup'))
    : ∃ startup1, I generator' startup1 := by
  induction config generalizing generator startup with
  | nil =>
    simp only [getMapFrom, Outcome.ok.injEq, Prod.mk.injEq] at hmap
    exact ⟨startup, hmap.2.1 ▸ h⟩
  | cons statement statements ih =>
    have hlater : ∀ {generator startup statement path rh startup1}, statement ∈ statements →
        I generator startup → Creates statement path startup startup1 rh →
        I { generator with map := generator.map.insert path (some rh) } startup1 :=
      fun hmem => hinsert (List.mem_cons_of_mem _ hmem)
    rcases getMapFrom_cons hmap with rfl | hmap | ⟨path, rh, startup1, hcreates, hmap⟩
    . exact ⟨startup, h⟩
    . exact ih hlater h hmap
    . exact ih hlater (hinsert List.mem_cons_self h hcreates) hmap

theorem registered_getMapFrom {generator generator' : RequestHandlerGenerator}
    {startup startup' : Startup} {config : NginxConfig} {accepted : Bool}
    (h : Registered generator startup.allocated)
    (hmap : getMapFrom generator startup config = .ok (accepted, generator', startup'))
    : ∃ allocated, Registered generator' allocated := by
  have hinsert {generator : RequestHandlerGenerator} {startup startup1 : Startup}
      {statement : NginxConfigStatement} {path : Bytes} {rh : HandlerPtr}
      (h : Registered generator startup.allocated) (hcreates : Creates statement path startup startup1 rh)
      : Registered { generator with map := generator.map.insert path (some rh) } startup1.allocated := by
    rcases hcreates.handler with ⟨method, block, -, -, hcreate⟩
    exact h.insert (createdFor_createHandler hcreate)
  rcases @getMapFrom_keeps (fun generator startup => Registered generator startup.allocated) config
    (fun _ => hinsert) _ _ _ _ _ h hmap with ⟨startup1, h1⟩
  exact ⟨startup1.allocated, h1⟩

theorem registered_getMap {config : NginxConfig} {startup startup' : Startup} {accepted : Bool}
    {generator : RequestHandlerGenerator}
    (hmap : getMap {} config startup = .ok (accepted, generator, startup'))
    : ∃ allocated, Registered generator allocated := by
  apply registered_getMapFrom _ hmap
  exact ⟨by simp, by simp⟩

end RequestHandlerGenerator

end Foxy
