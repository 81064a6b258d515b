import FoxyServer.Handlers.Locations

/-!
This module contains the two registries that startup fills: the map of the dispatcher, which keeps the first
handler of a location, and the names on the status page, where the last one stays.
-/

namespace Foxy

inductive HandlerClass where
  | static
  | echo
  | status
  | notFound
  | proxy
  | health
  | login
  deriving DecidableEq

namespace HandlerClass

def configName : HandlerClass → Bytes
  | static => Bytes.lit "StaticHandler"
  | echo => Bytes.lit "EchoHandler"
  | status => Bytes.lit "StatusHandler"
  | notFound => Bytes.lit "NotFoundHandler"
  | proxy => Bytes.lit "ProxyHandler"
  | health => Bytes.lit "HealthHandler"
  | login => Bytes.lit "LoginHandler"

def displayName : HandlerClass → Bytes
  | static => Bytes.lit "Static Request Handler"
  | echo => Bytes.lit "Echo Request Handler"
  | status => Bytes.lit "Status Request Handler"
  | notFound => Bytes.lit "404 Not Found Request Handler"
  | proxy => Bytes.lit "Proxy Request Handler"
  | health => Bytes.lit "Health Request Handler"
  | login => Bytes.lit "Login Request Handler"

theorem displayName_eq_iff (c c' : HandlerClass)
    : c.displayName = c'.displayName ↔ c.configName = c'.configName := by
  cases c <;> cases c' <;> decide

end HandlerClass

namespace RequestHandler

def handlerClass : RequestHandler → HandlerClass
  | static _ => .static
  | echo => .echo
  | status => .status
  | notFound => .notFound
  | proxy _ => .proxy
  | health => .health
  | login _ => .login

def className (handler : RequestHandler) : Bytes :=
  handler.handlerClass.configName

def displayName (handler : RequestHandler) : Bytes :=
  handler.handlerClass.displayName

end RequestHandler

/-! ## What a handler leaves in the collector -/

theorem StaticRequestHandler.init_collector {path : Bytes} {config : NginxConfig}
    {collector collector' : DataCollector} {handler : Option StaticRequestHandler}
    (h : init path config collector = .ok (handler, collector'))
    : collector' = collector.addHandler path (Bytes.lit "Static Request Handler") := by
  unfold init at h
  rcases Outcome.bind_eq_ok.mp h with ⟨root, -, h⟩
  rcases Outcome.bind_eq_ok.mp h with ⟨auth, -, h⟩
  rcases Outcome.bind_eq_ok.mp h with ⟨⟨rootIsQuoted, root'⟩, -, h⟩
  cases rootIsQuoted with
  | false =>
    simp only [Bool.not_false, if_true, Outcome.pure_eq_ok, Outcome.ok.injEq, Prod.mk.injEq] at h
    exact h.2.symm
  | true =>
    rcases Outcome.bind_eq_ok.mp h with ⟨⟨authIsQuoted, auth'⟩, -, h⟩
    simp only [Outcome.pure_eq_ok, Outcome.ok.injEq, Prod.mk.injEq] at h
    exact h.2.symm

theorem LoginRequestHandler.init_collector {path : Bytes} {config : NginxConfig}
    {collector collector' : DataCollector} {handler : Option LoginRequestHandler}
    (h : init path config collector = .ok (handler, collector'))
    : collector' = collector.addHandler path (Bytes.lit "Login Request Handler") := by
  unfold init at h
  rcases Outcome.bind_eq_ok.mp h with ⟨root, -, h⟩
  rcases Outcome.bind_eq_ok.mp h with ⟨⟨rootIsQuoted, root'⟩, -, h⟩
  cases rootIsQuoted <;>
    simp only [Bool.not_false, Bool.not_true, Bool.false_eq_true, if_true, if_false, Outcome.pure_eq_ok,
      Outcome.ok.injEq, Prod.mk.injEq] at h <;>
    exact h.2.symm

theorem ProxyRequestHandler.init_collector {path : Bytes} {config : NginxConfig}
    {collector collector' : DataCollector} {handler : Option ProxyRequestHandler}
    (h : init path config collector = .ok (handler, collector'))
    : collector' = collector.addHandler path (Bytes.lit "Proxy Request Handler") := by
  unfold init at h
  rcases Outcome.bind_eq_ok.mp h with ⟨⟨root, port⟩, -, h⟩
  rcases Outcome.bind_eq_ok.mp h with ⟨⟨rootIsQuoted, root'⟩, -, h⟩
  cases rootIsQuoted <;>
    simp only [Bool.not_false, Bool.not_true, Bool.false_eq_true, if_true, if_false, Outcome.pure_eq_ok,
      Outcome.ok.injEq, Prod.mk.injEq] at h <;>
    exact h.2.symm

namespace RequestHandlerGenerator

structure Announced (path method : Bytes) (startup startup' : Startup) (rh : HandlerPtr) : Prop where
  className : rh.object.className = method
  collector : startup'.collector = startup.collector.addHandler path rh.object.displayName

theorem announced_createHandler {path method : Bytes} {config : NginxConfig} {startup startup' : Startup}
    {rh : HandlerPtr} (h : createHandler path method config startup = .ok (some rh, startup'))
    : Announced path method startup startup' rh := by
  rcases createHandler_eq_some h with ⟨-, -, hbuilds⟩
  have hannounced {object : RequestHandler} {collector' : DataCollector}
      (h : Builds path config startup.collector method object collector')
      : object.className = method ∧ collector' = startup.collector.addHandler path object.displayName := by
    cases h with
    | static hinit => exact ⟨rfl, StaticRequestHandler.init_collector hinit⟩
    | echo => exact ⟨rfl, rfl⟩
    | status => exact ⟨rfl, rfl⟩
    | notFound => exact ⟨rfl, rfl⟩
    | proxy hinit => exact ⟨rfl, ProxyRequestHandler.init_collector hinit⟩
    | health => exact ⟨rfl, rfl⟩
    | login hinit => exact ⟨rfl, LoginRequestHandler.init_collector hinit⟩
  exact ⟨(hannounced hbuilds).1, (hannounced hbuilds).2⟩

/-! ## Statement by statement -/

def registration (statement : NginxConfigStatement) : Option (Bytes × Bytes) :=
  if IsLocation statement then
    match statement.tokens[1]?, statement.tokens[2]? with
    | some token, some method =>
      match utility.isQuoted token with
      | .ok (true, path) => some (path, method)
      | _ => none
    | _, _ => none
  else
    none

structure RegisteredIn (registered : List (Bytes × HandlerPtr)) (generator generator' : RequestHandlerGenerator)
    (startup startup' : Startup) : Prop where
  map : generator'.map = generator.map.insertEach (registered.map (Prod.map id some))
  names : startup'.collector.uriRequestHandler
    = startup.collector.uriRequestHandler.setAll (registered.map (Prod.map id (·.object.displayName)))

theorem registeredIn_nil (generator : RequestHandlerGenerator) (startup : Startup)
    : RegisteredIn [] generator generator startup startup :=
  ⟨rfl, rfl⟩

theorem RegisteredIn.append {registered registered' : List (Bytes × HandlerPtr)}
    {generator generator1 generator' : RequestHandlerGenerator} {startup startup1 startup' : Startup}
    (h : RegisteredIn registered generator generator1 startup startup1)
    (h' : RegisteredIn registered' generator1 generator' startup1 startup')
    : RegisteredIn (registered ++ registered') generator generator' startup startup' := by
  constructor
  . rw [h'.map, h.map, OrdMap.insertEach, OrdMap.insertEach, OrdMap.insertEach, List.map_append, List.foldl_append]
  . rw [h'.names, h.names, OrdMap.setAll, OrdMap.setAll, OrdMap.setAll, List.map_append, List.foldl_append]

def Names (registered : List (Bytes × HandlerPtr)) (registrations : List (Bytes × Bytes)) : Prop :=
  registered.map (Prod.map id (·.object.className)) = registrations

theorem registeredIn_statement {generator generator' : RequestHandlerGenerator} {startup startup' : Startup}
    {statement : NginxConfigStatement}
    (h : getMapFrom generator startup [statement] = .ok (true, generator', startup'))
    : ∃ registered, Names registered (registration statement).toList
        ∧ RegisteredIn registered generator generator' startup startup' := by
  by_cases hlocation : IsLocation statement
  . rcases exists_created_of_location hlocation h with ⟨path, rh, hcreates, rfl⟩
    rcases hcreates.token with ⟨token, htoken, hquoted⟩
    rcases hcreates.handler with ⟨method, block, hmethod, -, hcreate⟩
    have hannounced := announced_createHandler hcreate
    have hregistration : registration statement = some (path, rh.object.className) := by
      rw [registration, if_pos hlocation, htoken, hmethod]
      simp only [hquoted, hannounced.className]
    rw [hregistration]
    exact ⟨[(path, rh)], rfl, rfl, congrArg DataCollector.uriRequestHandler hannounced.collector⟩
  . rw [getMapFrom_of_not_location hlocation] at h
    cases h
    rw [registration, if_neg hlocation]
    exact ⟨[], rfl, registeredIn_nil generator startup⟩

theorem registeredIn_getMapFrom {generator generator' : RequestHandlerGenerator} {startup startup' : Startup}
    {config : NginxConfig} (h : getMapFrom generator startup config = .ok (true, generator', startup'))
    : ∃ registered, Names registered (config.filterMap registration)
        ∧ RegisteredIn registered generator generator' startup startup' := by
  induction config generalizing generator startup with
  | nil =>
    cases h
    exact ⟨[], rfl, registeredIn_nil _ _⟩
  | cons statement statements ih =>
    rw [getMapFrom_cons_eq] at h
    rcases Outcome.bind_eq_ok.mp h with ⟨⟨accepted, generator1, startup1⟩, hstatement, h⟩
    cases accepted with
    | false => cases h
    | true =>
      rcases registeredIn_statement hstatement with ⟨first, hfirst, hregistered⟩
      rcases ih h with ⟨later, hlater, hregistered'⟩
      refine ⟨first ++ later, ?_, hregistered.append hregistered'⟩
      have hcons : (statement :: statements).filterMap registration
          = (registration statement).toList ++ statements.filterMap registration := by
        rw [List.filterMap_cons]
        cases registration statement <;> rfl
      rw [hcons, Names, List.map_append, hfirst, hlater]

/-! ## The two registries -/

def classesAt (path : Bytes) (config : NginxConfig) : List Bytes :=
  OrdMap.valuesAt path (config.filterMap registration)

structure RegistriesAgree (generator : RequestHandlerGenerator) (collector : DataCollector) : Prop where
  keys : ∀ path, path ∈ generator.map.keys ↔ path ∈ collector.uriRequestHandler.keys
  names : ∀ path ∈ generator.map.keys, ∃ ptr, generator.map.find? path = some (some ptr)
    ∧ collector.uriRequestHandler.find? path = some ptr.object.displayName

theorem RegisteredIn.find?_map {registered : List (Bytes × HandlerPtr)} {generator : RequestHandlerGenerator}
    {startup startup' : Startup} (h : RegisteredIn registered {} generator startup startup') (path : Bytes)
    : generator.map.find? path = (OrdMap.valuesAt path registered).head?.map some := by
  rw [h.map, OrdMap.find?_insertEach, OrdMap.valuesAt_map, List.head?_map]
  rfl

theorem RegisteredIn.find?_names {registered : List (Bytes × HandlerPtr)}
    {generator generator' : RequestHandlerGenerator} {startup : Startup}
    (h : RegisteredIn registered generator generator' {} startup) (path : Bytes)
    : startup.collector.uriRequestHandler.find? path
        =
      (OrdMap.valuesAt path registered).getLast?.map (·.object.displayName) := by
  rw [h.names, OrdMap.find?_setAll, OrdMap.valuesAt_map, List.getLast?_map]
  exact Option.or_none

/--
The two registries agree exactly if the first and the last statement for a path name the same class. That
they have the same paths is always so.
-/
theorem registries_agree_iff {config : NginxConfig} {generator : RequestHandlerGenerator} {startup : Startup}
    (h : getMap {} config {} = .ok (true, generator, startup))
    : RegistriesAgree generator startup.collector
        ↔
      ∀ path, (classesAt path config).head? = (classesAt path config).getLast? := by
  rcases registeredIn_getMapFrom h with ⟨registered, hnames, hregistered⟩
  have hclasses (path : Bytes) : classesAt path config
      = (OrdMap.valuesAt path registered).map (·.object.className) := by
    rw [classesAt, ← hnames, OrdMap.valuesAt_map]
  have hkeys (path : Bytes) : path ∈ generator.map.keys ↔ path ∈ startup.collector.uriRequestHandler.keys := by
    rw [OrdMap.mem_keys_iff, OrdMap.mem_keys_iff, hregistered.find?_map, hregistered.find?_names]
    cases OrdMap.valuesAt path registered <;> simp [List.getLast?_cons]
  have hpath (path : Bytes) : (path ∈ generator.map.keys → ∃ ptr, generator.map.find? path = some (some ptr)
        ∧ startup.collector.uriRequestHandler.find? path = some ptr.object.displayName)
      ↔ (classesAt path config).head? = (classesAt path config).getLast? := by
    rw [OrdMap.mem_keys_iff, hregistered.find?_map, hregistered.find?_names, hclasses]
    cases hvalues : OrdMap.valuesAt path registered with
    | nil => simp
    | cons first later =>
      rw [List.head?_map, List.getLast?_map, List.getLast?_cons]
      simp only [List.head?_cons, Option.map_some, Option.some.injEq]
      constructor
      . intro hname
        rcases hname ⟨some first, rfl⟩ with ⟨ptr, rfl, hname⟩
        exact ((HandlerClass.displayName_eq_iff _ _).mp hname).symm
      . intro hclass _
        exact ⟨first, rfl, (HandlerClass.displayName_eq_iff _ _).mpr hclass.symm⟩
  constructor
  . intro hagree path
    exact (hpath path).mp (hagree.names path)
  . intro hsame
    exact ⟨hkeys, fun path => (hpath path).mpr (hsame path)⟩

def locationOf (path className : String) : NginxConfigStatement :=
  ⟨[Bytes.lit "location", Bytes.lit ("\"" ++ path ++ "\""), Bytes.lit className], some []⟩

theorem registries_agree_same_class
    : RegistriesAgree (registeredBy [locationOf "/a" "EchoHandler", locationOf "/a/" "EchoHandler"]).1
        (registeredBy [locationOf "/a" "EchoHandler", locationOf "/a/" "EchoHandler"]).2.collector := by
  have hmap : getMap {} [locationOf "/a" "EchoHandler", locationOf "/a/" "EchoHandler"] {}
      = .ok (true, registeredBy [locationOf "/a" "EchoHandler", locationOf "/a/" "EchoHandler"]) := rfl
  have hregistrations : [locationOf "/a" "EchoHandler", locationOf "/a/" "EchoHandler"].filterMap registration
      = [(Bytes.lit "/a/", Bytes.lit "EchoHandler"), (Bytes.lit "/a/", Bytes.lit "EchoHandler")] := rfl
  apply (registries_agree_iff hmap).mpr
  intro path
  rw [classesAt, hregistrations, OrdMap.valuesAt_cons, OrdMap.valuesAt_cons]
  split_ifs <;> rfl

/-- The status page names the handler of the second statement, requests go to that of the first. -/
theorem registries_disagree
    : ¬∀ (config : NginxConfig) (generator : RequestHandlerGenerator) (startup : Startup),
        getMap {} config {} = .ok (true, generator, startup) → RegistriesAgree generator startup.collector := by
  intro h
  have hagree := h [locationOf "/a" "EchoHandler", locationOf "/a/" "StatusHandler"] _ _ rfl
  rcases hagree.names (Bytes.lit "/a/") (by decide +kernel) with ⟨ptr, hptr, hname⟩
  have hptr : some (some ptr) = some (some ⟨0, .echo⟩) := hptr.symm.trans rfl
  have hname : some ptr.object.displayName = some (Bytes.lit "Status Request Handler") := hname.symm.trans rfl
  simp only [Option.some.injEq] at hptr
  subst hptr
  revert hname
  decide

end RequestHandlerGenerator

end Foxy
