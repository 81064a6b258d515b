import FoxyServer.Config.Parser
import FoxyServer.Handlers.Locations
import FoxyServer.Server.Operands
import FoxyServer.Server.Startup

/-!
This module contains the statements that the startup code cannot do without, and the proof that it is safe
exactly if it gets to none in which something is missing.
-/

namespace Foxy

/-! ## `get_map` -/

/-- A location has too few tokens, no block, or a block that its handler cannot do with. -/
inductive Lacking (statement : NginxConfigStatement) : Prop where
  | token (hlength : statement.tokens.length < 3)
  | block (hblock : statement.childBlock = none)
  | operand (method : Bytes) (block : NginxConfig) (hmethod : statement.tokens[2]? = some method)
    (hblock : statement.childBlock = some block) (hincomplete : BlockIncomplete method block)

inductive Refused (statement : NginxConfigStatement) : Prop where
  | length (hinvalid : RequestHandlerGenerator.invalidConfig statement = true)
  | path (path : Bytes) (hlength : 3 ≤ statement.tokens.length) (hpath : statement.tokens[1]? = some path)
    (hquoted : utility.isQuoted path = .ok (false, path))

namespace RequestHandlerGenerator

theorem getMapFrom_of_refused {generator : RequestHandlerGenerator} {startup : Startup}
    {statement : NginxConfigStatement} (hlocation : IsLocation statement) (hrefused : Refused statement)
    : getMapFrom generator startup [statement] = .ok (false, generator, startup) := by
  rw [IsLocation] at hlocation
  rw [getMapFrom, if_pos hlocation]
  cases hrefused with
  | length hinvalid => rw [if_pos hinvalid]
  | path path hlength hpath hquoted =>
    split
    . rfl
    . rw [List.getElem?_eq_getElem (show 2 < statement.tokens.length by omega), hpath]
      dsimp only
      rw [hquoted]
      rfl

theorem lacking_of_undefined {generator : RequestHandlerGenerator} {startup : Startup}
    {statement : NginxConfigStatement} (h : getMapFrom generator startup [statement] = .undefined)
    : IsLocation statement ∧ Lacking statement ∧ ¬Refused statement := by
  have hlocation : IsLocation statement := by
    by_contra hlocation
    rw [getMapFrom_of_not_location hlocation] at h
    cases h
  have hrefused : ¬Refused statement := by
    intro hrefused
    rw [getMapFrom_of_refused hlocation hrefused] at h
    cases h
  refine ⟨hlocation, ?_, hrefused⟩
  rw [getMapFrom] at h
  split at h
  next =>
    split at h
    next => cases h
    next =>
      split at h
      next method path hmethod hpath =>
        rcases Outcome.bind_eq_undefined.mp h with h | ⟨⟨pathIsQuoted, path'⟩, hquoted, h⟩
        . exact absurd h (utility.isQuoted_ne_undefined path)
        cases pathIsQuoted with
        | false => cases h
        | true =>
          simp only [Bool.not_true, Bool.false_eq_true, if_false] at h
          split at h
          next hblock => exact .block hblock
          next block hblock =>
            rcases Outcome.bind_eq_undefined.mp h with h | ⟨⟨rh, startup'⟩, -, h⟩
            . exact .operand method block hmethod hblock (createHandler_eq_undefined h)
            . cases rh <;> cases h
      -- the iterators to the second and the third token are dereferenced all the same
      next hnone =>
        apply Lacking.token
        by_contra hlength
        exact hnone _ _ (List.getElem?_eq_getElem (show 2 < statement.tokens.length by omega))
          (List.getElem?_eq_getElem (show 1 < statement.tokens.length by omega))
  next => cases h

theorem not_returns_of_lacking {generator : RequestHandlerGenerator} {startup : Startup}
    {statement : NginxConfigStatement} (hlocation : IsLocation statement) (hlacking : Lacking statement)
    (hrefused : ¬Refused statement)
    : ¬(getMapFrom generator startup [statement]).Returns := by
  intro h
  rw [IsLocation] at hlocation
  rw [getMapFrom, if_pos hlocation] at h
  split at h
  next hinvalid => exact hrefused (.length hinvalid)
  next =>
    split at h
    next method path hmethod hpath =>
      have hlength : 3 ≤ statement.tokens.length := (List.getElem?_eq_some_iff.mp hmethod).1
      rcases Outcome.returns_bind.mp h with ⟨⟨pathIsQuoted, path'⟩, hquoted, h⟩
      cases pathIsQuoted with
      | false => exact hrefused (.path path hlength hpath (utility.isQuoted_false hquoted ▸ hquoted))
      | true =>
        simp only [Bool.not_true, Bool.false_eq_true, if_false] at h
        split at h
        next => exact Outcome.not_returns_undefined h
        next block hblock =>
          rcases Outcome.returns_bind.mp h with ⟨created, hcreated, -⟩
          cases hlacking with
          | token hshort => omega
          | block hnone =>
            rw [hnone] at hblock
            cases hblock
          | operand method' block' hmethod' hblock' hincomplete =>
            rw [hmethod] at hmethod'
            rw [hblock] at hblock'
            cases hmethod'
            cases hblock'
            exact not_createHandler_returns hincomplete ⟨created, hcreated⟩
    next => exact Outcome.not_returns_undefined h

inductive MapGetsTo : RequestHandlerGenerator → Startup → NginxConfig → NginxConfigStatement → Prop where
  | here : MapGetsTo generator startup (statement :: statements) statement
  | later (hpassed : getMapFrom generator startup [passed] = .ok (true, generator', startup'))
    (hlater : MapGetsTo generator' startup' statements statement)
    : MapGetsTo generator startup (passed :: statements) statement

theorem MapGetsTo.getMapFrom_eq {generator : RequestHandlerGenerator} {startup : Startup}
    {config : NginxConfig} {statement : NginxConfigStatement}
    (h : MapGetsTo generator startup config statement)
    : ∃ generator' startup' statements,
        getMapFrom generator startup config = getMapFrom generator' startup' (statement :: statements) := by
  induction h with
  | here => exact ⟨_, _, _, rfl⟩
  | later hpassed hlater ih =>
    rw [getMapFrom_cons_eq, hpassed]
    exact ih

theorem exists_lacking_of_getMap {generator : RequestHandlerGenerator} {startup : Startup}
    {config : NginxConfig} (h : getMapFrom generator startup config = .undefined)
    : ∃ statement, MapGetsTo generator startup config statement ∧ IsLocation statement
        ∧ Lacking statement ∧ ¬Refused statement := by
  induction config generalizing generator startup with
  | nil => cases h
  | cons statement statements ih =>
    rw [getMapFrom_cons_eq] at h
    rcases Outcome.bind_eq_undefined.mp h with h | ⟨⟨accepted, generator', startup'⟩, hpassed, h⟩
    . exact ⟨statement, .here, lacking_of_undefined h⟩
    . cases accepted with
      | false => cases h
      | true =>
        rcases ih h with ⟨later, hgets, hlacking⟩
        exact ⟨later, .later hpassed hgets, hlacking⟩

theorem not_getMap_returns {generator : RequestHandlerGenerator} {startup : Startup}
    {config : NginxConfig} {statement : NginxConfigStatement}
    (hgets : MapGetsTo generator startup config statement) (hlocation : IsLocation statement)
    (hlacking : Lacking statement) (hrefused : ¬Refused statement)
    : ¬(getMapFrom generator startup config).Returns := by
  rcases hgets.getMapFrom_eq with ⟨generator', startup', statements, heq⟩
  rw [heq, getMapFrom_cons_eq]
  intro h
  rcases Outcome.returns_bind.mp h with ⟨result, hresult, -⟩
  exact not_returns_of_lacking hlocation hlacking hrefused ⟨result, hresult⟩

theorem getMap_of_refused {generator : RequestHandlerGenerator} {startup : Startup}
    {config : NginxConfig} {statement : NginxConfigStatement}
    (hgets : MapGetsTo generator startup config statement) (hlocation : IsLocation statement)
    (hrefused : Refused statement)
    : ∃ generator' startup', getMapFrom generator startup config = .ok (false, generator', startup') := by
  rcases hgets.getMapFrom_eq with ⟨generator', startup', statements, heq⟩
  refine ⟨generator', startup', ?_⟩
  rw [heq, getMapFrom_cons_eq, getMapFrom_of_refused hlocation hrefused]
  rfl

end RequestHandlerGenerator

/-! ## The servers -/

inductive ServerGetsTo (starts : Nat → Bool) : Nat → List (Int × Bytes) → Int × Bytes → Prop where
  | here : ServerGetsTo starts number (portType :: portTypes) portType
  | later (hstarts : passed.2 = Bytes.lit "https" → starts number = true)
    (hlater : ServerGetsTo starts (number + 1) portTypes portType)
    : ServerGetsTo starts number (passed :: portTypes) portType

theorem createServers_of_hostname {starts : Nat → Bool} {generator : RequestHandlerGenerator}
    {threads : Int} {hostname : Bytes} {number : Nat} {portTypes : List (Int × Bytes)}
    (h : hostname ≠ [])
    : createServers starts generator threads hostname number portTypes ≠ .undefined := by
  induction portTypes generalizing number with
  | nil => exact fun h => by cases h
  | cons portType portTypes ih =>
    rcases portType with ⟨port, type⟩
    rw [createServers]
    intro hundefined
    rcases Outcome.bind_eq_undefined.mp hundefined with hundefined | ⟨server, -, hundefined⟩
    . rw [if_neg h] at hundefined
      split_ifs at hundefined
    . rcases Outcome.bind_eq_undefined.mp hundefined with hundefined | ⟨servers, -, hundefined⟩
      . exact ih hundefined
      . cases hundefined

theorem createServers_nil_eq_undefined_iff {starts : Nat → Bool} {generator : RequestHandlerGenerator}
    {threads : Int} {number : Nat} {portTypes : List (Int × Bytes)}
    : createServers starts generator threads [] number portTypes = .undefined
        ↔
      ∃ port, ServerGetsTo starts number portTypes (port, Bytes.lit "http") := by
  constructor
  . intro h
    induction portTypes generalizing number with
    | nil => cases h
    | cons portType portTypes ih =>
      rcases portType with ⟨port, type⟩
      rw [createServers] at h
      by_cases hhttps : type = Bytes.lit "https"
      . rw [if_pos hhttps] at h
        cases hstarts : starts number with
        | false =>
          rw [hstarts] at h
          cases h
        | true =>
          rw [hstarts] at h
          rcases Outcome.bind_eq_undefined.mp h with h | ⟨server, -, h⟩
          . cases h
          rcases Outcome.bind_eq_undefined.mp h with h | ⟨servers, -, h⟩
          . rcases ih h with ⟨port', hgets⟩
            exact ⟨port', .later (fun _ => hstarts) hgets⟩
          . cases h
      -- a plain port takes the last character off the hostname, which is empty
      . by_cases hhttp : type = Bytes.lit "http"
        . rw [hhttp]
          exact ⟨port, .here⟩
        . rw [if_neg hhttps, if_neg hhttp] at h
          rcases Outcome.bind_eq_undefined.mp h with h | ⟨server, -, h⟩
          . cases h
          rcases Outcome.bind_eq_undefined.mp h with h | ⟨servers, -, h⟩
          . rcases ih h with ⟨port', hgets⟩
            exact ⟨port', .later (fun heq => absurd heq hhttps) hgets⟩
          . cases h
  . rintro ⟨port, hgets⟩
    generalize hhttp : (port, Bytes.lit "http") = portType at hgets
    induction hgets with
    | here =>
      subst hhttp
      rfl
    | @later passed number portTypes portType hstarts hlater ih =>
      rcases passed with ⟨passedPort, type⟩
      rw [createServers]
      by_cases hhttps : type = Bytes.lit "https"
      . rw [if_pos hhttps, if_pos (hstarts hhttps), Outcome.ok_bind, ih hhttp]
        rfl
      . rw [if_neg hhttps]
        by_cases hpassed : type = Bytes.lit "http"
        . rw [if_pos hpassed]
          rfl
        . rw [if_neg hpassed, Outcome.ok_bind, ih hhttp]
          rfl

/-! ## The whole startup -/

def HasOperand (keyword : Bytes) (config : NginxConfig) : Prop :=
  ∃ statement ∈ config, (validKeyword keyword statement.tokens).isSome

theorem quotedOperand_eq_nil_iff {keyword operand : Bytes} {config : NginxConfig}
    (h : NginxConfig.quotedOperand keyword [] config = .ok (true, operand))
    : operand = [] ↔ ¬HasOperand keyword config := by
  rw [HasOperand]
  induction config with
  | nil =>
    simp only [NginxConfig.quotedOperand, Outcome.ok.injEq, Prod.mk.injEq, true_and] at h
    simp [h]
  | cons statement statements ih =>
    rw [NginxConfig.quotedOperand] at h
    rw [List.exists_mem_cons_iff]
    split at h
    next hvalid =>
      have hlast := utility.getLast?_of_isQuoted h
      simp only [hvalid, Option.isSome_some, true_or, not_true_eq_false, iff_false]
      rintro rfl
      cases hlast
    next hvalid =>
      rw [ih h, hvalid]
      simp

structure DirectivesRead (config : NginxConfig) : Prop where
  port : (config.getPort []).Returns
  dir : (config.getDir []).Returns
  threads : (config.getThreads 4).Returns
  hostname : (config.getHostname []).Returns

/-- All readers accept the config, and these are the ports it lists. -/
structure Accepted (config : NginxConfig) (portTypes : List (Int × Bytes)) : Prop where
  port : config.getPort [] = .ok (true, portTypes)
  dir : (config.getDir []).Yields (·.1 = true)
  threads : (config.getThreads 4).Returns
  hostname : (config.getHostname []).Yields (·.1 = true)
  map : (RequestHandlerGenerator.getMap {} config {}).Yields (·.1 = true)

inductive Lacks (starts : Nat → Bool) (config : NginxConfig) : Prop where
  | listen (statement : NginxConfigStatement) (hgets : PortGetsTo [] config statement)
    (hmisplaced : Misplaced statement.tokens)
  | location (statement : NginxConfigStatement) (hread : DirectivesRead config)
    (hgets : RequestHandlerGenerator.MapGetsTo {} {} config statement) (hlocation : IsLocation statement)
    (hlacking : Lacking statement)
  | hostname (portTypes : List (Int × Bytes)) (port : Int) (haccepted : Accepted config portTypes)
    (hgets : ServerGetsTo starts 0 portTypes (port, Bytes.lit "http"))
    (hnone : ¬HasOperand (Bytes.lit "hostname") config)

/-- The startup of a config that could be parsed is safe: a config that lacks something is refused. -/
def StartsSafely (starts : Nat → Bool) (config : NginxConfig) : Prop :=
  startUp starts true config ≠ .undefined
    ∧ (Lacks starts config → startUp starts true config = .ok none)

structure Complete (starts : Nat → Bool) (config : NginxConfig) : Prop where
  listen : ∀ statement, PortGetsTo [] config statement → ¬Misplaced statement.tokens
  location : DirectivesRead config → ∀ statement,
    RequestHandlerGenerator.MapGetsTo {} {} config statement → IsLocation statement → Lacking statement →
    Refused statement
  hostname : ∀ portTypes port, Accepted config portTypes →
    ServerGetsTo starts 0 portTypes (port, Bytes.lit "http") → HasOperand (Bytes.lit "hostname") config

theorem startUp_of_getPort {starts : Nat → Bool} {config : NginxConfig}
    (h : config.getPort [] = .undefined)
    : startUp starts true config = .undefined := by
  rw [startUp, h]
  rfl

theorem not_startUp_returns {starts : Nat → Bool} {config : NginxConfig}
    (h : ¬(RequestHandlerGenerator.getMap {} config {}).Returns)
    : ¬(startUp starts true config).Returns := by
  intro hreturns
  rw [startUp] at hreturns
  rcases Outcome.returns_bind.mp hreturns with ⟨_, -, hreturns⟩
  rcases Outcome.returns_bind.mp hreturns with ⟨_, -, hreturns⟩
  rcases Outcome.returns_bind.mp hreturns with ⟨_, -, hreturns⟩
  rcases Outcome.returns_bind.mp hreturns with ⟨_, -, hreturns⟩
  rcases Outcome.returns_bind.mp hreturns with ⟨result, hmap, -⟩
  exact h ⟨result, hmap⟩

theorem startUp_of_not_accepted {starts : Nat → Bool} {config : NginxConfig} (hread : DirectivesRead config)
    {generator : RequestHandlerGenerator} {startup : Startup}
    (hmap : RequestHandlerGenerator.getMap {} config {} = .ok (false, generator, startup))
    : startUp starts true config = .ok none := by
  rcases hread with ⟨⟨⟨getPort, portTypes⟩, hport⟩, ⟨⟨getDir, dir⟩, hdir⟩,
    ⟨⟨getThreads, threads⟩, hthreads⟩, ⟨⟨getHostname, hostname⟩, hhostname⟩⟩
  simp only [startUp, hport, hdir, hthreads, hhostname, hmap, Outcome.ok_bind]
  simp

theorem startUp_of_accepted {starts : Nat → Bool} {config : NginxConfig} {portTypes : List (Int × Bytes)}
    (h : Accepted config portTypes) (hnone : ¬HasOperand (Bytes.lit "hostname") config) {port : Int}
    (hgets : ServerGetsTo starts 0 portTypes (port, Bytes.lit "http"))
    : startUp starts true config = .undefined := by
  rcases h with ⟨hport, ⟨⟨getDir, dir⟩, hdir, rfl⟩, ⟨⟨getThreads, threads⟩, hthreads⟩,
    ⟨⟨getHostname, hostname⟩, hhostname, rfl⟩, ⟨⟨getMap, generator, startup⟩, hmap, rfl⟩⟩
  have hnil : hostname = [] := (quotedOperand_eq_nil_iff hhostname).mpr hnone
  subst hnil
  simp only [startUp, hport, hdir, hthreads, hhostname, hmap, Outcome.ok_bind, and_self, if_true]
  rw [createServers_nil_eq_undefined_iff.mpr ⟨port, hgets⟩]
  rfl

theorem startUp_eq_undefined {starts : Nat → Bool} {config : NginxConfig}
    (h : startUp starts true config = .undefined)
    : config.getPort [] = .undefined
        ∨ DirectivesRead config ∧ RequestHandlerGenerator.getMap {} config {} = .undefined
        ∨ ∃ portTypes port, Accepted config portTypes
            ∧ ServerGetsTo starts 0 portTypes (port, Bytes.lit "http")
            ∧ ¬HasOperand (Bytes.lit "hostname") config := by
  rw [startUp] at h
  rcases Outcome.bind_eq_undefined.mp h with h | ⟨⟨getPort, portTypes⟩, hport, h⟩
  . exact .inl h
  rcases Outcome.bind_eq_undefined.mp h with h | ⟨⟨getDir, dir⟩, hdir, h⟩
  . exact absurd h (quotedOperand_ne_undefined _ _ config)
  rcases Outcome.bind_eq_undefined.mp h with h | ⟨⟨getThreads, threads⟩, hthreads, h⟩
  . exact absurd h (getThreads_ne_undefined 4 config)
  rcases Outcome.bind_eq_undefined.mp h with h | ⟨⟨getHostname, hostname⟩, hhostname, h⟩
  . exact absurd h (quotedOperand_ne_undefined _ _ config)
  rcases Outcome.bind_eq_undefined.mp h with h | ⟨⟨getMap, generator, startup⟩, hmap, h⟩
  . exact .inr (.inl ⟨⟨⟨_, hport⟩, ⟨_, hdir⟩, ⟨_, hthreads⟩, ⟨_, hhostname⟩⟩, h⟩)
  . dsimp only at h
    split at h
    next haccepted =>
      rcases haccepted with ⟨-, hport', hmap', hdir', hhostname'⟩
      rcases Outcome.bind_eq_undefined.mp h with h | ⟨servers, -, h⟩
      . have hnil : hostname = [] := by
          by_contra hne
          exact createServers_of_hostname hne h
        rw [hnil] at h
        rcases createServers_nil_eq_undefined_iff.mp h with ⟨port, hgets⟩
        rw [hport'] at hport
        rw [hhostname'] at hhostname
        exact .inr (.inr ⟨portTypes, port,
          ⟨hport, ⟨_, hdir, hdir'⟩, ⟨_, hthreads⟩, ⟨_, hhostname, rfl⟩, ⟨_, hmap, hmap'⟩⟩, hgets,
          (quotedOperand_eq_nil_iff hhostname).mp hnil⟩)
      . cases h
    next => cases h

/--
The startup is safe exactly if everything is there that it needs.
-/
theorem startsSafely_iff (starts : Nat → Bool) (config : NginxConfig)
    : StartsSafely starts config ↔ Complete starts config := by
  constructor
  . rintro ⟨hsafe, hrejects⟩
    constructor
    . intro statement hgets hmisplaced
      exact hsafe (startUp_of_getPort (getPort_eq_undefined_iff.mpr ⟨statement, hgets, hmisplaced⟩))
    . intro hread statement hgets hlocation hlacking
      by_contra hrefused
      apply not_startUp_returns
        (RequestHandlerGenerator.not_getMap_returns hgets hlocation hlacking hrefused)
      exact ⟨none, hrejects (.location statement hread hgets hlocation hlacking)⟩
    . intro portTypes port haccepted hgets
      by_contra hnone
      exact hsafe (startUp_of_accepted haccepted hnone hgets)
  . intro hcomplete
    constructor
    . intro h
      rcases startUp_eq_undefined h with h | ⟨hread, h⟩ | ⟨portTypes, port, haccepted, hgets, hnone⟩
      . rcases getPort_eq_undefined_iff.mp h with ⟨statement, hgets, hmisplaced⟩
        exact hcomplete.listen statement hgets hmisplaced
      . rcases RequestHandlerGenerator.exists_lacking_of_getMap h
          with ⟨statement, hgets, hlocation, hlacking, hrefused⟩
        exact hrefused (hcomplete.location hread statement hgets hlocation hlacking)
      . exact hnone (hcomplete.hostname portTypes port haccepted hgets)
    . intro hlacks
      cases hlacks with
      | listen statement hgets hmisplaced => exact absurd hmisplaced (hcomplete.listen statement hgets)
      | location statement hread hgets hlocation hlacking =>
        have hrefused := hcomplete.location hread statement hgets hlocation hlacking
        rcases RequestHandlerGenerator.getMap_of_refused hgets hlocation hrefused
          with ⟨generator, startup, hmap⟩
        exact startUp_of_not_accepted hread hmap
      | hostname portTypes port haccepted hgets hnone =>
        exact absurd (hcomplete.hostname portTypes port haccepted hgets) hnone

/--
The parser accepts a location that ends in a semicolon, and `get_map` dereferences the block that it does
not have.
-/
theorem startUp_without_block
    : ¬∀ (starts : Nat → Bool) (input : Bytes) (config : NginxConfig),
        NginxConfigParser.parse input [] = some (.ok (true, config)) → StartsSafely starts config := by
  intro h
  have hsafe := h (fun _ => true)
    (Bytes.lit "listen http 80; hostname \"h\"; location \"/\" EchoHandler;")
    [⟨[Bytes.lit "listen", Bytes.lit "http", Bytes.lit "80"], none⟩,
      ⟨[Bytes.lit "hostname", Bytes.lit "\"h\""], none⟩,
      ⟨[Bytes.lit "location", Bytes.lit "\"/\"", Bytes.lit "EchoHandler"], none⟩]
    rfl
  exact hsafe.1 rfl

end Foxy
