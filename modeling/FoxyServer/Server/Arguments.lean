import FoxyServer.Config.Origins
import FoxyServer.Config.RoundTrip
import FoxyServer.Server.Startup
import FoxyServer.Handlers.Registration

/-!
This module contains what becomes of the string arguments of a config. `is_quoted` can decide about each of
them, and what is taken from one is a directory path; a proxy takes the slash off its host again.
-/

namespace Foxy

/-! ## `is_quoted` -/

/--
`is_quoted` returns. It accepts the string if it starts with a double quote, and then leaves the text between
the quotes as a directory path; otherwise it leaves the string as it is.
-/
def Decides (s : Bytes) : Prop :=
  ∃ accepted s', utility.isQuoted s = .ok (accepted, s')
    ∧ (accepted = true ↔ s.head? = some '\x22'.toUInt8)
    ∧ (accepted = true →
        ∃ text, s = '\x22'.toUInt8 :: (text ++ ['\x22'.toUInt8]) ∧ s' = utility.directoryOf text)
    ∧ (accepted = false → s' = s)

structure IsDirectory (value : Bytes) : Prop where
  nonempty : value ≠ []
  slash : value.getLast? = some '/'.toUInt8

structure TakenFrom (token value : Bytes) : Prop where
  text : ∃ text, token = '\x22'.toUInt8 :: (text ++ ['\x22'.toUInt8]) ∧ value = utility.directoryOf text
  directory : IsDirectory value

theorem takenFrom_of_isQuoted {token value : Bytes} (h : utility.isQuoted token = .ok (true, value))
    : TakenFrom token value := by
  refine ⟨utility.isQuoted_eq_true_iff.mp h, ?_, utility.getLast?_of_isQuoted h⟩
  intro hnil
  have hlast := utility.getLast?_of_isQuoted h
  rw [hnil] at hlast
  cases hlast

theorem decides_of_head? {s : Bytes} (h : s.head? ≠ some '\x22'.toUInt8) : Decides s := by
  refine ⟨false, s, utility.isQuoted_of_unquoted (.inl h), ?_, ?_, ?_⟩
  . simpa using h
  . intro haccepted
    cases haccepted
  . intro
    rfl

theorem decides_of_lexValid {token : Bytes} (h : NginxConfigParser.LexValid token) : Decides token := by
  rcases h with ⟨text, -, rfl⟩ | ⟨text, -, rfl⟩ | ⟨-, -, hhead⟩
  . refine ⟨true, utility.directoryOf text, utility.isQuoted_quoted text, ?_, ?_, ?_⟩
    . simp
    . intro
      exact ⟨text, rfl, rfl⟩
    . intro haccepted
      cases haccepted
  . apply decides_of_head?
    simp
  . apply decides_of_head?
    intro hquote
    exact (hhead _ hquote).2.2.1 rfl

/-! ## Operands -/

theorem mem_of_dropWhile {keyword first operand : Bytes} {tokens rest : List Bytes}
    (h : tokens.dropWhile (· ≠ keyword) = first :: operand :: rest)
    : operand ∈ tokens := by
  have hsuffix := List.dropWhile_suffix (l := tokens) (fun token => decide (token ≠ keyword))
  rw [h] at hsuffix
  apply hsuffix.subset
  exact List.mem_cons_of_mem _ List.mem_cons_self

theorem mem_of_operandOf {keyword operand : Bytes} {tokens : List Bytes}
    (h : operandOf keyword tokens = .ok (some operand))
    : operand ∈ tokens := by
  rw [operandOf] at h
  split at h
  next => cases h
  next => cases h
  next hdrop =>
    cases h
    exact mem_of_dropWhile hdrop

theorem mem_of_validKeyword {keyword operand : Bytes} {tokens rest : List Bytes}
    (h : validKeyword keyword tokens = some (operand, rest))
    : operand ∈ tokens := by
  rw [validKeyword] at h
  split at h
  next hdrop =>
    cases h
    exact mem_of_dropWhile hdrop
  next => cases h

theorem occurs_of_lastOperand {keyword value operand : Bytes} {block : NginxConfig}
    (h : StaticRequestHandler.lastOperand keyword value block = .ok operand)
    : operand = value ∨ Occurs operand block := by
  induction block generalizing value with
  | nil =>
    cases h
    exact .inl rfl
  | cons statement statements ih =>
    rw [StaticRequestHandler.lastOperand] at h
    rcases Outcome.bind_eq_ok.mp h with ⟨found, hfound, h⟩
    rcases ih h with heq | hlater
    . cases found with
      | none => exact .inl heq
      | some token =>
        rw [heq]
        exact .inr (occurs_of_mem List.mem_cons_self (mem_of_operandOf hfound))
    . exact .inr (.later hlater)

/-! ## `get_dir`, `get_hostname` -/

def firstOperand (keyword : Bytes) (config : NginxConfig) : Option Bytes :=
  config.findSome? fun statement => (validKeyword keyword statement.tokens).map Prod.fst

/--
What `get_dir` and `get_hostname` make of the first operand: without one the value stays as it is, and an
operand that is not a string argument makes the config invalid.
-/
inductive Reads (value : Bytes) : Option Bytes → Bool × Bytes → Prop where
  | absent : Reads value none (true, value)
  | taken (h : TakenFrom token directory) : Reads value (some token) (true, directory)
  | refused (h : token.head? ≠ some '\x22'.toUInt8) : Reads value (some token) (false, token)

theorem quotedOperand_reads {keyword : Bytes} {config : NginxConfig} (hdecides : AllTokens Decides config)
    (value : Bytes)
    : (config.quotedOperand keyword value).Yields (Reads value (firstOperand keyword config)) := by
  induction config with
  | nil => exact ⟨_, rfl, .absent⟩
  | cons statement statements ih =>
    rw [NginxConfig.quotedOperand, firstOperand, List.findSome?_cons]
    cases hvalid : validKeyword keyword statement.tokens with
    | none => exact ih fun token htoken => hdecides token (.later htoken)
    | some found =>
      rcases found with ⟨operand, rest⟩
      have hmem := mem_of_validKeyword hvalid
      rcases hdecides operand (occurs_of_mem List.mem_cons_self hmem)
        with ⟨accepted, directory, hquoted, hhead, -, hrefused⟩
      refine ⟨(accepted, directory), hquoted, ?_⟩
      cases accepted with
      | false =>
        rw [hrefused rfl]
        apply Reads.refused
        intro hquote
        exact Bool.false_ne_true (hhead.mpr hquote)
      | true => exact .taken (takenFrom_of_isQuoted hquoted)

/-! ## `get_map` -/

/--
What the handler for a location keeps of the string arguments in its block. Without an `auth` argument there is
no auth path, and the host of a proxy loses the slash at its end.
-/
def KeepsArguments (block : NginxConfig) : RequestHandler → Prop
  | .static handler =>
    (∃ token, StaticRequestHandler.lastOperand (Bytes.lit "root") [] block = .ok token
        ∧ TakenFrom token handler.root)
      ∧ ∃ token, StaticRequestHandler.lastOperand (Bytes.lit "auth") [] block = .ok token
        ∧ (TakenFrom token handler.authPath
          ∨ token.head? ≠ some '\x22'.toUInt8 ∧ handler.authPath = [])
  | .login handler =>
    ∃ token, StaticRequestHandler.lastOperand (Bytes.lit "root") [] block = .ok token
      ∧ TakenFrom token handler.root
  | .proxy handler =>
    ∃ token directory, StaticRequestHandler.lastOperand (Bytes.lit "host") [] block = .ok token
      ∧ TakenFrom token directory ∧ handler.root = directory.dropLast
  | .echo | .status | .notFound | .health => True

def OperandsDecided (block : NginxConfig) : Prop :=
  ∀ keyword token, StaticRequestHandler.lastOperand keyword [] block = .ok token → Decides token

theorem operandsDecided_of_allTokens {block : NginxConfig} (h : AllTokens Decides block)
    : OperandsDecided block := by
  intro keyword token htoken
  rcases occurs_of_lastOperand htoken with rfl | hoccurs
  . exact decides_of_head? (by simp)
  . exact h token hoccurs

theorem keepsArguments_static {path : Bytes} {block : NginxConfig} {collector collector' : DataCollector}
    {handler : StaticRequestHandler} (hdecided : OperandsDecided block)
    (h : StaticRequestHandler.init path block collector = .ok (some handler, collector'))
    : KeepsArguments block (.static handler) := by
  rcases StaticRequestHandler.init_eq_some h
    with ⟨-, ⟨root, hroot, hrootQuoted⟩, auth, authIsQuoted, auth', hauth, hauthQuoted, hauthPath⟩
  refine ⟨⟨root, hroot, takenFrom_of_isQuoted hrootQuoted⟩, auth, hauth, ?_⟩
  rcases hdecided _ _ hauth with ⟨accepted, auth'', hquoted, hhead, -, -⟩
  rw [hauthQuoted] at hquoted
  cases hquoted
  cases authIsQuoted with
  | false =>
    right
    refine ⟨?_, hauthPath⟩
    intro hquote
    exact Bool.false_ne_true (hhead.mpr hquote)
  | true =>
    left
    rw [hauthPath]
    exact takenFrom_of_isQuoted hauthQuoted

theorem keepsArguments_login {path : Bytes} {block : NginxConfig} {collector collector' : DataCollector}
    {handler : LoginRequestHandler}
    (h : LoginRequestHandler.init path block collector = .ok (some handler, collector'))
    : KeepsArguments block (.login handler) := by
  rcases LoginRequestHandler.init_eq_some h with ⟨-, root, hroot, hquoted⟩
  exact ⟨root, hroot, takenFrom_of_isQuoted hquoted⟩

theorem keepsArguments_proxy {path : Bytes} {block : NginxConfig} {collector collector' : DataCollector}
    {handler : ProxyRequestHandler}
    (h : ProxyRequestHandler.init path block collector = .ok (some handler, collector'))
    : KeepsArguments block (.proxy handler) := by
  rcases ProxyRequestHandler.init_eq_some h with ⟨-, host, directory, hhost, hquoted, hroot⟩
  exact ⟨host, directory, hhost, takenFrom_of_isQuoted hquoted, hroot⟩

namespace RequestHandlerGenerator

theorem keepsArguments_createHandler {path method : Bytes} {block : NginxConfig} {startup startup' : Startup}
    {rh : HandlerPtr} (hdecided : OperandsDecided block)
    (h : createHandler path method block startup = .ok (some rh, startup'))
    : KeepsArguments block rh.object := by
  rcases createHandler_eq_some h with ⟨-, -, hbuilds⟩
  have hkeeps {object : RequestHandler} {collector' : DataCollector}
      (h : Builds path block startup.collector method object collector') : KeepsArguments block object := by
    cases h with
    | static hinit => exact keepsArguments_static hdecided hinit
    | echo => trivial
    | status => trivial
    | notFound => trivial
    | proxy hinit => exact keepsArguments_proxy hinit
    | health => trivial
    | login hinit => exact keepsArguments_login hinit
  exact hkeeps hbuilds

def TakenFromLocations (config : NginxConfig) (generator : RequestHandlerGenerator) : Prop :=
  ∀ path value, generator.map.find? path = some value →
    ∃ statement ∈ config, ∃ token block rh,
      statement.tokens.head? = some (Bytes.lit "location") ∧ statement.tokens[1]? = some token
        ∧ statement.childBlock = some block ∧ value = some rh
        ∧ TakenFrom token path ∧ KeepsArguments block rh.object

theorem TakenFromLocations.insert {config : NginxConfig} {generator : RequestHandlerGenerator}
    {statement : NginxConfigStatement} {path : Bytes} {startup startup' : Startup} {rh : HandlerPtr}
    (hdecides : AllTokens Decides config) (hmem : statement ∈ config)
    (h : TakenFromLocations config generator) (hcreates : Creates statement path startup startup' rh)
    : TakenFromLocations config { generator with map := generator.map.insert path (some rh) } := by
  intro path' value hfind
  rcases OrdMap.find?_insert_eq_some hfind with hold | ⟨rfl, rfl⟩
  . exact h path' value hold
  . rcases hcreates.token with ⟨token, htoken, hquoted⟩
    rcases hcreates.handler with ⟨method, block, -, hblock, hcreate⟩
    have hdecided : OperandsDecided block :=
      operandsDecided_of_allTokens fun token htoken => hdecides token (occurs_of_block hmem hblock htoken)
    exact ⟨statement, hmem, token, block, rh, hcreates.keyword, htoken, hblock, rfl,
      takenFrom_of_isQuoted hquoted, keepsArguments_createHandler hdecided hcreate⟩

theorem takenFromLocations_getMap {config : NginxConfig} {startup startup' : Startup} {accepted : Bool}
    {generator : RequestHandlerGenerator} (hdecides : AllTokens Decides config)
    (h : getMap {} config startup = .ok (accepted, generator, startup'))
    : TakenFromLocations config generator := by
  have hempty : TakenFromLocations config {} := by
    intro path value hfind
    cases hfind
  rcases @getMapFrom_keeps (fun generator _ => TakenFromLocations config generator) config
    (fun hmem => TakenFromLocations.insert hdecides hmem) _ _ _ _ _ hempty h with ⟨-, htaken⟩
  exact htaken

end RequestHandlerGenerator

/-! ## The whole config -/

structure TakesArguments (config : NginxConfig) : Prop where
  tokens : AllTokens Decides config
  operands : ∀ statement ∈ config, ∀ block, statement.childBlock = some block → OperandsDecided block
  dir : ∀ value, (config.getDir value).Yields (Reads value (firstOperand (Bytes.lit "dir") config))
  hostname : ∀ value,
    (config.getHostname value).Yields (Reads value (firstOperand (Bytes.lit "hostname") config))
  locations : ∀ startup accepted generator startup',
    RequestHandlerGenerator.getMap {} config startup = .ok (accepted, generator, startup') →
    RequestHandlerGenerator.TakenFromLocations config generator

theorem takesArguments_of_allTokens {config : NginxConfig} (h : AllTokens Decides config)
    : TakesArguments config where
  tokens := h
  operands := by
    intro statement hmem block hblock
    apply operandsDecided_of_allTokens
    intro token htoken
    exact h token (occurs_of_block hmem hblock htoken)
  dir := quotedOperand_reads h
  hostname := quotedOperand_reads h
  locations := by
    intro startup accepted generator startup' hmap
    exact RequestHandlerGenerator.takenFromLocations_getMap h hmap

/--
`is_quoted` can decide about every token of a text and about the empty string. What the readers of the config
take from the text, whether it is accepted or not, are directory paths, and a proxy keeps its host without the
slash.
-/
theorem arguments_are_directories (input : Bytes)
    : (∀ token, NginxConfigParser.Delivers input token → Decides token)
        ∧ Decides []
        ∧ ∀ accepted config, NginxConfigParser.parse input [] = some (.ok (accepted, config)) →
            TakesArguments config := by
  have htokens : ∀ token, NginxConfigParser.Delivers input token → Decides token := by
    intro token htoken
    exact decides_of_lexValid (NginxConfigParser.lexValid_of_mem_tokens htoken)
  refine ⟨htokens, decides_of_head? (by simp), ?_⟩
  intro accepted config hparse
  apply takesArguments_of_allTokens
  intro token hoccurs
  exact htokens token (NginxConfigParser.delivers_of_parse hparse token hoccurs)

def proxies : NginxConfig :=
  [⟨[Bytes.lit "listen", Bytes.lit "https", Bytes.lit "443"], none⟩,
    ⟨[Bytes.lit "location", Bytes.lit "\"/ucla\"", Bytes.lit "ProxyHandler"],
      some [⟨[Bytes.lit "host", Bytes.lit "\"www.ucla.edu\""], none⟩]⟩,
    ⟨[Bytes.lit "location", Bytes.lit "\"/none\"", Bytes.lit "ProxyHandler"],
      some [⟨[Bytes.lit "host", Bytes.lit "\"\""], none⟩]⟩]

def proxiesText : Bytes :=
  Bytes.lit "listen https 443; location \"/ucla\" ProxyHandler \x7b host \"www.ucla.edu\"; \x7d"
    ++ Bytes.lit " location \"/none\" ProxyHandler \x7b host \"\"; \x7d"

set_option maxRecDepth 4000 in
theorem parse_proxiesText : NginxConfigParser.parse proxiesText [] = some (.ok (true, proxies)) := by
  rfl

theorem arguments_are_directories_proxies
    : Decides (Bytes.lit "\"www.ucla.edu\"") ∧ TakesArguments proxies := by
  have hoccurs : Occurs (Bytes.lit "\"www.ucla.edu\"") proxies :=
    .later (.inside (.here (List.mem_cons_of_mem _ List.mem_cons_self)))
  have hdelivers := NginxConfigParser.delivers_of_parse parse_proxiesText _ hoccurs
  exact ⟨(arguments_are_directories proxiesText).1 _ hdelivers,
    (arguments_are_directories proxiesText).2.2 true proxies parse_proxiesText⟩

/--
The hosts that the two proxies keep: the first does not end in a slash, and the second is empty.
-/
theorem proxy_hosts_not_directories
    : NginxConfigParser.parse proxiesText [] = some (.ok (true, proxies))
        ∧ ∃ served, startUp (fun _ => true) true proxies = .ok (some served)
          ∧ served.generator.map.find? (Bytes.lit "/ucla/")
              = some (some ⟨0, .proxy { root := Bytes.lit "www.ucla.edu", path := Bytes.lit "/ucla/" }⟩)
          ∧ served.generator.map.find? (Bytes.lit "/none/")
              = some (some ⟨1, .proxy { root := [], path := Bytes.lit "/none/" }⟩)
          ∧ ¬IsDirectory (Bytes.lit "www.ucla.edu") ∧ ¬IsDirectory [] := by
  refine ⟨parse_proxiesText, _, rfl, rfl, rfl, ?_, ?_⟩
  . intro h
    exact absurd h.slash (by decide)
  . intro h
    exact h.nonempty rfl

end Foxy
