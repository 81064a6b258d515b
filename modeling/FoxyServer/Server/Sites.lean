import FoxyServer.Config.RoundTrip
import FoxyServer.Handlers.Dispatch
import FoxyServer.Library.Decimals
import FoxyServer.Server.Listens
import FoxyServer.Server.Ports

/-!
This module contains sites of directories, the config that asks for one of them, and that `main` sets up the servers
and the handlers of the site when it is given the config.
-/

namespace Foxy

/--
The ports that a site is served on, and the texts of its locations with those of their roots, to be put into quotes.
No two locations are the same path.
-/
structure Site where
  ports : List Nat
  directories : List (Bytes × Bytes)
  ports_ne : ports ≠ []
  ports_le : ∀ port ∈ ports, port ≤ 65535
  quotable : ∀ directory ∈ directories, '\x22'.toUInt8 ∉ directory.1 ∧ '\x22'.toUInt8 ∉ directory.2
  distinct : (directories.map fun directory => utility.directoryOf directory.1).Nodup

namespace Site

open NginxConfigParser RequestHandlerGenerator

/-! ## The config -/

def quoted (text : Bytes) : Bytes :=
  '\x22'.toUInt8 :: (text ++ ['\x22'.toUInt8])

def listen (port : Nat) : NginxConfigStatement :=
  ⟨[Bytes.lit "listen", Bytes.lit "https", Bytes.toDecimal port], none⟩

def location (directory : Bytes × Bytes) : NginxConfigStatement :=
  ⟨[Bytes.lit "location", quoted directory.1, Bytes.lit "StaticHandler"],
    some [⟨[Bytes.lit "root", quoted directory.2], none⟩]⟩

def config (site : Site) : NginxConfig :=
  site.ports.map listen ++ site.directories.map location

def text (site : Site) : Bytes :=
  NginxConfig.toString 0 site.config

def path (directory : Bytes × Bytes) : Bytes :=
  utility.directoryOf directory.1

def handler (directory : Bytes × Bytes) : StaticRequestHandler where
  root := utility.directoryOf directory.2
  path := path directory

theorem quoted_ne {keyword : Bytes} (h : keyword.head? ≠ some '\x22'.toUInt8) (text : Bytes)
    : quoted text ≠ keyword := by
  rintro rfl
  exact h rfl

theorem lexValid_quoted {text : Bytes} (h : '\x22'.toUInt8 ∉ text) : LexValid (quoted text) :=
  .inl ⟨text, h, rfl⟩

theorem lexValid_toDecimal (n : Nat) : LexValid (Bytes.toDecimal n) := by
  have hdigit : ∀ {c d : UInt8}, c ∈ Bytes.toDecimal n → Bytes.isDigit d = false → c ≠ d := by
    rintro c _ hc hd rfl
    rw [Bytes.isDigit_toDecimal hc] at hd
    cases hd
  refine .inr (.inr ⟨Bytes.toDecimal_ne_nil n, ?_, ?_⟩)
  . intro c hc hdelimiter
    rcases hdelimiter with rfl | rfl | rfl | rfl | rfl | rfl <;> exact hdigit hc (by decide) rfl
  . intro c hc
    have hmem := List.mem_of_mem_head? hc
    exact ⟨hdigit hmem (by decide), hdigit hmem (by decide), hdigit hmem (by decide), hdigit hmem (by decide)⟩

theorem lexValid_words : ∀ word ∈ ["listen", "https", "location", "StaticHandler", "root"].map Bytes.lit,
    LexValid word := by
  intro word hword
  have hbare : ∀ word ∈ ["listen", "https", "location", "StaticHandler", "root"].map Bytes.lit,
      word ≠ [] ∧ (∀ c ∈ word, ¬Delimiter c)
        ∧ ∀ c ∈ word.head?, c ≠ '\r'.toUInt8 ∧ c ≠ '#'.toUInt8 ∧ c ≠ '\x22'.toUInt8 ∧ c ≠ '\x27'.toUInt8 := by
    decide +kernel
  exact .inr (.inr (hbare word hword))

theorem wellFormed_config (site : Site) : WellFormed site.config := by
  have hlocations : ∀ directories : List (Bytes × Bytes),
      (∀ directory ∈ directories, '\x22'.toUInt8 ∉ directory.1 ∧ '\x22'.toUInt8 ∉ directory.2) →
        WellFormed (directories.map location) := by
    intro directories hquotable
    induction directories with
    | nil => exact .nil
    | cons directory directories ih =>
      rw [List.forall_mem_cons] at hquotable
      refine .block _ (by simp) ?_ (.simple _ (by simp) ?_ .nil) (ih hquotable.2)
      . simp only [List.forall_mem_cons, List.not_mem_nil, false_imp_iff, implies_true, and_true]
        exact ⟨lexValid_words _ (by decide), lexValid_quoted hquotable.1.1, lexValid_words _ (by decide)⟩
      . simp only [List.forall_mem_cons, List.not_mem_nil, false_imp_iff, implies_true, and_true]
        exact ⟨lexValid_words _ (by decide), lexValid_quoted hquotable.1.2⟩
  have hlistens : ∀ (ports : List Nat) (statements : NginxConfig), WellFormed statements →
      WellFormed (ports.map listen ++ statements) := by
    intro ports statements hstatements
    induction ports with
    | nil => exact hstatements
    | cons port ports ih =>
      refine .simple _ (by simp) ?_ ih
      simp only [List.forall_mem_cons, List.not_mem_nil, false_imp_iff, implies_true, and_true]
      exact ⟨lexValid_words _ (by decide), lexValid_words _ (by decide), lexValid_toDecimal port⟩
  exact hlistens _ _ (hlocations _ site.quotable)

theorem parse_text (site : Site) : parse site.text [] = some (.ok (true, site.config)) :=
  parse_of_wellFormed site.wellFormed_config

/-! ## The readers of the directives -/

theorem getPort_listens {ports : List Nat} (h : ∀ port ∈ ports, port ≤ 65535) (vec : List (Int × Bytes))
    (statements : NginxConfig)
    : NginxConfig.getPort vec (ports.map listen ++ statements)
        = NginxConfig.getPort (vec ++ ports.map fun port : Nat => ((port : Int), Bytes.lit "https")) statements := by
  induction ports generalizing vec with
  | nil => simp
  | cons port ports ih =>
    rw [List.forall_mem_cons] at h
    have hdecimal : isDecimal (Bytes.toDecimal port) = true :=
      List.all_eq_true.mpr fun c hc => Bytes.isDigit_toDecimal hc
    have hport : Bytes.stoi (Bytes.toDecimal port) = .ok port := by
      rw [stoi_of_isDecimal hdecimal, if_neg (Bytes.toDecimal_ne_nil port), Bytes.decimalValue_toDecimal,
        if_pos (by omega)]
    have hlisten : listenOf [Bytes.lit "listen", Bytes.lit "https", Bytes.toDecimal port]
        = .ok (.port port (Bytes.lit "https")) := by
      rw [GetPort.listenOf_listen, if_pos hdecimal, hport, Outcome.ok_bind, if_neg (by decide)]
    rw [List.map_cons, List.cons_append, listen, NginxConfig.getPort]
    unfold NginxConfigStatement.visitPort
    simp only [hlisten, Outcome.ok_bind, Outcome.pure_eq_ok, if_true]
    rw [ih h.2, List.map_cons, List.append_assoc, List.singleton_append]

theorem getPort_locations (directories : List (Bytes × Bytes)) (vec : List (Int × Bytes))
    : NginxConfig.getPort vec (directories.map location) = .ok (!vec.isEmpty, vec) := by
  induction directories with
  | nil => rfl
  | cons directory directories ih =>
    have hlocation : listenOf [Bytes.lit "location", quoted directory.1, Bytes.lit "StaticHandler"] = .ok .absent :=
      GetPort.listenOf_of_ne (by decide) (quoted_ne (by decide) _)
    have hroot : listenOf [Bytes.lit "root", quoted directory.2] = .ok .absent :=
      GetPort.listenOf_of_length (by simp)
    have hblock : NginxConfig.getPort vec [⟨[Bytes.lit "root", quoted directory.2], none⟩]
        = .ok (!vec.isEmpty, vec) := by
      rw [NginxConfig.getPort]
      unfold NginxConfigStatement.visitPort
      simp only [hroot, Outcome.ok_bind, Outcome.pure_eq_ok, if_true]
      rfl
    rw [List.map_cons, location, NginxConfig.getPort]
    unfold NginxConfigStatement.visitPort
    simp only [hlocation, hblock, Outcome.ok_bind, Outcome.pure_eq_ok, if_true]
    exact ih

theorem validKeyword_of_notMem {keyword : Bytes} {tokens : List Bytes} (h : keyword ∉ tokens)
    : validKeyword keyword tokens = none := by
  have hnil : tokens.dropWhile (· ≠ keyword) = [] := by
    rw [List.dropWhile_eq_nil_iff]
    intro token htoken
    rw [decide_eq_true_eq]
    rintro rfl
    exact h htoken
  rw [validKeyword, hnil]

theorem notMem_tokens {keyword : Bytes} (hkeyword : keyword ∈ ["threads", "dir", "hostname"].map Bytes.lit)
    : (∀ port, keyword ∉ (listen port).tokens) ∧ (∀ directory, keyword ∉ (location directory).tokens)
        ∧ ∀ text, keyword ∉ [Bytes.lit "root", quoted text] := by
  have hwords : ∀ keyword ∈ ["threads", "dir", "hostname"].map Bytes.lit,
      keyword ∉ ["listen", "https", "location", "StaticHandler", "root"].map Bytes.lit
        ∧ keyword.head? ≠ some '\x22'.toUInt8 ∧ keyword ≠ [] ∧ ∀ c ∈ keyword, Bytes.isDigit c = false := by
    decide +kernel
  rcases hwords keyword hkeyword with ⟨hnot, hquote, hne, hdigits⟩
  have hport : ∀ port, keyword ≠ Bytes.toDecimal port := by
    rintro port rfl
    rcases List.exists_mem_of_ne_nil _ hne with ⟨c, hc⟩
    have hdigit := hdigits c hc
    rw [Bytes.isDigit_toDecimal hc] at hdigit
    cases hdigit
  simp only [List.map_cons, List.map_nil, List.mem_cons, List.not_mem_nil, or_false, not_or] at hnot
  rcases hnot with ⟨hlisten, hhttps, hlocation, hstatic, hroot⟩
  refine ⟨?_, ?_, ?_⟩
  . intro port
    simp only [listen, List.mem_cons, List.not_mem_nil, or_false, not_or]
    exact ⟨hlisten, hhttps, hport port⟩
  . intro directory
    simp only [location, List.mem_cons, List.not_mem_nil, or_false, not_or]
    exact ⟨hlocation, (quoted_ne hquote _).symm, hstatic⟩
  . intro text
    simp only [List.mem_cons, List.not_mem_nil, or_false, not_or]
    exact ⟨hroot, (quoted_ne hquote _).symm⟩

theorem quotedOperand_config {keyword : Bytes} (hkeyword : keyword ∈ ["threads", "dir", "hostname"].map Bytes.lit)
    (site : Site) (value : Bytes) : NginxConfig.quotedOperand keyword value site.config = .ok (true, value) := by
  have habsent : ∀ config : NginxConfig, (∀ statement ∈ config, keyword ∉ statement.tokens) →
      NginxConfig.quotedOperand keyword value config = .ok (true, value) := by
    intro config h
    induction config with
    | nil => rfl
    | cons statement config ih =>
      rw [List.forall_mem_cons] at h
      rw [NginxConfig.quotedOperand, validKeyword_of_notMem h.1]
      exact ih h.2
  rcases notMem_tokens hkeyword with ⟨hlisten, hlocation, -⟩
  apply habsent
  intro statement hstatement
  rcases List.mem_append.mp hstatement with hstatement | hstatement
  . rcases List.mem_map.mp hstatement with ⟨port, -, rfl⟩
    exact hlisten port
  . rcases List.mem_map.mp hstatement with ⟨directory, -, rfl⟩
    exact hlocation directory

theorem getThreads_config (site : Site) (threads : Int) : site.config.getThreads threads = .ok (false, threads) := by
  rcases @notMem_tokens (Bytes.lit "threads") (by decide) with ⟨hlisten, hlocation, hroot⟩
  have hlocations : NginxConfig.getThreads threads (site.directories.map location) = .ok (false, threads) := by
    cases site.directories with
    | nil => rfl
    | cons directory directories =>
      -- the search ends with the first block
      refine (getThreads_block _ _ (validKeyword_of_notMem (hlocation directory))).trans ?_
      exact getThreads_pass _ _ (validKeyword_of_notMem (hroot directory.2))
  have hlistens : ∀ ports : List Nat,
      NginxConfig.getThreads threads (ports.map listen ++ site.directories.map location)
        = .ok (false, threads) := by
    intro ports
    induction ports with
    | nil => exact hlocations
    | cons port ports ih =>
      exact (getThreads_pass _ _ (validKeyword_of_notMem (hlisten port))).trans ih
  exact hlistens site.ports

/-! ## The handlers -/

def Serves (generator : RequestHandlerGenerator) (directory : Bytes × Bytes) : Prop :=
  ∃ ptr, generator.map.find? (path directory) = some (some ptr) ∧ ptr.object = .static (handler directory)

theorem init_directory (directory : Bytes × Bytes) (collector : DataCollector)
    : StaticRequestHandler.init (path directory) [⟨[Bytes.lit "root", quoted directory.2], none⟩] collector
        = .ok (some (handler directory),
            collector.addHandler (path directory) (Bytes.lit "Static Request Handler")) := by
  have hroot : StaticRequestHandler.lastOperand (Bytes.lit "root") []
      [⟨[Bytes.lit "root", quoted directory.2], none⟩] = .ok (quoted directory.2) := rfl
  have hauth : StaticRequestHandler.lastOperand (Bytes.lit "auth") []
      [⟨[Bytes.lit "root", quoted directory.2], none⟩] = .ok [] := by
    have hne : quoted directory.2 ≠ Bytes.lit "auth" := quoted_ne (by decide) _
    have hoperand : operandOf (Bytes.lit "auth") [Bytes.lit "root", quoted directory.2] = .ok none := by
      have hroot : Bytes.lit "root" ≠ Bytes.lit "auth" := by decide
      simp [operandOf, hroot, hne]
    rw [StaticRequestHandler.lastOperand, hoperand]
    rfl
  have hquoted : utility.isQuoted (quoted directory.2) = .ok (true, utility.directoryOf directory.2) :=
    utility.isQuoted_quoted directory.2
  rw [StaticRequestHandler.init, hroot, hauth]
  simp only [Outcome.ok_bind, hquoted]
  rfl

theorem getMapFrom_directory (generator : RequestHandlerGenerator) (startup : Startup)
    (directory : Bytes × Bytes) (statements : NginxConfig)
    : ∃ ptr startup', ptr.object = .static (handler directory)
        ∧ getMapFrom generator startup (location directory :: statements)
            = getMapFrom { generator with map := generator.map.insert (path directory) (some ptr) } startup'
                statements := by
  have hquoted : utility.isQuoted (quoted directory.1) = .ok (true, path directory) :=
    utility.isQuoted_quoted directory.1
  have hcreate : ∃ ptr startup', ptr.object = .static (handler directory)
      ∧ createHandler (path directory) (Bytes.lit "StaticHandler")
          [⟨[Bytes.lit "root", quoted directory.2], none⟩] startup = .ok (some ptr, startup') := by
    rw [createHandler, if_pos rfl, allocate, init_directory]
    exact ⟨_, _, rfl, rfl⟩
  rcases hcreate with ⟨ptr, startup', hobject, hcreate⟩
  refine ⟨ptr, startup', hobject, ?_⟩
  rw [location, getMapFrom, if_pos (.inr rfl), invalidConfig, if_neg (by simp)]
  simp only [List.getElem?_cons_succ, List.getElem?_cons_zero, hquoted, Outcome.ok_bind, Bool.not_true,
    Bool.false_eq_true, if_false, hcreate]

theorem getMapFrom_locations {directories : List (Bytes × Bytes)} (hdistinct : (directories.map path).Nodup)
    (generator : RequestHandlerGenerator)
    (hnew : ∀ directory ∈ directories, path directory ∉ generator.map.keys) (startup : Startup)
    : ∃ generator' startup', getMapFrom generator startup (directories.map location) = .ok (true, generator', startup')
        ∧ (∀ directory ∈ directories, Serves generator' directory)
        ∧ (∀ location, location ∈ generator'.map.keys
            ↔ location ∈ generator.map.keys ∨ location ∈ directories.map path)
        ∧ ∀ location value, generator.map.find? location = some value →
            generator'.map.find? location = some value := by
  induction directories generalizing generator startup with
  | nil => exact ⟨generator, startup, rfl, by simp, by simp, fun _ _ h => h⟩
  | cons directory directories ih =>
    rw [List.map_cons, List.nodup_cons] at hdistinct
    rw [List.forall_mem_cons] at hnew
    rcases getMapFrom_directory generator startup directory (directories.map location)
      with ⟨ptr, startup1, hobject, hfirst⟩
    have hnew1 : ∀ later ∈ directories,
        path later ∉ (generator.map.insert (path directory) (some ptr)).keys := by
      intro later hlater hmem
      rcases OrdMap.mem_keys_insert.mp hmem with hmem | heq
      . exact hnew.2 later hlater hmem
      . exact hdistinct.1 (heq ▸ List.mem_map_of_mem hlater)
    rcases ih hdistinct.2 { generator with map := generator.map.insert (path directory) (some ptr) }
      hnew1 startup1 with ⟨generator', startup', hrest, hserves, hkeys, hkept⟩
    -- `insert` keeps the first value, which is this one
    have hnone : generator.map.find? (path directory) = none := by
      rw [← Option.not_isSome_iff_eq_none, Option.isSome_iff_exists]
      exact fun hsome => hnew.1 (OrdMap.mem_keys_iff.mpr hsome)
    refine ⟨generator', startup', hfirst.trans hrest, ?_, ?_, ?_⟩
    . refine List.forall_mem_cons.mpr ⟨⟨ptr, hkept _ _ ?_, hobject⟩, hserves⟩
      rw [OrdMap.find?_insert, if_pos rfl, hnone, Option.getD_none]
    . intro location
      rw [hkeys, OrdMap.mem_keys_insert, List.map_cons, List.mem_cons, or_assoc]
    . intro location value hfind
      refine hkept _ _ ?_
      rw [OrdMap.find?_insert, if_neg, hfind]
      rintro rfl
      rw [hnone] at hfind
      cases hfind

theorem getMapFrom_listens (ports : List Nat) (generator : RequestHandlerGenerator) (startup : Startup)
    (statements : NginxConfig)
    : getMapFrom generator startup (ports.map listen ++ statements) = getMapFrom generator startup statements := by
  induction ports with
  | nil => rfl
  | cons port ports ih =>
    have hlocation : ¬((listen port).tokens = []
        ∨ (listen port).tokens.head? = some (Bytes.lit "location")) := by
      simp only [listen, List.head?_cons, Option.some.injEq, reduceCtorEq, false_or]
      decide
    rw [List.map_cons, List.cons_append, getMapFrom, if_neg hlocation]
    exact ih

theorem createServers_https {starts : Nat → Bool} (hstarts : ∀ number, starts number = true)
    (generator : RequestHandlerGenerator) (threads : Int) (hostname : Bytes) (number : Nat) (ports : List Nat)
    : createServers starts generator threads hostname number
          (ports.map fun port : Nat => ((port : Int), Bytes.lit "https"))
        = .ok (ports.map fun port : Nat => .https port generator threads) := by
  induction ports generalizing number with
  | nil => rfl
  | cons port ports ih =>
    rw [List.map_cons, createServers, if_pos rfl, if_pos (hstarts number), ih]
    rfl

theorem startUp_config (site : Site) {starts : Nat → Bool} (hstarts : ∀ number, starts number = true)
    : ∃ served, startUp starts true site.config = .ok (some served)
        ∧ served.servers = site.ports.map (fun port : Nat => .https port served.generator 4)
        ∧ (∀ directory ∈ site.directories, Serves served.generator directory)
        ∧ ∀ location, location ∈ served.generator.map.keys ↔ location ∈ site.directories.map path := by
  have hports : site.config.getPort []
      = .ok (true, site.ports.map fun port : Nat => ((port : Int), Bytes.lit "https")) := by
    rw [config, getPort_listens site.ports_le, getPort_locations, List.nil_append]
    cases hports : site.ports with
    | nil => exact absurd hports site.ports_ne
    | cons port ports => rfl
  have hdir : site.config.getDir [] = .ok (true, []) := quotedOperand_config (by decide) site []
  have hhostname : site.config.getHostname [] = .ok (true, []) := quotedOperand_config (by decide) site []
  rcases getMapFrom_locations site.distinct {} (fun _ _ => by simp [OrdMap.keys, OrdMap.empty]) {} with
    ⟨generator, startup, hmap, hserves, hkeys, -⟩
  have hmap : getMap {} site.config {} = .ok (true, generator, startup) := by
    rw [getMap, config, getMapFrom_listens, hmap]
  refine ⟨⟨[], [], generator, startup, site.ports.map fun port : Nat => .https port generator 4⟩, ?_, rfl,
    hserves, ?_⟩
  . rw [startUp, hports, hdir, hhostname, getThreads_config, hmap]
    simp only [Outcome.ok_bind, and_self, if_true, createServers_https hstarts]
    rfl
  . intro location
    rw [hkeys]
    simp [OrdMap.keys, OrdMap.empty]

/-! ## Uris -/

/--
The uri goes to the directory: no other location that has components in common with the uri is chosen before its
own, or there is none and the directory is at the root.
-/
def Routes (site : Site) (uri : Bytes) (directory : Bytes × Bytes) : Prop :=
  directory ∈ site.directories
    ∧ (commonPrefixLength uri (path directory) ≠ 0
        ∧ (∀ other ∈ site.directories, commonPrefixLength uri (path other) ≠ 0 → path other ≠ path directory →
          Outranks uri (path directory) (path other))
      ∨ path directory = Bytes.lit "/"
        ∧ ∀ other ∈ site.directories, commonPrefixLength uri (path other) = 0)

instance (site : Site) (uri : Bytes) (directory : Bytes × Bytes) : Decidable (site.Routes uri directory) :=
  inferInstanceAs (Decidable (_ ∧ _))

theorem dispatchHandler_of_routes {site : Site} {uri : Bytes} {directory : Bytes × Bytes}
    (h : site.Routes uri directory) {generator : RequestHandlerGenerator} (hserves : Serves generator directory)
    (hkeys : ∀ location, location ∈ generator.map.keys ↔ location ∈ site.directories.map path)
    : (generator.dispatchHandler uri).1.map HandlerPtr.object = some (.static (handler directory)) := by
  have hothers : ∀ location ∈ generator.map.keys, ∃ other ∈ site.directories, path other = location :=
    fun location hlocation => List.mem_map.mp ((hkeys location).mp hlocation)
  have hchosen : (generator.chosen uri).getD (Bytes.lit "/") = path directory := by
    rcases h with ⟨hmem, ⟨hshares, hbest⟩ | ⟨hroot, hnone⟩⟩
    . cases hchosen : generator.chosen uri with
      | none =>
        have hzero := chosen_eq_none_iff.mp hchosen (path directory)
          ((hkeys _).mpr (List.mem_map_of_mem hmem))
        exact absurd hzero hshares
      | some location =>
        rcases chosen_eq_some hchosen with ⟨hkey, hshared, houtranks⟩
        by_contra hne
        rw [Option.getD_some] at hne
        rcases hothers location hkey with ⟨other, hother, rfl⟩
        exact not_outranks_of_outranks (hbest other hother hshared hne)
          (houtranks _ ((hkeys _).mpr (List.mem_map_of_mem hmem)) hshares (Ne.symm hne))
    . have hzero : generator.chosen uri = none := by
        rw [chosen_eq_none_iff]
        intro location hlocation
        rcases hothers location hlocation with ⟨other, hother, rfl⟩
        exact hnone other hother
      rw [hzero, Option.getD_none, hroot]
  rcases hserves with ⟨ptr, hfind, hobject⟩
  rw [dispatchHandler_fst, hchosen, hfind, Option.getD_some, Option.map_some, hobject]

end Site

end Foxy
