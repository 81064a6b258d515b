import FoxyServer.Config.Directives
import FoxyServer.Handlers.Registration

/-!
This module contains the operands that `get_port` and the handlers take from the statements of a config,
and what becomes of them when one of these operands is missing.
-/

namespace Foxy

/-! ## Operands -/

def EndsIn (keyword : Bytes) (tokens : List Bytes) : Prop :=
  tokens.dropWhile (· ≠ keyword) = [keyword]

theorem operandOf_eq_undefined_iff {keyword : Bytes} {tokens : List Bytes}
    : operandOf keyword tokens = .undefined ↔ EndsIn keyword tokens := by
  rw [operandOf, EndsIn]
  split
  next h =>
    rw [h]
    simp
  next x h =>
    have hx : x = keyword := by
      have hhead := List.head?_dropWhile_not (fun token => decide (token ≠ keyword)) tokens
      rw [h] at hhead
      simpa using hhead
    rw [h, hx]
    simp
  next h =>
    rw [h]
    simp

theorem operandOf_eq_ok {keyword : Bytes} {tokens : List Bytes} (h : ¬EndsIn keyword tokens)
    : ∃ operand, operandOf keyword tokens = .ok operand := by
  rw [← operandOf_eq_undefined_iff, operandOf] at h
  rw [operandOf]
  split
  . exact ⟨_, rfl⟩
  next heq =>
    rw [heq] at h
    exact absurd rfl h
  . exact ⟨_, rfl⟩

/-! ## `get_port` -/

def Misplaced (tokens : List Bytes) : Prop :=
  ∃ first last, tokens = [first, Bytes.lit "listen", last] ∧ first ≠ Bytes.lit "listen"

theorem listenOf_eq_undefined_iff {tokens : List Bytes} : listenOf tokens = .undefined ↔ Misplaced tokens := by
  constructor
  . intro h
    rw [listenOf] at h
    split at h
    next => cases h
    next type rest hvalid =>
      by_cases hlength : tokens.length = 3
      . rw [if_pos hlength] at h
        rcases List.length_eq_three.mp hlength with ⟨first, second, last, rfl⟩
        split at h
        next =>
          by_cases hfirst : first = Bytes.lit "listen"
          . simp [validKeyword, hfirst] at hvalid
          . by_cases hsecond : second = Bytes.lit "listen"
            . exact ⟨first, last, by rw [hsecond], hfirst⟩
            . by_cases hlast : last = Bytes.lit "listen"
              . simp [validKeyword, hfirst, hsecond, hlast] at hvalid
              . simp [validKeyword, hfirst, hsecond, hlast] at hvalid
        next portstring rest =>
          split at h
          . rcases Outcome.bind_eq_undefined.mp h with h | ⟨port, -, h⟩
            . exact absurd h (Bytes.stoi_ne_undefined portstring)
            . split at h <;> cases h
          . cases h
      . rw [if_neg hlength] at h
        cases h
  . rintro ⟨first, last, rfl, hfirst⟩
    have hvalid : validKeyword (Bytes.lit "listen") [first, Bytes.lit "listen", last] = some (last, []) := by
      simp [validKeyword, hfirst]
    rw [listenOf, hvalid]
    rfl

inductive PortGetsTo : List (Int × Bytes) → NginxConfig → NginxConfigStatement → Prop where
  | here : PortGetsTo vec (statement :: statements) statement
  | inside (habsent : listenOf tokens = .ok .absent) (hinner : PortGetsTo vec childBlock statement)
    : PortGetsTo vec (⟨tokens, some childBlock⟩ :: statements) statement
  | later (hvisit : passed.visitPort vec = .ok (true, vec')) (hlater : PortGetsTo vec' statements statement)
    : PortGetsTo vec (passed :: statements) statement

theorem visitPort_eq_undefined_iff {vec : List (Int × Bytes)} {tokens : List Bytes}
    {childBlock : Option NginxConfig}
    : NginxConfigStatement.visitPort vec ⟨tokens, childBlock⟩ = .undefined
        ↔
      Misplaced tokens ∨ listenOf tokens = .ok .absent
        ∧ ∃ block, childBlock = some block ∧ NginxConfig.getPort vec block = .undefined := by
  unfold NginxConfigStatement.visitPort
  rw [Outcome.bind_eq_undefined, listenOf_eq_undefined_iff]
  apply or_congr_right
  constructor
  . rintro ⟨listen, hlisten, h⟩
    cases listen with
    | port port type => cases h
    | invalid => cases h
    | absent =>
      refine ⟨hlisten, ?_⟩
      cases childBlock with
      | none => cases h
      | some block =>
        refine ⟨block, rfl, ?_⟩
        rcases Outcome.bind_eq_undefined.mp h with h | ⟨out, -, h⟩
        . exact h
        . cases h
  . rintro ⟨habsent, block, rfl, h⟩
    refine ⟨.absent, habsent, ?_⟩
    dsimp only
    rw [h]
    rfl

theorem getPort_cons_eq_undefined_iff {vec : List (Int × Bytes)} {statement : NginxConfigStatement}
    {statements : NginxConfig}
    : NginxConfig.getPort vec (statement :: statements) = .undefined
        ↔
      statement.visitPort vec = .undefined
        ∨ ∃ vec', statement.visitPort vec = .ok (true, vec')
          ∧ NginxConfig.getPort vec' statements = .undefined := by
  rw [NginxConfig.getPort, Outcome.bind_eq_undefined]
  apply or_congr_right
  constructor
  . rintro ⟨⟨goesOn, vec'⟩, hvisit, h⟩
    cases goesOn with
    | false => cases h
    | true => exact ⟨vec', hvisit, h⟩
  . rintro ⟨vec', hvisit, h⟩
    exact ⟨(true, vec'), hvisit, h⟩

theorem exists_misplaced_of_getPort (vec : List (Int × Bytes)) (config : NginxConfig)
    (h : NginxConfig.getPort vec config = .undefined)
    : ∃ statement, PortGetsTo vec config statement ∧ Misplaced statement.tokens := by
  match config with
  | [] => cases h
  | ⟨tokens, childBlock⟩ :: statements =>
    rcases getPort_cons_eq_undefined_iff.mp h with h | ⟨vec', hvisit, h⟩
    . rcases visitPort_eq_undefined_iff.mp h with hmisplaced | ⟨habsent, block, rfl, hblock⟩
      . exact ⟨_, .here, hmisplaced⟩
      . rcases exists_misplaced_of_getPort vec block hblock with ⟨statement, hgets, hmisplaced⟩
        exact ⟨statement, .inside habsent hgets, hmisplaced⟩
    . rcases exists_misplaced_of_getPort vec' statements h with ⟨statement, hgets, hmisplaced⟩
      exact ⟨statement, .later hvisit hgets, hmisplaced⟩
termination_by sizeOf config

theorem getPort_eq_undefined_iff {vec : List (Int × Bytes)} {config : NginxConfig}
    : NginxConfig.getPort vec config = .undefined
        ↔
      ∃ statement, PortGetsTo vec config statement ∧ Misplaced statement.tokens := by
  refine ⟨exists_misplaced_of_getPort vec config, ?_⟩
  rintro ⟨statement, hgets, hmisplaced⟩
  induction hgets with
  | @here vec statement statements =>
    rcases statement with ⟨tokens, childBlock⟩
    exact getPort_cons_eq_undefined_iff.mpr (.inl (visitPort_eq_undefined_iff.mpr (.inl hmisplaced)))
  | inside habsent hinner ih =>
    exact getPort_cons_eq_undefined_iff.mpr (.inl (visitPort_eq_undefined_iff.mpr
      (.inr ⟨habsent, _, rfl, ih hmisplaced⟩)))
  | later hvisit hlater ih =>
    exact getPort_cons_eq_undefined_iff.mpr (.inr ⟨_, hvisit, ih hmisplaced⟩)

/-! ## `get_threads`, `get_dir`, `get_hostname` -/

theorem getThreads_ne_undefined (threads : Int) (config : NginxConfig)
    : NginxConfig.getThreads threads config ≠ .undefined := by
  induction config using NginxConfig.block_induction with
  | nil => exact fun h => by cases h
  | cons tokens childBlock statements ihblock ih =>
    cases hkeyword : validKeyword (Bytes.lit "threads") tokens with
    | some operand =>
      rw [getThreads_keyword statements threads hkeyword]
      split
      . intro h
        rcases Outcome.bind_eq_undefined.mp h with h | ⟨n, -, h⟩
        . exact Bytes.stoi_ne_undefined _ h
        . cases h
      . exact fun h => by cases h
    | none =>
      cases childBlock with
      | none =>
        rw [getThreads_pass statements threads hkeyword]
        exact ih
      | some block =>
        rw [getThreads_block statements threads hkeyword]
        exact ihblock

theorem quotedOperand_ne_undefined (keyword value : Bytes) (config : NginxConfig)
    : NginxConfig.quotedOperand keyword value config ≠ .undefined := by
  induction config with
  | nil => exact fun h => by cases h
  | cons statement statements ih =>
    rw [NginxConfig.quotedOperand]
    split
    . exact utility.isQuoted_ne_undefined _
    . exact ih

/-! ## Handlers -/

def operandsOf (method : Bytes) : List Bytes :=
  if method = Bytes.lit "StaticHandler" then
    [Bytes.lit "root", Bytes.lit "auth"]
  else if method = Bytes.lit "ProxyHandler" then
    [Bytes.lit "host", Bytes.lit "port"]
  else if method = Bytes.lit "LoginHandler" then
    [Bytes.lit "root"]
  else
    []

def BlockIncomplete (method : Bytes) (block : NginxConfig) : Prop :=
  ∃ keyword ∈ operandsOf method, ∃ statement ∈ block, EndsIn keyword statement.tokens

theorem lastOperand_eq_undefined_iff {keyword value : Bytes} {config : NginxConfig}
    : StaticRequestHandler.lastOperand keyword value config = .undefined
        ↔
      ∃ statement ∈ config, EndsIn keyword statement.tokens := by
  induction config generalizing value with
  | nil => simp [StaticRequestHandler.lastOperand]
  | cons statement statements ih =>
    rw [StaticRequestHandler.lastOperand, Outcome.bind_eq_undefined, operandOf_eq_undefined_iff]
    simp only [ih, List.exists_mem_cons_iff]
    by_cases hends : EndsIn keyword statement.tokens
    . simp [hends]
    . rcases operandOf_eq_ok hends with ⟨operand, hoperand⟩
      simp [hends, hoperand]

theorem lastOperand_eq_ok {keyword value : Bytes} {config : NginxConfig}
    (h : ¬∃ statement ∈ config, EndsIn keyword statement.tokens)
    : ∃ operand, StaticRequestHandler.lastOperand keyword value config = .ok operand := by
  induction config generalizing value with
  | nil => exact ⟨value, rfl⟩
  | cons statement statements ih =>
    simp only [List.exists_mem_cons_iff, not_or] at h
    rcases operandOf_eq_ok h.1 with ⟨operand, hoperand⟩
    rw [StaticRequestHandler.lastOperand, hoperand]
    exact ih h.2

theorem allocate_eq_undefined_iff {H : Type} {object : H → RequestHandler} {startup : Startup}
    {built : Outcome (Option H × DataCollector)}
    : RequestHandlerGenerator.allocate object startup built = .undefined ↔ built = .undefined := by
  rw [RequestHandlerGenerator.allocate, Outcome.bind_eq_undefined]
  constructor
  . rintro (h | ⟨⟨handler, collector⟩, -, h⟩)
    . exact h
    . cases handler <;> cases h
  . exact .inl

theorem StaticRequestHandler.init_eq_undefined_iff {path : Bytes} {block : NginxConfig}
    {collector : DataCollector}
    : init path block collector = .undefined
        ↔
      (∃ statement ∈ block, EndsIn (Bytes.lit "root") statement.tokens)
        ∨ ∃ statement ∈ block, EndsIn (Bytes.lit "auth") statement.tokens := by
  rw [init, Outcome.bind_eq_undefined, lastOperand_eq_undefined_iff]
  by_cases hroot : ∃ statement ∈ block, EndsIn (Bytes.lit "root") statement.tokens
  . simp only [hroot, true_or]
  . rcases @lastOperand_eq_ok _ [] _ hroot with ⟨root, hroot'⟩
    simp only [hroot, hroot', false_or, Outcome.ok.injEq, exists_eq_left', Outcome.bind_eq_undefined,
      lastOperand_eq_undefined_iff]
    constructor
    . rintro (hauth | ⟨auth, -, hquoted | ⟨⟨rootIsQuoted, root'⟩, -, h⟩⟩)
      . exact hauth
      . exact absurd hquoted (utility.isQuoted_ne_undefined root)
      . cases rootIsQuoted with
        | false => cases h
        | true =>
          rcases Outcome.bind_eq_undefined.mp h with h | ⟨out, -, h⟩
          . exact absurd h (utility.isQuoted_ne_undefined auth)
          . cases h
    . exact .inl

theorem LoginRequestHandler.init_eq_undefined_iff {path : Bytes} {block : NginxConfig}
    {collector : DataCollector}
    : init path block collector = .undefined
        ↔
      ∃ statement ∈ block, EndsIn (Bytes.lit "root") statement.tokens := by
  rw [init, Outcome.bind_eq_undefined, lastOperand_eq_undefined_iff]
  constructor
  . rintro (hroot | ⟨root, -, h⟩)
    . exact hroot
    . rcases Outcome.bind_eq_undefined.mp h with h | ⟨⟨rootIsQuoted, root'⟩, -, h⟩
      . exact absurd h (utility.isQuoted_ne_undefined root)
      . cases rootIsQuoted <;> cases h
  . exact .inl

namespace ProxyRequestHandler

theorem exists_endsIn_of_go {root : Bytes} {port : Int} {block : NginxConfig}
    (h : init.go root port block = .undefined)
    : ∃ statement ∈ block,
        EndsIn (Bytes.lit "host") statement.tokens ∨ EndsIn (Bytes.lit "port") statement.tokens := by
  induction block generalizing root port with
  | nil => cases h
  | cons statement statements ih =>
    rw [List.exists_mem_cons_iff]
    rw [init.go] at h
    rcases Outcome.bind_eq_undefined.mp h with hhost | ⟨host, -, h⟩
    . exact .inl (.inl (operandOf_eq_undefined_iff.mp hhost))
    rcases Outcome.bind_eq_undefined.mp h with hport | ⟨portString, -, h⟩
    . exact .inl (.inr (operandOf_eq_undefined_iff.mp hport))
    cases portString with
    | none => exact .inr (ih h)
    | some portString =>
      rcases Outcome.bind_eq_undefined.mp h with hstoi | ⟨port', -, h⟩
      . exact absurd hstoi (Bytes.stoi_ne_undefined portString)
      . exact .inr (ih h)

theorem not_endsIn_of_go {root : Bytes} {port : Int} {block : NginxConfig}
    (h : (init.go root port block).Returns)
    : ∀ statement ∈ block,
        ¬EndsIn (Bytes.lit "host") statement.tokens ∧ ¬EndsIn (Bytes.lit "port") statement.tokens := by
  induction block generalizing root port with
  | nil => simp
  | cons statement statements ih =>
    rw [init.go] at h
    rcases Outcome.returns_bind.mp h with ⟨host, hhost, h⟩
    rcases Outcome.returns_bind.mp h with ⟨portString, hport, h⟩
    have hhere : ¬EndsIn (Bytes.lit "host") statement.tokens
        ∧ ¬EndsIn (Bytes.lit "port") statement.tokens := by
      simp only [← operandOf_eq_undefined_iff, hhost, hport, reduceCtorEq, not_false_eq_true, and_self]
    have hlater : ∃ root' port', (init.go root' port' statements).Returns := by
      cases portString with
      | none => exact ⟨_, _, h⟩
      | some portString =>
        rcases Outcome.returns_bind.mp h with ⟨port', -, h⟩
        exact ⟨_, _, h⟩
    rcases hlater with ⟨root', port', hlater⟩
    exact List.forall_mem_cons.mpr ⟨hhere, ih hlater⟩

theorem go_of_init {path : Bytes} {block : NginxConfig} {collector : DataCollector}
    (h : (init path block collector).Returns)
    : (init.go [] 0 block).Returns := by
  rcases Outcome.returns_bind.mp h with ⟨out, hgo, -⟩
  exact ⟨out, hgo⟩

theorem go_undefined_of_init {path : Bytes} {block : NginxConfig} {collector : DataCollector}
    (h : init path block collector = .undefined)
    : init.go [] 0 block = .undefined := by
  rcases Outcome.bind_eq_undefined.mp h with h | ⟨⟨root, port⟩, -, h⟩
  . exact h
  . rcases Outcome.bind_eq_undefined.mp h with h | ⟨⟨rootIsQuoted, root'⟩, -, h⟩
    . exact absurd h (utility.isQuoted_ne_undefined root)
    . cases rootIsQuoted <;> cases h

end ProxyRequestHandler

namespace RequestHandlerGenerator

theorem createHandler_eq_undefined {path method : Bytes} {block : NginxConfig} {startup : Startup}
    (h : createHandler path method block startup = .undefined)
    : BlockIncomplete method block := by
  rw [createHandler] at h
  rw [BlockIncomplete, operandsOf]
  split_ifs at h with hstatic hecho hstatus hnotFound hproxy hhealth hlogin
  . rw [allocate_eq_undefined_iff, StaticRequestHandler.init_eq_undefined_iff] at h
    simpa [hstatic] using h
  . cases h
  . cases h
  . cases h
  . rw [allocate_eq_undefined_iff] at h
    have hends := ProxyRequestHandler.exists_endsIn_of_go (ProxyRequestHandler.go_undefined_of_init h)
    simp only [and_or_left, exists_or] at hends
    simpa [hproxy, Bytes.lit] using hends
  . cases h
  . rw [allocate_eq_undefined_iff, LoginRequestHandler.init_eq_undefined_iff] at h
    simpa [hlogin, Bytes.lit] using h

theorem not_createHandler_returns {path method : Bytes} {block : NginxConfig} {startup : Startup}
    (h : BlockIncomplete method block)
    : ¬(createHandler path method block startup).Returns := by
  rw [BlockIncomplete, operandsOf] at h
  rw [createHandler]
  split_ifs at h with hstatic hproxy hlogin
  . rw [if_pos hstatic]
    apply Outcome.not_returns_of_eq_undefined
    rw [allocate_eq_undefined_iff, StaticRequestHandler.init_eq_undefined_iff]
    simpa using h
  . rw [hproxy]
    intro hreturns
    rcases Outcome.returns_bind.mp hreturns with ⟨out, hinit, -⟩
    have hends := ProxyRequestHandler.not_endsIn_of_go (ProxyRequestHandler.go_of_init ⟨out, hinit⟩)
    rcases h with ⟨keyword, hkeyword, statement, hmem, h⟩
    simp only [List.mem_cons, List.not_mem_nil, or_false] at hkeyword
    rcases hkeyword with rfl | rfl
    . exact (hends statement hmem).1 h
    . exact (hends statement hmem).2 h
  . rw [hlogin]
    intro hreturns
    rcases Outcome.returns_bind.mp hreturns with ⟨out, hinit, -⟩
    have hundefined := @LoginRequestHandler.init_eq_undefined_iff path block startup.collector
    rw [hinit] at hundefined
    simp only [List.mem_singleton, exists_eq_left] at h
    cases hundefined.mpr h
  . simp at h

end RequestHandlerGenerator

end Foxy
