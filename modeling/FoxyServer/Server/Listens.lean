import FoxyServer.Server.Operands

/-!
This module contains the listen statements of a config: what `get_port` makes of all of them together, and
when that is what is written.
-/

namespace Foxy

/-! ## Statements -/

mutual

def NginxConfigStatement.inOrder (statement : NginxConfigStatement) : List NginxConfigStatement :=
  match statement with
  | ⟨tokens, some childBlock⟩ => ⟨tokens, some childBlock⟩ :: NginxConfig.inOrder childBlock
  | ⟨tokens, none⟩ => [⟨tokens, none⟩]

def NginxConfig.inOrder : NginxConfig → List NginxConfigStatement
  | [] => []
  | statement :: statements => statement.inOrder ++ NginxConfig.inOrder statements

end

def listenPort? (tokens : List Bytes) : Option (Bytes × Bytes) :=
  match tokens with
  | [keyword, type, digits] =>
    if keyword = Bytes.lit "listen" ∧ (type = Bytes.lit "https" ∨ type = Bytes.lit "http")
        ∧ digits ≠ [] ∧ isDecimal digits then
      some (type, digits)
    else
      none
  | _ => none

def IsListen (tokens : List Bytes) : Prop :=
  Bytes.lit "listen" ∈ tokens

instance (tokens : List Bytes) : Decidable (IsListen tokens) := inferInstanceAs (Decidable (_ ∈ _))

def writtenPort (written : Bytes × Bytes) : Int × Bytes :=
  (Bytes.decimalValue written.2, written.1)

/-! ## What becomes of a statement -/

namespace GetPort

def Stops (tokens : List Bytes) : Prop :=
  Misplaced tokens
    ∨ ∃ type digits, tokens = [Bytes.lit "listen", type, digits] ∧ isDecimal digits = true
        ∧ (digits = [] ∨ 2147483647 < Bytes.decimalValue digits)

def Refuses : List Bytes → Prop
  | [keyword, type, portstring] =>
    keyword = Bytes.lit "listen"
      ∧ (isDecimal portstring = false ∨ type ≠ Bytes.lit "https" ∧ type ≠ Bytes.lit "http")
  | _ => False

instance : DecidablePred Refuses
  | [_, _, _] => inferInstanceAs (Decidable (_ ∧ _))
  | [] | [_] | [_, _] | _ :: _ :: _ :: _ :: _ => inferInstanceAs (Decidable False)

def PassesOver : List Bytes → Prop
  | [first, second, _] => first ≠ Bytes.lit "listen" ∧ second ≠ Bytes.lit "listen"
  | _ => True

instance : DecidablePred PassesOver
  | [_, _, _] => inferInstanceAs (Decidable (_ ∧ _))
  | [] | [_] | [_, _] | _ :: _ :: _ :: _ :: _ => inferInstanceAs (Decidable True)

theorem listenOf_listen (type portstring : Bytes)
    : listenOf [Bytes.lit "listen", type, portstring]
        =
      if isDecimal portstring then
        Bytes.stoi portstring >>= fun port =>
          if type ≠ Bytes.lit "https" ∧ type ≠ Bytes.lit "http" then .ok .invalid else .ok (.port port type)
      else
        .ok .invalid := by
  simp [listenOf, validKeyword]

theorem listenOf_of_length {tokens : List Bytes} (h : tokens.length ≠ 3) : listenOf tokens = .ok .absent := by
  rw [listenOf]
  split
  . rfl
  . rw [if_neg h]

theorem listenOf_of_ne {first second last : Bytes} (hfirst : first ≠ Bytes.lit "listen")
    (hsecond : second ≠ Bytes.lit "listen") : listenOf [first, second, last] = .ok .absent := by
  have hvalid : validKeyword (Bytes.lit "listen") [first, second, last] = none := by
    by_cases hlast : last = Bytes.lit "listen" <;> simp [validKeyword, hfirst, hsecond, hlast]
  rw [listenOf, hvalid]

inductive Visit (tokens : List Bytes) : Prop where
  | stops (hstops : Stops tokens) (hlisten : ¬(listenOf tokens).Returns)
  | refuses (hrefuses : Refuses tokens) (hpasses : ¬PassesOver tokens)
    (hport : listenPort? tokens = none) (hlisten : listenOf tokens = .ok .invalid)
  | takes (hrefuses : ¬Refuses tokens) (hpasses : ¬PassesOver tokens)
    (hport : listenPort? tokens = some written)
    (hlisten : listenOf tokens = .ok (.port (writtenPort written).1 (writtenPort written).2))
  | passesOver (hrefuses : ¬Refuses tokens) (hpasses : PassesOver tokens)
    (hport : listenPort? tokens = none) (hlisten : listenOf tokens = .ok .absent)

theorem visit_listen (type portstring : Bytes) : Visit [Bytes.lit "listen", type, portstring] := by
  have hpasses : ¬PassesOver [Bytes.lit "listen", type, portstring] := fun h => h.1 rfl
  have hlisten := listenOf_listen type portstring
  by_cases hdecimal : isDecimal portstring = true
  . rw [if_pos hdecimal, stoi_of_isDecimal hdecimal] at hlisten
    by_cases hempty : portstring = []
    . rw [if_pos hempty] at hlisten
      refine .stops (.inr ⟨type, portstring, rfl, hdecimal, .inl hempty⟩) ?_
      rw [hlisten]
      exact Outcome.not_returns_throws _
    by_cases hfits : Bytes.decimalValue portstring ≤ 2147483647
    . rw [if_neg hempty, if_pos hfits, Outcome.ok_bind] at hlisten
      by_cases htype : type ≠ Bytes.lit "https" ∧ type ≠ Bytes.lit "http"
      . rw [if_pos htype] at hlisten
        exact .refuses ⟨rfl, .inr htype⟩ hpasses (by simp [listenPort?, htype]) hlisten
      . rw [if_neg htype] at hlisten
        have htype' : type = Bytes.lit "https" ∨ type = Bytes.lit "http" := by
          rwa [not_and_or, not_not, not_not] at htype
        refine @Visit.takes _ (type, portstring) ?_ hpasses (if_pos ⟨rfl, htype', hempty, hdecimal⟩) hlisten
        rintro ⟨-, h | h⟩
        . rw [hdecimal] at h
          cases h
        . exact htype h
    . rw [if_neg hempty, if_neg hfits] at hlisten
      refine .stops (.inr ⟨type, portstring, rfl, hdecimal, .inr (not_le.mp hfits)⟩) ?_
      rw [hlisten]
      exact Outcome.not_returns_throws _
  . rw [if_neg hdecimal] at hlisten
    rw [Bool.not_eq_true] at hdecimal
    exact .refuses ⟨rfl, .inl hdecimal⟩ hpasses (by simp [listenPort?, hdecimal]) hlisten

theorem visit (tokens : List Bytes) : Visit tokens := by
  match tokens with
  | [first, second, last] =>
    by_cases hfirst : first = Bytes.lit "listen"
    . subst hfirst
      exact visit_listen second last
    by_cases hsecond : second = Bytes.lit "listen"
    . have hmisplaced : Misplaced [first, second, last] := ⟨first, last, by rw [hsecond], hfirst⟩
      refine .stops (.inl hmisplaced) ?_
      exact Outcome.not_returns_of_eq_undefined (listenOf_eq_undefined_iff.mpr hmisplaced)
    . exact .passesOver (fun h => hfirst h.1) ⟨hfirst, hsecond⟩ (by simp [listenPort?, hfirst])
        (listenOf_of_ne hfirst hsecond)
  | [] => exact .passesOver id trivial rfl (listenOf_of_length (by simp))
  | [_] => exact .passesOver id trivial rfl (listenOf_of_length (by simp))
  | [_, _] => exact .passesOver id trivial rfl (listenOf_of_length (by simp))
  | _ :: _ :: _ :: _ :: _ => exact .passesOver id trivial rfl (listenOf_of_length (by simp))

theorem not_returns_of_stops {tokens : List Bytes} (h : Stops tokens) : ¬(listenOf tokens).Returns := by
  rcases h with hmisplaced | ⟨type, digits, rfl, hdecimal, hvalue⟩
  . exact Outcome.not_returns_of_eq_undefined (listenOf_eq_undefined_iff.mpr hmisplaced)
  . rw [listenOf_listen, if_pos hdecimal, stoi_of_isDecimal hdecimal]
    by_cases hempty : digits = []
    . rw [if_pos hempty]
      exact Outcome.not_returns_throws _
    . rw [if_neg hempty, if_neg (not_le.mpr (hvalue.resolve_left hempty))]
      exact Outcome.not_returns_throws _

end GetPort

/-! ## The statements that `get_port` gets to -/

mutual

def NginxConfigStatement.reached (statement : NginxConfigStatement) : List (List Bytes) :=
  match statement with
  | ⟨tokens, some childBlock⟩ =>
    tokens :: if GetPort.PassesOver tokens then NginxConfig.reached childBlock else []
  | ⟨tokens, none⟩ => [tokens]

def NginxConfig.reached : NginxConfig → List (List Bytes)
  | [] => []
  | statement :: statements =>
    statement.reached ++ if GetPort.Refuses statement.tokens then [] else NginxConfig.reached statements

end

def NginxConfig.written (config : NginxConfig) : List (Bytes × Bytes) :=
  config.reached.filterMap listenPort?

namespace GetPort

def RefusesAny (config : NginxConfig) : Prop :=
  ∃ statement ∈ config, Refuses statement.tokens

instance (config : NginxConfig) : Decidable (RefusesAny config) :=
  inferInstanceAs (Decidable (∃ _ ∈ _, _))

theorem refusesAny_cons {statement : NginxConfigStatement} {statements : NginxConfig}
    : RefusesAny (statement :: statements) ↔ Refuses statement.tokens ∨ RefusesAny statements := by
  simp [RefusesAny]

def Collects (config : NginxConfig) : Prop :=
  ∀ vec, NginxConfig.getPort vec config
    = .ok (!decide (RefusesAny config) && !(vec ++ config.written.map writtenPort).isEmpty,
        vec ++ config.written.map writtenPort)

theorem visitPort_eq {tokens : List Bytes} {childBlock : Option NginxConfig}
    (hstops : ∀ tokens' ∈ NginxConfigStatement.reached ⟨tokens, childBlock⟩, ¬Stops tokens')
    (hblock : ∀ block, childBlock = some block → (∀ tokens' ∈ NginxConfig.reached block, ¬Stops tokens') →
      Collects block)
    (vec : List (Int × Bytes))
    : NginxConfigStatement.visitPort vec ⟨tokens, childBlock⟩
        =
      .ok (!decide (Refuses tokens), vec
        ++ ((NginxConfigStatement.reached ⟨tokens, childBlock⟩).filterMap listenPort?).map writtenPort) := by
  have hhere : ¬Stops tokens := by
    apply hstops tokens
    cases childBlock <;> simp [NginxConfigStatement.reached]
  unfold NginxConfigStatement.visitPort
  cases visit tokens with
  | stops h => exact absurd h hhere
  | refuses hrefuses hpasses hport hlisten =>
    cases childBlock <;> simp [hlisten, NginxConfigStatement.reached, hpasses, hport, hrefuses]
  | takes hrefuses hpasses hport hlisten =>
    cases childBlock <;> simp [hlisten, NginxConfigStatement.reached, hpasses, hport, hrefuses]
  | passesOver hrefuses hpasses hport hlisten =>
    cases childBlock with
    | none => simp [hlisten, NginxConfigStatement.reached, hport, hrefuses]
    | some block =>
      have hinner : ∀ tokens' ∈ NginxConfig.reached block, ¬Stops tokens' := by
        intro tokens' hmem
        apply hstops tokens'
        simp [NginxConfigStatement.reached, hpasses, hmem]
      simp [hlisten, NginxConfigStatement.reached, hpasses, hport, hrefuses, hblock block rfl hinner vec,
        NginxConfig.written]

theorem getPort_eq (config : NginxConfig) (hstops : ∀ tokens ∈ config.reached, ¬Stops tokens)
    : Collects config := by
  induction config using NginxConfig.block_induction with
  | nil =>
    intro vec
    simp [NginxConfig.getPort, RefusesAny, NginxConfig.written, NginxConfig.reached]
  | cons tokens childBlock statements ihblock ih =>
    intro vec
    rw [NginxConfig.reached] at hstops
    have hhere : ∀ tokens' ∈ NginxConfigStatement.reached ⟨tokens, childBlock⟩, ¬Stops tokens' :=
      fun tokens' hmem => hstops tokens' (List.mem_append_left _ hmem)
    have hvisit := @visitPort_eq tokens childBlock hhere (by rintro block rfl hinner; exact ihblock hinner) vec
    rw [NginxConfig.getPort, hvisit, Outcome.ok_bind, NginxConfig.written, NginxConfig.reached]
    dsimp only
    simp only [refusesAny_cons]
    by_cases hrefuses : Refuses tokens
    . simp [hrefuses]
    . have hrest := ih (fun tokens' hmem => hstops tokens' (by simp [hrefuses, hmem]))
      simp [hrefuses, hrest _, NginxConfig.written]

theorem not_stops_of_visitPort {tokens : List Bytes} {childBlock : Option NginxConfig}
    {vec : List (Int × Bytes)} (h : (NginxConfigStatement.visitPort vec ⟨tokens, childBlock⟩).Returns)
    (hblock : ∀ block, childBlock = some block → (NginxConfig.getPort vec block).Returns →
      ∀ tokens' ∈ NginxConfig.reached block, ¬Stops tokens')
    : ∀ tokens' ∈ NginxConfigStatement.reached ⟨tokens, childBlock⟩, ¬Stops tokens' := by
  unfold NginxConfigStatement.visitPort at h
  rcases Outcome.returns_bind.mp h with ⟨listen, hlisten, h⟩
  have hhere : ¬Stops tokens := fun hstops => not_returns_of_stops hstops ⟨listen, hlisten⟩
  cases childBlock with
  | none => simpa [NginxConfigStatement.reached] using hhere
  | some block =>
    rw [NginxConfigStatement.reached, List.forall_mem_cons]
    refine ⟨hhere, ?_⟩
    split
    next hpasses =>
      cases visit tokens with
      | stops hstops => exact absurd hstops hhere
      | refuses hrefuses hpasses' => exact absurd hpasses hpasses'
      | takes hrefuses hpasses' => exact absurd hpasses hpasses'
      | passesOver hrefuses hpasses' hport habsent =>
        rw [hlisten, Outcome.ok.injEq] at habsent
        subst habsent
        rcases Outcome.returns_bind.mp h with ⟨out, hinner, -⟩
        exact hblock block rfl ⟨out, hinner⟩
    . simp

theorem not_stops_of_getPort {config : NginxConfig} {vec : List (Int × Bytes)}
    (h : (NginxConfig.getPort vec config).Returns) : ∀ tokens ∈ config.reached, ¬Stops tokens := by
  induction config using NginxConfig.block_induction generalizing vec with
  | nil => simp [NginxConfig.reached]
  | cons tokens childBlock statements ihblock ih =>
    rw [NginxConfig.getPort] at h
    rcases Outcome.returns_bind.mp h with ⟨⟨goesOn, vec'⟩, hvisit, h⟩
    have hhere := not_stops_of_visitPort ⟨_, hvisit⟩ (by rintro block rfl hinner; exact ihblock hinner)
    rw [visitPort_eq hhere (fun block _ hstops => getPort_eq block hstops), Outcome.ok.injEq,
      Prod.mk.injEq] at hvisit
    rw [NginxConfig.reached]
    intro tokens' hmem
    rcases List.mem_append.mp hmem with hmem | hmem
    . exact hhere tokens' hmem
    . by_cases hrefuses : Refuses tokens
      . simp [hrefuses] at hmem
      . have hgoes : goesOn = true := by
          rw [← hvisit.1]
          simpa using hrefuses
        subst hgoes
        rw [if_neg hrefuses] at hmem
        exact ih h tokens' hmem

end GetPort

/-! ## What is written -/

def NginxConfig.listens (config : NginxConfig) : List (List Bytes) :=
  (config.inOrder.map (·.tokens)).filter IsListen

def NginxConfig.ports (config : NginxConfig) : List (Bytes × Bytes) :=
  config.listens.filterMap listenPort?

/-- Each listen statement is `listen <http|https> <digits>`. -/
def ListensWellFormed (config : NginxConfig) : Prop :=
  ∀ tokens ∈ config.listens, listenPort? tokens ≠ none

instance (config : NginxConfig) : Decidable (ListensWellFormed config) :=
  inferInstanceAs (Decidable (∀ _ ∈ _, _))

def ListensHidden (config : NginxConfig) : Prop :=
  ∃ statement ∈ config.inOrder, IsListen statement.tokens
    ∧ ∃ block, statement.childBlock = some block ∧ NginxConfig.listens block ≠ []

/--
`get_port` returns true if and only if there are listen statements and all of them are well-formed, and the
ports are then those of all listen statements in order.
-/
def PortsAsWritten (config : NginxConfig) : Prop :=
  ∃ success vec, NginxConfig.getPort [] config = .ok (success, vec)
    ∧ (success = true ↔ config.listens ≠ [] ∧ ListensWellFormed config)
    ∧ (success = true → vec = config.ports.map writtenPort)

theorem listens_cons (tokens : List Bytes) (childBlock : Option NginxConfig) (statements : NginxConfig)
    : NginxConfig.listens (⟨tokens, childBlock⟩ :: statements)
        =
      (if IsListen tokens then [tokens] else [])
        ++ (NginxConfig.listens (childBlock.getD []) ++ NginxConfig.listens statements) := by
  cases childBlock <;>
    simp only [NginxConfig.listens, NginxConfig.inOrder, NginxConfigStatement.inOrder, List.map_append,
      List.map_cons, List.filter_append, List.filter_cons, decide_eq_true_eq, Option.getD] <;>
    split <;>
    simp

theorem listensHidden_cons {tokens : List Bytes} {childBlock : Option NginxConfig} {statements : NginxConfig}
    : ListensHidden (⟨tokens, childBlock⟩ :: statements)
        ↔
      IsListen tokens ∧ NginxConfig.listens (childBlock.getD []) ≠ []
        ∨ ListensHidden (childBlock.getD []) ∨ ListensHidden statements := by
  cases childBlock with
  | none => simp [ListensHidden, NginxConfig.inOrder, NginxConfigStatement.inOrder, NginxConfig.listens]
  | some block =>
    simp only [ListensHidden, NginxConfig.inOrder, NginxConfigStatement.inOrder, List.cons_append,
      List.exists_mem_cons_iff, List.mem_append, or_and_right, exists_or, Option.getD]
    simp

theorem isListen_of_listenPort {tokens : List Bytes} {written : Bytes × Bytes}
    (h : listenPort? tokens = some written) : IsListen tokens := by
  unfold listenPort? at h
  split at h
  . split_ifs at h with hlisten
    rw [hlisten.1]
    exact List.mem_cons_self
  . cases h

theorem not_isListen {tokens : List Bytes} (h : ¬IsListen tokens)
    : listenPort? tokens = none ∧ GetPort.PassesOver tokens ∧ ¬GetPort.Refuses tokens := by
  have hport : listenPort? tokens = none := by
    rw [Option.eq_none_iff_forall_ne_some]
    intro written hwritten
    exact h (isListen_of_listenPort hwritten)
  refine ⟨hport, ?_⟩
  match tokens with
  | [first, second, last] =>
    simp only [IsListen, List.mem_cons, not_or] at h
    exact ⟨⟨Ne.symm h.1, Ne.symm h.2.1⟩, fun hrefuses => h.1 hrefuses.1.symm⟩
  | [] | [_] | [_, _] | _ :: _ :: _ :: _ :: _ => exact ⟨trivial, id⟩

theorem isListen_wellFormed {tokens : List Bytes} {written : Bytes × Bytes}
    (h : listenPort? tokens = some written) : ¬GetPort.PassesOver tokens ∧ ¬GetPort.Refuses tokens := by
  unfold listenPort? at h
  split at h
  . split_ifs at h with hlisten
    rcases hlisten with ⟨rfl, htype, hempty, hdecimal⟩
    refine ⟨fun hpasses => hpasses.1 rfl, ?_⟩
    rintro ⟨-, hnot | hnot⟩
    . rw [hdecimal] at hnot
      cases hnot
    . exact htype.elim hnot.1 hnot.2
  . cases h

theorem written_cons {tokens : List Bytes} (childBlock : Option NginxConfig) (statements : NginxConfig)
    (h : ¬GetPort.Refuses tokens)
    : NginxConfig.written (⟨tokens, childBlock⟩ :: statements)
        =
      (listenPort? tokens).toList
        ++ ((if GetPort.PassesOver tokens then NginxConfig.written (childBlock.getD []) else [])
          ++ NginxConfig.written statements) := by
  have hhere : [tokens].filterMap listenPort? = (listenPort? tokens).toList := by
    cases hport : listenPort? tokens <;> simp [hport]
  rw [NginxConfig.written, NginxConfig.reached, if_neg h, List.filterMap_append, ← hhere]
  cases childBlock with
  | none =>
    simp [NginxConfigStatement.reached, NginxConfig.written, NginxConfig.reached]
  | some block =>
    by_cases hpasses : GetPort.PassesOver tokens
    . simp only [NginxConfigStatement.reached, hpasses, if_true, Option.getD, NginxConfig.written]
      rw [← List.singleton_append, List.filterMap_append, List.append_assoc]
    . simp [NginxConfigStatement.reached, NginxConfig.written, hpasses]

theorem ListensWellFormed.cons {tokens : List Bytes} {childBlock : Option NginxConfig}
    {statements : NginxConfig} (h : ListensWellFormed (⟨tokens, childBlock⟩ :: statements))
    : (IsListen tokens → listenPort? tokens ≠ none) ∧ ListensWellFormed (childBlock.getD [])
        ∧ ListensWellFormed statements := by
  rw [ListensWellFormed, listens_cons] at h
  refine ⟨fun hlisten => h tokens (by simp [hlisten]), fun tokens' hmem => h tokens' ?_,
    fun tokens' hmem => h tokens' ?_⟩
  . exact List.mem_append_right _ (List.mem_append_left _ hmem)
  . exact List.mem_append_right _ (List.mem_append_right _ hmem)

theorem ports_eq_nil_iff {config : NginxConfig} (h : ListensWellFormed config)
    : config.ports = [] ↔ config.listens = [] := by
  rw [NginxConfig.ports, List.filterMap_eq_nil_iff, List.eq_nil_iff_forall_not_mem]
  apply forall_congr'
  intro tokens
  constructor
  . intro hnone hmem
    exact h tokens hmem (hnone hmem)
  . intro hnot hmem
    exact absurd hmem hnot

theorem ports_cons (tokens : List Bytes) (childBlock : Option NginxConfig) (statements : NginxConfig)
    : NginxConfig.ports (⟨tokens, childBlock⟩ :: statements)
        =
      (listenPort? tokens).toList
        ++ (NginxConfig.ports (childBlock.getD []) ++ NginxConfig.ports statements) := by
  rw [NginxConfig.ports, listens_cons, List.filterMap_append, List.filterMap_append]
  by_cases hlisten : IsListen tokens
  . cases hport : listenPort? tokens <;> simp [hlisten, hport, NginxConfig.ports]
  . simp [hlisten, (not_isListen hlisten).1, NginxConfig.ports]

theorem written_ports_cons {tokens : List Bytes} {childBlock : Option NginxConfig} {statements : NginxConfig}
    (h : IsListen tokens → listenPort? tokens ≠ none)
    : NginxConfig.written (⟨tokens, childBlock⟩ :: statements)
        =
      (listenPort? tokens).toList
        ++ ((if IsListen tokens then [] else NginxConfig.written (childBlock.getD []))
          ++ NginxConfig.written statements) := by
  by_cases hlisten : IsListen tokens
  . rcases Option.ne_none_iff_exists'.mp (h hlisten) with ⟨written, hport⟩
    have hvisit := isListen_wellFormed hport
    rw [written_cons _ _ hvisit.2, if_neg hvisit.1, if_pos hlisten]
  . have hvisit := not_isListen hlisten
    rw [written_cons _ _ hvisit.2.2, if_pos hvisit.2.1, if_neg hlisten]

theorem written_of_not_hidden {config : NginxConfig} (hwf : ListensWellFormed config)
    (hhidden : ¬ListensHidden config) : config.written = config.ports := by
  induction config using NginxConfig.block_induction with
  | nil => rfl
  | cons tokens childBlock statements ihblock ih =>
    rcases hwf.cons with ⟨hhere, hblock, hrest⟩
    rw [listensHidden_cons, not_or, not_or] at hhidden
    rcases hhidden with ⟨hself, hinner, hlater⟩
    rw [written_ports_cons hhere, ports_cons, ih hrest hlater]
    split
    next hlisten =>
      have hempty : NginxConfig.listens (childBlock.getD []) = [] := by
        by_contra hne
        exact hself ⟨hlisten, hne⟩
      rw [(ports_eq_nil_iff hblock).mpr hempty]
    . rw [ihblock hblock hinner]

theorem reached_sublist (config : NginxConfig) : config.reached.Sublist (config.inOrder.map (·.tokens)) := by
  induction config using NginxConfig.block_induction with
  | nil => exact .slnil
  | cons tokens childBlock statements ihblock ih =>
    rw [NginxConfig.reached, NginxConfig.inOrder, List.map_append]
    apply List.Sublist.append
    . cases childBlock with
      | none => exact .refl _
      | some block =>
        apply List.Sublist.cons_cons
        split
        . exact ihblock
        . exact List.nil_sublist _
    . split
      . exact List.nil_sublist _
      . exact ih

theorem written_sublist (config : NginxConfig) : config.written.Sublist config.ports := by
  have hports : config.ports = (config.inOrder.map (·.tokens)).filterMap listenPort? := by
    rw [NginxConfig.ports, NginxConfig.listens, List.filterMap_filter]
    apply List.filterMap_congr
    intro tokens _
    split
    . rfl
    next hlisten => exact (not_isListen (by simpa using hlisten)).1.symm
  rw [hports]
  exact (reached_sublist config).filterMap listenPort?

theorem written_length_lt {config : NginxConfig} (hwf : ListensWellFormed config)
    (hhidden : ListensHidden config) : config.written.length < config.ports.length := by
  induction config using NginxConfig.block_induction with
  | nil => simp [ListensHidden, NginxConfig.inOrder] at hhidden
  | cons tokens childBlock statements ihblock ih =>
    rcases hwf.cons with ⟨hhere, hblock, hrest⟩
    have hleBlock := (written_sublist (childBlock.getD [])).length_le
    have hleRest := (written_sublist statements).length_le
    rw [written_ports_cons hhere, ports_cons]
    simp only [List.length_append]
    rcases listensHidden_cons.mp hhidden with ⟨hlisten, hne⟩ | hinner | hlater
    . have hpos : 0 < (NginxConfig.ports (childBlock.getD [])).length := by
        rw [List.length_pos_iff, Ne, ports_eq_nil_iff hblock]
        exact hne
      rw [if_pos hlisten, List.length_nil]
      omega
    . have hlt := ihblock hblock hinner
      split
      . rw [List.length_nil]
        omega
      . omega
    . have hlt := ih hrest hlater
      split
      . rw [List.length_nil]
        omega
      . omega

theorem mem_listens {config : NginxConfig} {statement : NginxConfigStatement} (hmem : statement ∈ config)
    (hlisten : IsListen statement.tokens) : statement.tokens ∈ config.listens := by
  induction config with
  | nil => cases hmem
  | cons first statements ih =>
    rcases first with ⟨tokens, childBlock⟩
    rw [listens_cons]
    rcases List.mem_cons.mp hmem with rfl | hmem
    . rw [if_pos hlisten]
      exact List.mem_append_left _ List.mem_cons_self
    . exact List.mem_append_right _ (List.mem_append_right _ (ih hmem))

theorem not_refusesAny {config : NginxConfig} (h : ListensWellFormed config) : ¬GetPort.RefusesAny config := by
  rintro ⟨statement, hmem, hrefuses⟩
  have hlisten : IsListen statement.tokens := by
    by_contra hnot
    exact (not_isListen hnot).2.2 hrefuses
  rcases Option.ne_none_iff_exists'.mp (h _ (mem_listens hmem hlisten)) with ⟨written, hport⟩
  exact (isListen_wellFormed hport).2 hrefuses

theorem written_eq_nil_iff {config : NginxConfig}
    : config.written = [] ↔ ∀ tokens ∈ config.reached, listenPort? tokens = none :=
  List.filterMap_eq_nil_iff

/--
`get_port` reports what is written if and only if three things hold: it gets to no statement that stops it; if
all listen statements are well-formed, none stands in the block of another one; and if one is not, then a
statement at the top level is refused or no well-formed one is gotten to.
-/
theorem portsAsWritten_iff (config : NginxConfig)
    : PortsAsWritten config
        ↔
      (∀ tokens ∈ config.reached, ¬GetPort.Stops tokens)
        ∧ (ListensWellFormed config → ¬ListensHidden config)
        ∧ (¬ListensWellFormed config →
            GetPort.RefusesAny config ∨ ∀ tokens ∈ config.reached, listenPort? tokens = none) := by
  constructor
  . rintro ⟨success, vec, hport, hsuccess, hvec⟩
    have hstops := GetPort.not_stops_of_getPort ⟨_, hport⟩
    have hcollects := GetPort.getPort_eq config hstops []
    rw [hport, Outcome.ok.injEq, Prod.mk.injEq, List.nil_append] at hcollects
    rcases hcollects with ⟨hresult, rfl⟩
    refine ⟨hstops, ?_, ?_⟩
    . intro hwf hhidden
      -- a statement that the block hides is missing among the ports
      have hlt := written_length_lt hwf hhidden
      have hne : config.listens ≠ [] := by
        rw [Ne, ← ports_eq_nil_iff hwf, ← List.length_eq_zero_iff]
        omega
      have hlength := congrArg List.length (hvec (hsuccess.mpr ⟨hne, hwf⟩))
      rw [List.length_map, List.length_map] at hlength
      omega
    . intro hwf
      have hfalse : success ≠ true := fun htrue => hwf (hsuccess.mp htrue).2
      rw [← written_eq_nil_iff]
      by_contra hnot
      rw [not_or] at hnot
      apply hfalse
      simp [hresult, hnot.1, hnot.2]
  . rintro ⟨hstops, hhidden, hrejected⟩
    refine ⟨_, _, GetPort.getPort_eq config hstops [], ?_, ?_⟩
    . by_cases hwf : ListensWellFormed config
      . simp [not_refusesAny hwf, hwf, written_of_not_hidden hwf (hhidden hwf), ports_eq_nil_iff hwf]
      . rcases hrejected hwf with hrefuses | hnone
        . simp [hrefuses, hwf]
        . simp [written_eq_nil_iff.mpr hnone, hwf]
    . intro htrue
      by_cases hwf : ListensWellFormed config
      . rw [List.nil_append, written_of_not_hidden hwf (hhidden hwf)]
      . rcases hrejected hwf with hrefuses | hnone
        . simp [hrefuses] at htrue
        . simp [written_eq_nil_iff.mpr hnone] at htrue

/-- Of two servers the first one has no port; that `get_port` finds none in its block is not noticed. -/
theorem getPort_first_invalid
    : ¬PortsAsWritten
        [⟨[Bytes.lit "server"], some [⟨[Bytes.lit "listen", Bytes.lit "https"], none⟩]⟩,
          ⟨[Bytes.lit "server"], some [⟨[Bytes.lit "listen", Bytes.lit "https", Bytes.lit "8000"], none⟩]⟩] := by
  rintro ⟨success, vec, hport, hsuccess, -⟩
  have hresult : success = true := by
    have htrue : NginxConfig.getPort []
        [⟨[Bytes.lit "server"], some [⟨[Bytes.lit "listen", Bytes.lit "https"], none⟩]⟩,
          ⟨[Bytes.lit "server"], some [⟨[Bytes.lit "listen", Bytes.lit "https", Bytes.lit "8000"], none⟩]⟩]
        = .ok (true, [(8000, Bytes.lit "https")]) := by
      rfl
    rw [hport, Outcome.ok.injEq, Prod.mk.injEq] at htrue
    exact htrue.1
  exact absurd (hsuccess.mp hresult).2 (by decide)

end Foxy
