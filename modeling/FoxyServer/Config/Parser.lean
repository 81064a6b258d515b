import FoxyServer.Config.Lexer
import FoxyServer.Library.Loop

/-!
This module contains the config parser: a loop over the tokens that builds the tree through a stack of
pointers to the configs whose blocks are open.
-/

namespace Foxy

namespace NginxConfigParser

/--
A pointer to a config inside the tree: the positions of the statements whose blocks lead to it.
-/
abbrev ConfigPtr := List Nat

def deref (config : NginxConfig) : ConfigPtr → Outcome NginxConfig
  | [] => .ok config
  | i :: ptr =>
    match config[i]? with
    | some ⟨_, some childBlock⟩ => deref childBlock ptr
    | _ => .undefined

def modifyAt (f : NginxConfig → Outcome NginxConfig) (config : NginxConfig)
    : ConfigPtr → Outcome NginxConfig
  | [] => f config
  | i :: ptr =>
    match config[i]? with
    | some ⟨tokens, some childBlock⟩ => do
      let childBlock ← modifyAt f childBlock ptr
      return config.set i ⟨tokens, some childBlock⟩
    | _ => .undefined

def modifyBack (f : NginxConfigStatement → NginxConfigStatement) (config : NginxConfig)
    : Outcome NginxConfig :=
  match config.getLast? with
  | some statement => .ok (config.dropLast ++ [f statement])
  | none => .undefined

structure ParseState where
  input : Bytes
  config : NginxConfig
  configStack : List ConfigPtr := [[]]
  lastTokenType : TokenType := .start

namespace ParseState

def top (st : ParseState) : Outcome ConfigPtr :=
  match st.configStack with
  | ptr :: _ => .ok ptr
  | [] => .undefined

def pop (st : ParseState) : Outcome ParseState :=
  match st.configStack with
  | _ :: configStack => .ok { st with configStack }
  | [] => .undefined

end ParseState

def handleToken (tokenType : TokenType) (token : Bytes) (st : ParseState)
    : Outcome (Pass ParseState (Bool × NginxConfig)) :=
  let error := .ok (.leave (false, st.config))
  let next := fun (st : ParseState) => .ok (.again { st with lastTokenType := tokenType })
  match tokenType with
  | .error => error
  | .comment => .ok (.again st)
  | .start => error
  | .normal =>
    if st.lastTokenType = .start ∨ st.lastTokenType = .statementEnd ∨ st.lastTokenType = .startBlock
        ∨ st.lastTokenType = .endBlock ∨ st.lastTokenType = .normal then do
      let top ← st.top
      -- the first token of a statement starts it
      let config ←
        (if st.lastTokenType ≠ .normal then
          modifyAt (fun statements => .ok (statements ++ [⟨[], none⟩])) st.config top
        else
          .ok st.config)
      let config ←
        modifyAt (modifyBack (fun s => { s with tokens := s.tokens ++ [token] })) config top
      next { st with config }
    else
      error
  | .statementEnd => if st.lastTokenType ≠ .normal then error else next st
  | .startBlock =>
    if st.lastTokenType ≠ .normal then
      error
    else do
      let top ← st.top
      let statements ← deref st.config top
      let config ← modifyAt (modifyBack (fun s => { s with childBlock := some [] })) st.config top
      -- the new block is that of the last statement
      let newConfig := top ++ [statements.length - 1]
      next { st with config, configStack := newConfig :: st.configStack }
  | .endBlock =>
    if st.lastTokenType ≠ .statementEnd ∧ st.lastTokenType ≠ .startBlock
        ∧ st.lastTokenType ≠ .endBlock then
      error
    else do
      let st ← st.pop
      next st
  | .eof =>
    if st.lastTokenType ≠ .statementEnd ∧ st.lastTokenType ≠ .endBlock
        ∧ st.lastTokenType ≠ .start ∧ st.lastTokenType ≠ .comment then
      error
    else do
      let st ← st.pop
      -- the outermost config has been popped, so no block is open
      if st.configStack = [] then
        .ok (.leave (true, st.config))
      else
        next st

def parseStep (st : ParseState) : Outcome (Pass ParseState (Bool × NginxConfig)) :=
  handleToken (parseToken st.input).1.1 (parseToken st.input).1.2
    { st with input := (parseToken st.input).2 }

def parseWithin (fuel : Nat) (input : Bytes) (config : NginxConfig)
    : Option (Outcome (Bool × NginxConfig)) :=
  Pass.loop parseStep fuel { input, config }

def parse (input : Bytes) (config : NginxConfig) : Option (Outcome (Bool × NginxConfig)) :=
  parseWithin (input.length + 2) input config

example :
    parse (Bytes.lit "a b; # c\nd \x7b e; \x7d") []
      = some (.ok (true, [⟨[Bytes.lit "a", Bytes.lit "b"], none⟩,
          ⟨[Bytes.lit "d"], some [⟨[Bytes.lit "e"], none⟩]⟩])) := by
  rfl

/-! ## Termination -/

def ParseState.remaining (st : ParseState) : Nat :=
  st.input.length + (if st.lastTokenType = .eof then 0 else 1)

theorem pop_eq_ok {st st' : ParseState} (h : st.pop = .ok st')
    : st' = { st with configStack := st.configStack.tail } := by
  rcases st with ⟨input, config, configStack, last⟩
  cases configStack with
  | nil => cases h
  | cons ptr configStack =>
    simp only [ParseState.pop, Outcome.ok.injEq] at h
    simp [← h]

/-- What the loop can do with a token: leave, pass over it, or go on with a changed tree or stack. -/
inductive Handled (tokenType : TokenType) (token : Bytes) (st : ParseState)
    : Pass ParseState (Bool × NginxConfig) → Prop where
  | rejected : Handled tokenType token st (.leave (false, st.config))
  | accepted (heof : tokenType = .eof) : Handled tokenType token st (.leave (true, st.config))
  | skipped (hcomment : tokenType = .comment) : Handled tokenType token st (.again st)
  | added (hnormal : tokenType = .normal) (hlast : st.lastTokenType ≠ .eof)
    (hstarted : started = st.config
      ∨ modifyAt (fun statements => .ok (statements ++ [⟨[], none⟩])) st.config ptr = .ok started)
    (hadded : modifyAt (modifyBack (fun s => { s with tokens := s.tokens ++ [token] })) started ptr
      = .ok config)
    : Handled tokenType token st (.again { st with config, lastTokenType := tokenType })
  | opened (hlast : st.lastTokenType ≠ .eof)
    (hopened : modifyAt (modifyBack (fun s => { s with childBlock := some [] })) st.config ptr = .ok config)
    : Handled tokenType token st (.again { st with config, configStack, lastTokenType := tokenType })
  | passed (hlast : st.lastTokenType ≠ .eof)
    : Handled tokenType token st (.again { st with configStack, lastTokenType := tokenType })

theorem handled_of_handleToken {tokenType : TokenType} {token : Bytes} {st : ParseState}
    {out : Pass ParseState (Bool × NginxConfig)} (h : handleToken tokenType token st = .ok out)
    : Handled tokenType token st out := by
  cases tokenType with
  | start =>
    cases h
    exact .rejected
  | error =>
    cases h
    exact .rejected
  | comment =>
    cases h
    exact .skipped rfl
  | normal =>
    rw [handleToken] at h
    split at h
    next hlast =>
      rcases Outcome.bind_eq_ok.mp h with ⟨top, -, h⟩
      rcases Outcome.bind_eq_ok.mp h with ⟨started, hstarted, h⟩
      rcases Outcome.bind_eq_ok.mp h with ⟨config, hadded, h⟩
      cases h
      refine .added rfl ?_ ?_ hadded
      . intro heof
        simp [heof] at hlast
      -- the config has got a new statement, or the token goes to the last one
      . split at hstarted
        . exact .inr hstarted
        . cases hstarted
          exact .inl rfl
    next =>
      cases h
      exact .rejected
  | statementEnd =>
    simp only [handleToken] at h
    split_ifs at h with hlast
    . cases h
      exact .rejected
    . cases h
      exact .passed (by simp [not_not.mp hlast])
  | startBlock =>
    simp only [handleToken] at h
    split_ifs at h with hlast
    . cases h
      exact .rejected
    . rcases Outcome.bind_eq_ok.mp h with ⟨top, -, h⟩
      rcases Outcome.bind_eq_ok.mp h with ⟨statements, -, h⟩
      rcases Outcome.bind_eq_ok.mp h with ⟨config, hopened, h⟩
      cases h
      exact .opened (by simp [not_not.mp hlast]) hopened
  | endBlock =>
    simp only [handleToken] at h
    split_ifs at h with hlast
    . cases h
      exact .rejected
    . rcases Outcome.bind_eq_ok.mp h with ⟨st1, hpop, h⟩
      cases h
      rw [pop_eq_ok hpop]
      refine .passed ?_
      intro heof
      simp [heof] at hlast
  | eof =>
    simp only [handleToken] at h
    split_ifs at h with hlast
    . cases h
      exact .rejected
    . rcases Outcome.bind_eq_ok.mp h with ⟨st1, hpop, h⟩
      rw [pop_eq_ok hpop] at h
      split_ifs at h
      . cases h
        exact .accepted rfl
      . cases h
        refine .passed ?_
        intro heof
        simp [heof] at hlast

theorem handleToken_again {tokenType : TokenType} {token : Bytes} {st st' : ParseState}
    (h : handleToken tokenType token st = .ok (.again st'))
    : st'.input = st.input
        ∧ (tokenType = .comment ∧ st'.lastTokenType = st.lastTokenType
            ∨ st.lastTokenType ≠ .eof ∧ st'.lastTokenType = tokenType) := by
  cases handled_of_handleToken h with
  | skipped hcomment => exact ⟨rfl, .inl ⟨hcomment, rfl⟩⟩
  | added hnormal hlast => exact ⟨rfl, .inr ⟨hlast, rfl⟩⟩
  | opened hlast => exact ⟨rfl, .inr ⟨hlast, rfl⟩⟩
  | passed hlast => exact ⟨rfl, .inr ⟨hlast, rfl⟩⟩

theorem handleToken_leave {tokenType : TokenType} {token : Bytes} {st : ParseState} {accepted : Bool}
    {config : NginxConfig} (h : handleToken tokenType token st = .ok (.leave (accepted, config)))
    : config = st.config := by
  cases handled_of_handleToken h <;> rfl

theorem parseStep_again {st st' : ParseState} (h : parseStep st = .ok (.again st'))
    : st'.remaining < st.remaining := by
  rcases handleToken_again h with ⟨hinput, hlast⟩
  have hne : (parseToken st.input).1.1 ≠ .error := by
    intro herror
    simp [parseStep, handleToken, herror] at h
  have hle := (parseTokenFrom_rest_length .initialWhitespace [] st.input).1
  rw [← parseToken] at hle
  simp only [ParseState.remaining, hinput]
  rcases hlast with ⟨hcomment, hsame⟩ | ⟨hlast, hnext⟩
  . have := parseToken_rest_length (by simp [hcomment]) hne
    simp only [hsame]
    omega
  . rw [if_neg hlast, hnext]
    split_ifs with heof
    . omega
    . have := parseToken_rest_length heof hne
      omega

theorem parse_terminates (input : Bytes) (config : NginxConfig)
    : ∃ r, ∀ fuel, input.length + 2 ≤ fuel → parseWithin fuel input config = some r :=
  Pass.loop_ends ParseState.remaining (fun _ _ => parseStep_again) { input, config }

end NginxConfigParser

end Foxy
