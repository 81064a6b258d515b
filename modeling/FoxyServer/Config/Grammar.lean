import FoxyServer.Config.Lexer

/-!
This module contains the grammar of config files over tokens, and a reader for it that keeps the open
blocks on a stack. The reader accepts exactly the derivable token sequences, with the derivation tree.
-/

namespace Foxy

namespace NginxConfigParser

inductive Terminal where
  | normal (value : Bytes)
  | statementEnd
  | startBlock
  | endBlock
  deriving DecidableEq, Repr

def terminal? (token : Token) : Option Terminal :=
  match token.1 with
  | .normal => some (.normal token.2)
  | .statementEnd => some .statementEnd
  | .startBlock => some .startBlock
  | .endBlock => some .endBlock
  | _ => none

def terminals (tokens : List Token) : List Terminal :=
  tokens.filterMap terminal?

@[simp]
theorem terminals_append (toks toks' : List Token)
    : terminals (toks ++ toks') = terminals toks ++ terminals toks' :=
  List.filterMap_append

theorem terminals_cons (token : Token) (tokens : List Token)
    : terminals (token :: tokens) = terminals [token] ++ terminals tokens :=
  terminals_append [token] tokens

theorem terminals_cons_of_some {token : Token} {t : Terminal} (h : terminal? token = some t)
    (tokens : List Token) : terminals (token :: tokens) = t :: terminals tokens :=
  List.filterMap_cons_some h

theorem terminals_cons_of_none {token : Token} (h : terminal? token = none) (tokens : List Token)
    : terminals (token :: tokens) = terminals tokens :=
  List.filterMap_cons_none h

/--
`config := statement*` and `statement := NORMAL+ ';' | NORMAL+ '\x7b' config '\x7d'`, each derivation
with its tree.
-/
inductive Derives : List Terminal → NginxConfig → Prop where
  | nil : Derives [] []
  | simple (values : List Bytes) (hvalues : values ≠ []) (hrest : Derives ts config)
    : Derives (values.map .normal ++ .statementEnd :: ts) (⟨values, none⟩ :: config)
  | block (values : List Bytes) (hvalues : values ≠ []) (hbody : Derives body childBlock)
    (hrest : Derives ts config)
    : Derives (values.map .normal ++ .startBlock :: (body ++ .endBlock :: ts))
        (⟨values, some childBlock⟩ :: config)

theorem Derives.append (h : Derives ts config) (h' : Derives ts' config')
    : Derives (ts ++ ts') (config ++ config') := by
  induction h with
  | nil => exact h'
  | simple values hvalues hrest ih =>
    simpa using Derives.simple values hvalues ih
  | block values hvalues hbody hrest ihbody ih =>
    simpa using Derives.block values hvalues hbody ih

/-! ## Reading from left to right -/

/--
What is known in the middle of a token sequence: for each open block, innermost first, the statements in
front of the statement it belongs to and that statement's tokens; the complete statements of the
innermost config; and the tokens of the statement being read.
-/
structure Reading where
  outer : List (NginxConfig × List Bytes) := []
  done : NginxConfig := []
  tokens : List Bytes := []

namespace Reading

def read (r : Reading) : Terminal → Option Reading
  | .normal value => some { r with tokens := r.tokens ++ [value] }
  | .statementEnd =>
    if r.tokens = [] then
      none
    else
      some { r with done := r.done ++ [⟨r.tokens, none⟩], tokens := [] }
  | .startBlock =>
    if r.tokens = [] then
      none
    else
      some { outer := (r.done, r.tokens) :: r.outer }
  | .endBlock =>
    match r with
    | ⟨(before, tokens) :: outer, childBlock, []⟩ =>
      some { outer, done := before ++ [⟨tokens, some childBlock⟩] }
    | _ => none

def readAll (r : Reading) : List Terminal → Option Reading
  | [] => some r
  | t :: ts => (r.read t).bind (fun r => r.readAll ts)

def result? (r : Reading) : Option NginxConfig :=
  match r with
  | ⟨[], config, []⟩ => some config
  | _ => none

def accept (r : Reading) (ts : List Terminal) : Option NginxConfig :=
  (r.readAll ts).bind result?

@[simp]
theorem accept_nil (r : Reading) : r.accept [] = r.result? := rfl

theorem accept_cons (r : Reading) (t : Terminal) (ts : List Terminal)
    : r.accept (t :: ts) = (r.read t).bind (fun r => r.accept ts) := by
  simp only [accept, readAll, Option.bind_assoc]

theorem readAll_append (r : Reading) (ts ts' : List Terminal)
    : r.readAll (ts ++ ts') = (r.readAll ts).bind (fun r => r.readAll ts') := by
  induction ts generalizing r with
  | nil => rfl
  | cons t ts ih =>
    rw [List.cons_append, readAll, readAll, Option.bind_assoc]
    simp only [ih]

theorem readAll_values (r : Reading) (values : List Bytes)
    : r.readAll (values.map .normal) = some { r with tokens := r.tokens ++ values } := by
  induction values generalizing r with
  | nil => simp [readAll]
  | cons value values ih =>
    rw [List.map_cons, readAll, read, Option.bind_some, ih]
    simp

theorem readAll_of_derives (h : Derives ts config) (outer : List (NginxConfig × List Bytes))
    (done : NginxConfig) : readAll ⟨outer, done, []⟩ ts = some ⟨outer, done ++ config, []⟩ := by
  induction h generalizing outer done with
  | nil => simp [readAll]
  | simple values hvalues hrest ih =>
    rw [readAll_append, readAll_values, Option.bind_some, readAll, read, if_neg (by simpa using hvalues),
      Option.bind_some, ih]
    simp
  | block values hvalues hbody hrest ihbody ih =>
    rw [readAll_append, readAll_values, Option.bind_some, readAll, read, if_neg (by simpa using hvalues),
      Option.bind_some, readAll_append, ihbody, Option.bind_some, readAll, read, Option.bind_some, ih]
    simp

inductive Opened : List Terminal → List (NginxConfig × List Bytes) → Prop where
  | nil : Opened [] []
  | cons (hopened : Opened ts blocks) (hbefore : Derives us before) (hvalues : values ≠ [])
    : Opened (ts ++ us ++ values.map .normal ++ [.startBlock]) ((before, values) :: blocks)

def LeadsTo (ts : List Terminal) (r : Reading) : Prop :=
  ∃ us vs, Opened us r.outer ∧ Derives vs r.done ∧ ts = us ++ vs ++ r.tokens.map .normal

theorem leadsTo_read {r r' : Reading} {t : Terminal} (h : LeadsTo ts r) (hread : r.read t = some r')
    : LeadsTo (ts ++ [t]) r' := by
  rcases h with ⟨us, vs, houter, hdone, rfl⟩
  cases t with
  | normal value =>
    simp only [read, Option.some.injEq] at hread
    subst hread
    exact ⟨us, vs, houter, hdone, by simp⟩
  | statementEnd =>
    rw [read] at hread
    split_ifs at hread with hne
    simp only [Option.some.injEq] at hread
    subst hread
    exact ⟨us, _, houter, hdone.append (.simple r.tokens hne .nil), by simp⟩
  | startBlock =>
    rw [read] at hread
    split_ifs at hread with hne
    simp only [Option.some.injEq] at hread
    subst hread
    exact ⟨_, [], .cons houter hdone hne, .nil, by simp only [List.map_nil, List.append_nil]⟩
  | endBlock =>
    rcases r with ⟨_ | ⟨⟨before, tokens⟩, outer⟩, childBlock, _ | ⟨value, values⟩⟩
    . cases hread
    . cases hread
    . simp only [read, Option.some.injEq] at hread
      subst hread
      rcases houter with _ | ⟨houter, hbefore, hvalues⟩
      exact ⟨_, _, houter, hbefore.append (.block tokens hvalues hdone .nil), by simp⟩
    . cases hread

theorem leadsTo_readAll {r r' : Reading} {us : List Terminal} (h : LeadsTo us r)
    (hread : r.readAll ts = some r') : LeadsTo (us ++ ts) r' := by
  induction ts generalizing r us with
  | nil =>
    simp only [readAll, Option.some.injEq] at hread
    simpa [← hread] using h
  | cons t ts ih =>
    rw [readAll, Option.bind_eq_some_iff] at hread
    rcases hread with ⟨r1, hr1, hread⟩
    simpa using ih (leadsTo_read h hr1) hread

/--
The reader accepts exactly the derivable sequences, each with its derivation tree.
-/
theorem accept_eq_some_iff : accept {} ts = some config ↔ Derives ts config := by
  constructor
  . intro h
    rcases Option.bind_eq_some_iff.mp h with ⟨r, hr, hresult⟩
    rcases leadsTo_readAll ⟨[], [], .nil, .nil, rfl⟩ hr with ⟨us, vs, houter, hdone, hts⟩
    rcases r with ⟨_ | ⟨block, outer⟩, done, _ | ⟨value, values⟩⟩
    . simp only [result?, Option.some.injEq] at hresult
      subst hresult
      cases houter
      simp only [List.map_nil, List.append_nil, List.nil_append] at hts
      rwa [hts]
    . cases hresult
    . cases hresult
    . cases hresult
  . intro h
    rw [accept, readAll_of_derives h]
    rfl

end Reading

end NginxConfigParser

end Foxy
