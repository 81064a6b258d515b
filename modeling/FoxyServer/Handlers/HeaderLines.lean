import FoxyServer.Handlers.Proxy

/-!
This module contains what the proxy handler makes of a header line that has a colon: it drops the byte behind
the colon and the byte at the end, whatever they are.
-/

namespace Foxy

namespace ProxyRequestHandler

def receivedLine (name rest : Bytes) : Bytes :=
  name ++ ':'.toUInt8 :: (rest ++ Bytes.lit "\r")

def withoutSpace (rest : Bytes) : Bytes :=
  if rest.head? = some ' '.toUInt8 then rest.tail else rest

def Stores (name value : Bytes) (response : Response) (out : Option Response) : Prop :=
  ∃ stored, out = some stored ∧ stored.code = response.code ∧ stored.body = response.body
    ∧ stored.headers.find? name = some value
    ∧ ∀ other ≠ name, stored.headers.find? other = response.headers.find? other

theorem stores_set (name value value' : Bytes) (response : Response)
    : Stores name value response
          (some { response with headers := response.headers.set name value' })
        ↔
      value' = value := by
  constructor
  . rintro ⟨stored, hstored, -, -, hvalue, -⟩
    rw [← Option.some.inj hstored, OrdMap.find?_set, if_pos rfl] at hvalue
    exact Option.some.inj hvalue
  . intro hvalue
    refine ⟨_, rfl, rfl, rfl, ?_, ?_⟩
    . rw [OrdMap.find?_set, if_pos rfl, hvalue]
    . intro other hother
      rw [OrdMap.find?_set, if_neg (Ne.symm hother)]

theorem parseHeader_receivedLine {name : Bytes} (hname : ':'.toUInt8 ∉ name) (rest : Bytes)
    (response : Response)
    : parseHeader (receivedLine name rest) response
        =
      if rest = [] then
        .undefined
      else
        .ok (some { response with headers := response.headers.set name rest.tail }) := by
  have hfind : Bytes.find (Bytes.lit ":") (receivedLine name rest) = some name.length :=
    Bytes.find_singleton hname _
  have hsubstr : Bytes.substr (receivedLine name rest) (name.length + 2 : Nat)
      = .ok ((rest ++ Bytes.lit "\r").tail) := by
    rw [Bytes.substr_eq_ok]
    . rw [receivedLine, List.drop_length_add_append, List.drop_succ_cons, List.drop_one]
    . simp only [receivedLine, List.length_append, List.length_cons]
      simp [Bytes.lit]
  have htake : (receivedLine name rest).take name.length = name := List.take_left
  simp only [parseHeader, hfind, hsubstr, Outcome.ok_bind, htake]
  cases rest with
  | nil => rfl
  | cons c rest =>
    rw [if_neg (by simp [Bytes.lit]), if_neg (List.cons_ne_nil _ _), List.cons_append, List.tail_cons,
      List.tail_cons]
    have hlast : (rest ++ Bytes.lit "\r").dropLast = rest := List.dropLast_concat
    rw [hlast]
    rfl

/--
A line is read for what it says exactly when a space follows the colon. An empty value leaves nothing for
`pop_back`, and any other first byte of a value is lost.
-/
theorem parseHeader_stores_iff {name : Bytes} (hname : ':'.toUInt8 ∉ name) {rest : Bytes}
    {response : Response}
    : (parseHeader (receivedLine name rest) response).Yields (Stores name (withoutSpace rest) response)
        ↔
      rest.head? = some ' '.toUInt8 := by
  rw [parseHeader_receivedLine hname]
  cases rest with
  | nil => simp [Outcome.Yields]
  | cons c rest =>
    rw [if_neg (List.cons_ne_nil _ _), Outcome.yields_ok, stores_set, withoutSpace]
    constructor
    . intro hvalue
      by_contra hspace
      rw [if_neg hspace] at hvalue
      exact absurd hvalue.symm (List.cons_ne_self _ _)
    . intro hspace
      rw [if_pos hspace]

theorem parseHeader_stores_iff_via
    : (parseHeader (receivedLine (Bytes.lit "Via") (Bytes.lit " fox")) {}).Yields
          (Stores (Bytes.lit "Via") (withoutSpace (Bytes.lit " fox")) {})
        ↔
      (Bytes.lit " fox").head? = some ' '.toUInt8 :=
  parseHeader_stores_iff (by decide)

/-- The first byte of a value without a space is lost, and an empty value is not read at all. -/
theorem parseHeader_spaceless
    : parseHeader (Bytes.lit "Via:fox\r") {}
          = .ok (some { headers := OrdMap.ofList [(Bytes.lit "Via", Bytes.lit "ox")] })
        ∧ parseHeader (Bytes.lit "Via:\r") {} = .undefined
        ∧ ¬(parseHeader (receivedLine (Bytes.lit "Via") (Bytes.lit "fox")) {}).Yields
          (Stores (Bytes.lit "Via") (withoutSpace (Bytes.lit "fox")) {}) := by
  refine ⟨by decide +kernel, by decide +kernel, ?_⟩
  rw [parseHeader_receivedLine (by decide), if_neg (by decide), Outcome.yields_ok, stores_set]
  decide

end ProxyRequestHandler

end Foxy
