import FoxyServer.Handlers.Dispatch

/-!
This module contains which locations registration puts into the map, statement by statement, and when the
dispatcher finds a handler among them.
-/

namespace Foxy

def Registers (statement : NginxConfigStatement) (path : Bytes) : Prop :=
  IsLocation statement
    ∧ ∃ token, statement.tokens[1]? = some token ∧ utility.isQuoted token = .ok (true, path)

namespace RequestHandlerGenerator

theorem exists_created_of_location {generator generator' : RequestHandlerGenerator}
    {startup startup' : Startup} {statement : NginxConfigStatement} (hlocation : IsLocation statement)
    (h : getMapFrom generator startup [statement] = .ok (true, generator', startup'))
    : ∃ path rh, Creates statement path startup startup' rh
        ∧ generator' = { generator with map := generator.map.insert path (some rh) } := by
  rcases getMapFrom_location hlocation h with ⟨hrefused, -⟩ | ⟨-, hcreated⟩
  . cases hrefused
  . exact hcreated

theorem mem_keys_of_location {generator generator' : RequestHandlerGenerator} {startup startup' : Startup}
    {statement : NginxConfigStatement} {path : Bytes}
    (h : getMapFrom generator startup [statement] = .ok (true, generator', startup'))
    : path ∈ generator'.map.keys ↔ path ∈ generator.map.keys ∨ Registers statement path := by
  by_cases hlocation : IsLocation statement
  . rcases exists_created_of_location hlocation h with ⟨path', rh, hcreates, rfl⟩
    rcases hcreates.token with ⟨token, htoken, hquoted⟩
    rw [OrdMap.mem_keys_insert, Registers]
    simp [hlocation, htoken, hquoted, eq_comm]
  . rw [getMapFrom_of_not_location hlocation] at h
    cases h
    simp [Registers, hlocation]

theorem mem_keys_of_getMapFrom {generator generator' : RequestHandlerGenerator}
    {startup startup' : Startup} {config : NginxConfig} {path : Bytes}
    (h : getMapFrom generator startup config = .ok (true, generator', startup'))
    : path ∈ generator'.map.keys
        ↔
      path ∈ generator.map.keys ∨ ∃ statement ∈ config, Registers statement path := by
  induction config generalizing generator startup with
  | nil =>
    cases h
    simp
  | cons statement statements ih =>
    rw [getMapFrom_cons_eq] at h
    rcases Outcome.bind_eq_ok.mp h with ⟨⟨accepted, generator1, startup1⟩, hstatement, h⟩
    cases accepted with
    | false => cases h
    | true =>
      rw [ih h, mem_keys_of_location hstatement, List.exists_mem_cons_iff, or_assoc]

theorem mem_keys_getMap {generator : RequestHandlerGenerator} {startup startup' : Startup}
    {config : NginxConfig} {path : Bytes}
    (h : getMap {} config startup = .ok (true, generator, startup'))
    : path ∈ generator.map.keys ↔ ∃ statement ∈ config, Registers statement path := by
  rw [mem_keys_of_getMapFrom h]
  simp [OrdMap.mem_keys_iff]

/-! ## Dispatch -/

theorem dispatchHandler_snd {generator : RequestHandlerGenerator} {uri : Bytes}
    (h : (generator.chosen uri).getD (Bytes.lit "/") ∈ generator.map.keys)
    : (generator.dispatchHandler uri).2 = generator := by
  rw [dispatchHandler_eq, OrdMap.insert_eq_self h]

theorem dispatchHandler_eq_none_iff {generator : RequestHandlerGenerator} {allocated : Nat}
    (h : Registered generator allocated) {uri : Bytes}
    : (generator.dispatchHandler uri).1 = none
        ↔
      (generator.chosen uri).getD (Bytes.lit "/") ∉ generator.map.keys := by
  rw [dispatchHandler_fst, OrdMap.mem_keys_iff]
  cases hfind : generator.map.find? ((generator.chosen uri).getD (Bytes.lit "/")) with
  | none => simp
  | some value =>
    rcases h.entry _ value hfind with ⟨handler, rfl, -⟩
    simp

theorem mem_keys_of_root {generator : RequestHandlerGenerator} (hroot : Bytes.lit "/" ∈ generator.map.keys)
    (uri : Bytes) : (generator.chosen uri).getD (Bytes.lit "/") ∈ generator.map.keys := by
  cases hchosen : generator.chosen uri with
  | none => exact hroot
  | some location => exact (chosen_eq_some hchosen).1

theorem chosen_root (generator : RequestHandlerGenerator) : generator.chosen (Bytes.lit "/") = none := by
  rw [chosen_eq_none_iff]
  intro location _
  rw [commonPrefixLength, show cutFrom [] (Bytes.cStr (Bytes.lit "/")) = [] from rfl, countEqual]
  exact fun _ _ _ _ h => by cases h

end RequestHandlerGenerator

end Foxy
