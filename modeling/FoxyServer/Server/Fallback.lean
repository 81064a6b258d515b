import FoxyServer.Server.Safety
import FoxyServer.Session.Dispatching

/-!
This module contains the proof that the sessions of a server find a handler for whatever they are asked for
exactly if its config registers one for the root.
-/

namespace Foxy

theorem getMap_of_startUp {starts : Nat → Bool} {config : NginxConfig} {served : Served}
    (h : startUp starts true config = .ok (some served))
    : RequestHandlerGenerator.getMap {} config {} = .ok (true, served.generator, served.startup) := by
  rw [startUp] at h
  rcases Outcome.bind_eq_ok.mp h with ⟨⟨getPort, portTypes⟩, -, h⟩
  rcases Outcome.bind_eq_ok.mp h with ⟨⟨getDir, dir⟩, -, h⟩
  rcases Outcome.bind_eq_ok.mp h with ⟨⟨getThreads, threads⟩, -, h⟩
  rcases Outcome.bind_eq_ok.mp h with ⟨⟨getHostname, hostname⟩, -, h⟩
  rcases Outcome.bind_eq_ok.mp h with ⟨⟨getMap, generator, startup⟩, hmap, h⟩
  dsimp only at h
  split at h
  next haccepted =>
    rcases Outcome.bind_eq_ok.mp h with ⟨servers, -, h⟩
    rw [haccepted.2.2.1] at hmap
    cases h
    exact hmap
  next => cases h

def RegistersRoot (config : NginxConfig) : Prop :=
  ∃ statement ∈ config, Registers statement (Bytes.lit "/")

variable {ω : Type}

/--
The sessions of a server that has been started find a handler for everything exactly if its config has the
root among its locations.
-/
theorem alwaysDispatches_iff {starts : Nat → Bool} {config : NginxConfig} {served : Served}
    (hserves : startUp starts true config = .ok (some served)) (handlers : Handlers ω) (shared : Shared ω)
    : Session.AlwaysDispatches handlers served.generator shared ↔ RegistersRoot config := by
  have hmap := getMap_of_startUp hserves
  rcases RequestHandlerGenerator.registered_getMap hmap with ⟨allocated, hregistered⟩
  rw [Session.alwaysDispatches_iff_root handlers hregistered,
    RequestHandlerGenerator.mem_keys_getMap hmap, RegistersRoot]

def echoServer (path : String) : NginxConfig :=
  [⟨[Bytes.lit "listen", Bytes.lit "https", Bytes.lit "443"], none⟩,
    ⟨[Bytes.lit "location", Bytes.lit ("\"" ++ path ++ "\""), Bytes.lit "EchoHandler"], some []⟩]

theorem alwaysDispatches_echo
    : ∃ served, startUp (fun _ => true) true (echoServer "/") = .ok (some served)
        ∧ Session.AlwaysDispatches refuseAll served.generator { world := () } := by
  have hserves : (startUp (fun _ => true) true (echoServer "/")).Yields
      (fun served => served.isSome = true) := by
    decide +kernel
  rcases hserves with ⟨served, hserves, hsome⟩
  rcases Option.isSome_iff_exists.mp hsome with ⟨served, rfl⟩
  refine ⟨served, hserves, (alwaysDispatches_iff hserves refuseAll { world := () }).mpr ?_⟩
  exact ⟨_, List.mem_cons_of_mem _ List.mem_cons_self, .inr rfl, _, rfl, rfl⟩

/--
With `/static` as the only location, the lookup for `/` creates a null entry, and it is called.
-/
theorem null_dispatched
    : ¬∀ (starts : Nat → Bool) (input : Bytes) (config : NginxConfig) (served : Served)
        (handlers : Handlers Unit) (shared : Shared Unit),
        NginxConfigParser.parse input [] = some (.ok (true, config)) →
        startUp starts true config = .ok (some served) →
        Session.AlwaysDispatches handlers served.generator shared := by
  intro h
  have hserves : (startUp (fun _ => true) true (echoServer "/static")).Yields
      (fun served => served.any (fun s => Bytes.lit "/" ∉ s.generator.map.keys) = true) := by
    decide +kernel
  rcases hserves with ⟨served, hserves, hroot⟩
  cases served with
  | none => cases hroot
  | some served =>
    have hdispatches := h (fun _ => true)
      (Bytes.lit "listen https 443; location \"/static\" EchoHandler \x7b \x7d")
      (echoServer "/static") served refuseAll { world := () } rfl hserves
    rcases RequestHandlerGenerator.registered_getMap (getMap_of_startUp hserves) with ⟨allocated, hregistered⟩
    simp only [Option.any_some, decide_eq_true_eq] at hroot
    exact hroot ((Session.alwaysDispatches_iff_root refuseAll hregistered).mp hdispatches)

end Foxy
