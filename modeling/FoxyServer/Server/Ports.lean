import FoxyServer.Server.Listens
import FoxyServer.Server.Safety

/-!
This module contains the ports that the servers of a config bind. The number read from the config is an `int`,
the constructors take a `short`, and the endpoint they make of it has an unsigned port of 16 bits.
-/

namespace Foxy

/-- The port of the endpoint that the constructors of `Server` and `HttpServer` give to their acceptors. -/
def endpointPort (port : Int) : UInt16 :=
  (Int16.ofInt port).toUInt16

def PortServer.endpointPort (server : PortServer) : UInt16 :=
  match server with
  | .https port _ _ => Foxy.endpointPort port
  | .http port _ _ => Foxy.endpointPort port

theorem toNat_endpointPort (port : Int) : (endpointPort port).toNat = (port % 65536).toNat := by
  rw [endpointPort, ← UInt16.toNat_toBitVec]
  simp

theorem toNat_endpointPort_eq_iff (number : Nat) : (endpointPort number).toNat = number ↔ number ≤ 65535 := by
  rw [toNat_endpointPort]
  omega

/-! ## The servers of a config -/

theorem createServers_ports {starts : Nat → Bool} {generator : RequestHandlerGenerator} {threads : Int}
    {hostname : Bytes} {number : Nat} {portTypes : List (Int × Bytes)} {servers : List PortServer}
    (htypes : ∀ portType ∈ portTypes, portType.2 = Bytes.lit "https" ∨ portType.2 = Bytes.lit "http")
    (h : createServers starts generator threads hostname number portTypes = .ok servers)
    : servers.map (·.endpointPort) = portTypes.map (fun portType => endpointPort portType.1) := by
  induction portTypes generalizing number servers with
  | nil =>
    rw [createServers, Outcome.ok.injEq] at h
    rw [← h]
    rfl
  | cons portType portTypes ih =>
    rcases portType with ⟨port, type⟩
    rw [List.forall_mem_cons] at htypes
    rcases htypes with ⟨htype, htypes⟩
    rw [createServers] at h
    rcases Outcome.bind_eq_ok.mp h with ⟨server, hserver, h⟩
    rcases Outcome.bind_eq_ok.mp h with ⟨servers', hservers, h⟩
    rw [Outcome.pure_eq_ok, Outcome.ok.injEq] at h
    have hport : server.map (·.endpointPort) = [endpointPort port] := by
      split_ifs at hserver with hhttps hstarts hhttp hempty hstarts
      . rw [Outcome.ok.injEq] at hserver
        rw [← hserver]
        rfl
      . rw [Outcome.ok.injEq] at hserver
        rw [← hserver]
        rfl
      . exact absurd htype (not_or.mpr ⟨hhttps, hhttp⟩)
    rw [← h, List.map_append, hport, ih htypes hservers]
    rfl

theorem startUp_ports {starts : Nat → Bool} {config : NginxConfig} {portTypes : List (Int × Bytes)}
    {served : Served} (hport : config.getPort [] = .ok (true, portTypes))
    (htypes : ∀ portType ∈ portTypes, portType.2 = Bytes.lit "https" ∨ portType.2 = Bytes.lit "http")
    (h : startUp starts true config = .ok (some served))
    : served.servers.map (·.endpointPort) = portTypes.map (fun portType => endpointPort portType.1) := by
  rw [startUp, hport, Outcome.ok_bind] at h
  rcases Outcome.bind_eq_ok.mp h with ⟨⟨getDir, dir⟩, -, h⟩
  rcases Outcome.bind_eq_ok.mp h with ⟨⟨getThreads, threads⟩, -, h⟩
  rcases Outcome.bind_eq_ok.mp h with ⟨⟨getHostname, hostname⟩, -, h⟩
  rcases Outcome.bind_eq_ok.mp h with ⟨⟨getMap, generator, startup⟩, -, h⟩
  dsimp only at h
  split at h
  . rcases Outcome.bind_eq_ok.mp h with ⟨servers, hservers, h⟩
    rw [Outcome.pure_eq_ok, Outcome.ok.injEq, Option.some.injEq] at h
    rw [← h]
    exact createServers_ports htypes hservers
  . cases h

/-! ## The numbers that are written -/

theorem listenPort_eq_some {tokens : List Bytes} {written : Bytes × Bytes}
    (h : listenPort? tokens = some written)
    : tokens = [Bytes.lit "listen", written.1, written.2]
        ∧ (written.1 = Bytes.lit "https" ∨ written.1 = Bytes.lit "http") := by
  unfold listenPort? at h
  split at h
  . split_ifs at h with hlisten
    rw [Option.some.injEq] at h
    rw [← h, hlisten.1]
    exact ⟨rfl, hlisten.2.1⟩
  . cases h

theorem type_of_written {config : NginxConfig} {written : Bytes × Bytes} (h : written ∈ config.written)
    : written.1 = Bytes.lit "https" ∨ written.1 = Bytes.lit "http" := by
  rcases List.mem_filterMap.mp h with ⟨tokens, -, hport⟩
  exact (listenPort_eq_some hport).2

/--
For a config that passes the checks of the startup, the servers bind the ports that its listen statements say,
if and only if none of the numbers there is greater than 65535.
-/
theorem ports_bound_iff {config : NginxConfig} {portTypes : List (Int × Bytes)}
    (h : Accepted config portTypes)
    : config.written.Sublist config.ports
        ∧ (∀ starts served, startUp starts true config = .ok (some served) →
            served.servers.map (·.endpointPort) = portTypes.map (fun portType => endpointPort portType.1))
        ∧ (portTypes.map (fun portType => (endpointPort portType.1).toNat)
              = config.written.map (fun written => Bytes.decimalValue written.2)
            ↔ ∀ written ∈ config.written, Bytes.decimalValue written.2 ≤ 65535) := by
  have hports : portTypes = config.written.map writtenPort := by
    have hcollects := GetPort.getPort_eq config (GetPort.not_stops_of_getPort ⟨_, h.port⟩) []
    rw [h.port, Outcome.ok.injEq, Prod.mk.injEq, List.nil_append] at hcollects
    exact hcollects.2
  refine ⟨written_sublist config, fun starts served hserves => ?_, ?_⟩
  . apply startUp_ports h.port _ hserves
    rw [hports]
    intro portType hmem
    rcases List.mem_map.mp hmem with ⟨written, hwritten, rfl⟩
    exact type_of_written hwritten
  . rw [hports, List.map_map, List.map_inj_left]
    apply forall_congr'
    intro written
    apply imp_congr_right
    intro _
    exact toNat_endpointPort_eq_iff _

def httpsServer (port : String) : NginxConfig :=
  [⟨[Bytes.lit "listen", Bytes.lit "https", Bytes.lit port], none⟩,
    ⟨[Bytes.lit "location", Bytes.lit "\"/\"", Bytes.lit "EchoHandler"], some []⟩]

theorem ports_bound_https
    : [(40000, Bytes.lit "https")].map (fun portType : Int × Bytes => (endpointPort portType.1).toNat)
        =
      [40000] := by
  have haccepted : Accepted (httpsServer "40000") [(40000, Bytes.lit "https")] := by
    refine ⟨by decide, by decide, by decide, by decide, by decide +kernel⟩
  exact (ports_bound_iff haccepted).2.2.mpr (by decide)

/-- The number does not fit 16 bits, and the server binds port 80. -/
theorem ports_wrapped
    : Accepted (httpsServer "65616") [(65616, Bytes.lit "https")]
        ∧ (httpsServer "65616").written = [(Bytes.lit "https", Bytes.lit "65616")]
        ∧ (startUp (fun _ => true) true (httpsServer "65616")).Yields
            (fun served => served.any (fun s => s.servers.map (·.endpointPort) = [80]) = true) := by
  refine ⟨⟨by decide, by decide, by decide, by decide, by decide +kernel⟩, by decide, by decide +kernel⟩

end Foxy
