import FoxyServer.Server.Restarts
import FoxyServer.Server.Sites
import FoxyServer.Session.Fetching

/-!
This module contains the way of a file from the disk to a client, from the config on: `main` reads the config of a
site and serves it, and whoever asks for files of the site gets them.
-/

namespace Foxy

def ServingEvent.completion? (index : Nat) : ServingEvent → Option Completion
  | .complete number completion => if number = index then some completion else none
  | .accept _ _ _ => none

namespace Serving

variable {outside : Nat → Outside} {servers : List PortServer} {index : Nat}

def shownTo (outside : Nat → Outside) (index : Nat) : Machine Serving ServingEvent Action :=
  (machine outside).only fun event => (event.completion? index).isSome

theorem Tells.completion? {event : ServingEvent} {told : List Event} (h : Tells servers event told)
    : told.filterMap (Event.completion? index) = [event].filterMap (ServingEvent.completion? index) := by
  cases h <;> rfl

theorem shownTo_tells {serving serving' : Serving} {event : ServingEvent} {shown : List Action}
    (h : serving.Accepts servers) (hstep : (shownTo outside index).step serving event = .ok (serving', shown))
    : ∃ told, told.filterMap (Event.completion? index) = [event].filterMap (ServingEvent.completion? index)
        ∧ (Process.shownTo outside index).run serving.process told = .ok (serving'.process, shown)
        ∧ serving'.Accepts servers := by
  rcases Machine.only_step_eq_ok.mp hstep with ⟨actions, hmachine, rfl⟩
  rcases step_tells h hmachine with ⟨haccepts, told, htells, htold⟩
  refine ⟨told, htells.completion?, ?_, haccepts⟩
  have hshown : ∀ {event' : Event}, (event'.completion? index).isSome = (event.completion? index).isSome →
      (Process.machine outside).run serving.process [event'] = .ok (serving'.process, actions) →
      (Process.shownTo outside index).run serving.process [event']
        = .ok (serving'.process, if (event.completion? index).isSome then actions else []) := by
    intro event' hsame hrun
    rw [Machine.run_singleton] at hrun ⊢
    rw [← hsame]
    exact Machine.only_step_eq_ok.mpr ⟨actions, hrun, rfl⟩
  have hnobody : event.completion? index = none →
      (Process.machine outside).run serving.process [] = .ok (serving'.process, actions) →
      (Process.shownTo outside index).run serving.process []
        = .ok (serving'.process, if (event.completion? index).isSome then actions else []) := by
    intro hnone hrun
    rw [Machine.run_nil, Outcome.ok.injEq, Prod.mk.injEq] at hrun
    rw [Machine.run_nil, hrun.1, hnone, Option.isSome_none, if_neg (by decide)]
  cases htells with
  | complete number completion => exact hshown rfl htold
  | https memory used hserver => exact hshown rfl htold
  | http memory used hserver => exact hshown rfl htold
  | failed number memory => exact hnobody rfl htold
  | nobody error memory hserver => exact hnobody rfl htold

theorem run_shownTo {serving serving' : Serving} {events : List ServingEvent} {shown : List Action}
    (h : serving.Accepts servers) (hrun : (shownTo outside index).run serving events = .ok (serving', shown))
    : ∃ told, told.filterMap (Event.completion? index) = events.filterMap (ServingEvent.completion? index)
        ∧ (Process.shownTo outside index).run serving.process told = .ok (serving'.process, shown) := by
  have hfollows : ∀ {serving process event serving' shown},
      serving.Accepts servers ∧ serving.process = process →
      (shownTo outside index).step serving event = .ok (serving', shown) →
      ∃ process' told,
        told.filterMap (Event.completion? index) = [event].filterMap (ServingEvent.completion? index)
          ∧ (Process.shownTo outside index).run process told = .ok (process', shown)
          ∧ serving'.Accepts servers ∧ serving'.process = process' := by
    rintro serving process event serving' shown ⟨haccepts, rfl⟩ hstep
    rcases shownTo_tells haccepts hstep with ⟨told, hsame, htold, haccepts'⟩
    exact ⟨_, told, hsame, htold, haccepts', rfl⟩
  rcases Machine.run_follows (m := shownTo outside index)
    (R := fun serving process => serving.Accepts servers ∧ serving.process = process)
    (fun hR hstep => hfollows hR hstep) ⟨h, rfl⟩ hrun with ⟨process', told, htold, hrun', -, rfl⟩
  refine ⟨told.flatten, ?_, hrun'⟩
  clear hrun hrun'
  induction htold with
  | nil => rfl
  | @cons event events told later hsame _ ih =>
    rw [List.flatten_cons, List.filterMap_append, hsame, ih, ← List.filterMap_append, List.singleton_append]

end Serving

namespace Site

open Serving

def Offers (site : Site) {files : FileSystem} (fetch : Fetch files) : Prop :=
  ∃ directory, site.Routes fetch.request.uri directory ∧ fetch.handler = handler directory

/--
Given the config of a site, `main` serves it on its ports. From then on, whatever the other clients do, a client
whose session waits for a request and who asks for files of the site, each when the one before has arrived, reads
their contents, one after another and nothing else, in whatever pieces the bytes arrive.
-/
theorem main_serves (site : Site) (env : StartEnv) (hstarts : ∀ number, env.starts number = true)
    (table : AuthTable) (outside : Nat → Outside) (files : FileSystem)
    (hfiles : ∀ n, (outside n).login.files = files)
    : ∃ config table' serving, NginxConfigParser.parse site.text [] = some (.ok (true, config))
        ∧ main env true config table = .ok (table', some serving)
        ∧ serving.acceptors.map (fun acceptor => acceptor.server.endpointPort.toNat) = site.ports
        ∧ ∀ (before during : List ServingEvent) (serving1 serving2 : Serving) (actions shown : List Action)
            (index : Nat) (conn : Connection RequestHandlerGenerator) (fetches : List (Fetch files))
            (pieces : List Bytes),
            (Serving.machine outside).run serving before = .ok (serving1, actions) →
            serving1.process.sessions[index]? = some (.https conn) → conn.Ready →
            (∀ fetch ∈ fetches, site.Offers fetch) →
            during.filterMap (ServingEvent.completion? index) = fetches.flatMap Fetch.completions →
            (shownTo outside index).run serving1 during = .ok (serving2, shown) →
            pieces.flatten = sent shown →
            Reply.framing.receiver.run [] pieces
              = .ok ([], fetches.map fun fetch => Reply.ofResponse fetch.response) := by
  rcases site.startUp_config hstarts with ⟨served, hstart, hservers, hserves, hkeys⟩
  refine ⟨site.config, _, _, site.parse_text, main_eq_some_iff.mpr ⟨served, hstart, rfl, rfl⟩, ?_, ?_⟩
  . have hports := (accepts_create served.servers env.memory
      { shared := { collector := served.startup.collector, world := { table := insertMockUsers env table } } }).1
    have hbound : ∀ port ∈ site.ports, (endpointPort port).toNat = port :=
      fun port hport => (toNat_endpointPort_eq_iff port).mpr (site.ports_le port hport)
    have hmap := congrArg (List.map fun server => server.endpointPort.toNat) (hports.trans hservers)
    rw [List.map_map, List.map_map] at hmap
    exact hmap.trans ((List.map_congr_left hbound).trans (List.map_id _))
  . intro before during serving1 serving2 actions shown index conn fetches pieces hbefore hsession hready hoffers
      hduring hrun hpieces
    have hgenerator : ∀ server ∈ served.servers, ∀ memory,
        HasGenerator served.generator (server.newSession memory).start := by
      rw [hservers]
      intro server hserver memory
      rcases List.mem_map.mp hserver with ⟨port, -, rfl⟩
      rfl
    -- whatever has happened, the session has the handlers of the site, and its client is served by it alone
    rcases run_hasGenerator hgenerator rfl hbefore with ⟨haccepts, hsessions⟩
    rcases run_shownTo haccepts hrun with ⟨told, htold, hrun⟩
    have hrouted : ∀ fetch ∈ fetches, fetch.RoutedBy served.generator := by
      intro fetch hfetch
      rcases hoffers fetch hfetch with ⟨directory, hroutes, hhandler⟩
      rw [Fetch.RoutedBy, hhandler]
      exact dispatchHandler_of_routes hroutes (hserves directory hroutes.1) hkeys
    exact Process.receive_fetches (Process.written_of_fetches hfiles hsession hready
      (hsessions _ (List.mem_of_getElem? hsession)) hrouted (htold.trans hduring) hrun) hpieces

def siteForTest : Site where
  ports := [443]
  directories := [(Bytes.lit "/static/", Bytes.lit "./data")]
  ports_ne := by decide
  ports_le := by decide
  quotable := by decide +kernel
  distinct := by decide +kernel

def servedForTest : Served :=
  match startUp (fun _ => true) true siteForTest.config with
  | .ok (some served) => served
  | _ => ⟨[], [], {}, {}, []⟩

theorem startUp_siteForTest : startUp (fun _ => true) true siteForTest.config = .ok (some servedForTest) := by
  have hserves : (startUp (fun _ => true) true siteForTest.config).Yields
      (fun served => served.isSome = true) := by
    decide +kernel
  rcases hserves with ⟨served, hserves, hsome⟩
  rcases Option.isSome_iff_exists.mp hsome with ⟨served, rfl⟩
  rw [servedForTest, hserves]

def envForTest : StartEnv where
  sqlite := .reliable
  hashAdmin := id
  hashFoxy := id

def processForTest (sessions : List AnySession) : Process where
  sessions
  shared :=
    { collector := servedForTest.startup.collector
      world := { table := insertMockUsers envForTest .empty } }

def visitForTest : List ServingEvent :=
  Process.fetchForTest.completions.map (.complete 0) ++ .accept 0 false {}
    :: Process.fetchForTest.completions.map (.complete 0)

theorem main_serves_twice
    : ∃ table serving serving1 serving2 shown,
        main envForTest true siteForTest.config .empty = .ok (table, some serving)
          ∧ (Serving.machine (filesOnly Process.filesForTest)).run serving
              [.accept 0 false {}, .complete 0 {}] = .ok (serving1, [])
          ∧ (shownTo (filesOnly Process.filesForTest) 0).run serving1 visitForTest
              = .ok (serving2, shown)
          ∧ Reply.framing.receiver.run [] [(sent shown).take 30, (sent shown).drop 30]
              = .ok ([], [Reply.ofResponse Process.fetchForTest.response,
                  Reply.ofResponse Process.fetchForTest.response]) := by
  rcases main_serves siteForTest envForTest (fun _ => rfl) .empty (filesOnly Process.filesForTest)
    Process.filesForTest (fun _ => rfl) with ⟨config, table, serving, hparse, hmain, -, hserve⟩
  rw [siteForTest.parse_text] at hparse
  cases hparse
  rcases main_eq_some_iff.mp hmain with ⟨served, hstart, rfl, rfl⟩
  rw [show envForTest.starts = fun _ => true from rfl, startUp_siteForTest] at hstart
  cases hstart
  have hservers : servedForTest.servers = [.https 443 servedForTest.generator 4] := rfl
  have hbefore : (Serving.machine (filesOnly Process.filesForTest)).run
      (Serving.create servedForTest.servers envForTest.memory (processForTest []))
      [.accept 0 false {}, .complete 0 {}]
        = .ok ({ acceptors := [Acceptor.startAccept ⟨.https 443 servedForTest.generator 4, []⟩ {}]
                 process := processForTest [.https (Session.opened .zeroed .zeroed [] servedForTest.generator)] },
            []) := by
    rw [hservers]
    rfl
  have hrun : ((shownTo (filesOnly Process.filesForTest) 0).run
      { acceptors := [Acceptor.startAccept ⟨.https 443 servedForTest.generator 4, []⟩ {}]
        process := processForTest [.https (Session.opened .zeroed .zeroed [] servedForTest.generator)] }
      visitForTest).Returns := by
    decide +kernel
  rcases hrun with ⟨⟨serving2, shown⟩, hrun⟩
  have hpieces : [(sent shown).take 30, (sent shown).drop 30].flatten = sent shown := by
    simp [List.take_append_drop]
  have hoffers : ∀ fetch ∈ [Process.fetchForTest, Process.fetchForTest], siteForTest.Offers fetch := by
    have hone : siteForTest.Offers Process.fetchForTest :=
      ⟨(Bytes.lit "/static/", Bytes.lit "./data"), by decide +kernel, by decide +kernel⟩
    simpa using hone
  have hready : (Session.opened .zeroed .zeroed [] servedForTest.generator).Ready := ⟨rfl, rfl, rfl⟩
  exact ⟨_, _, _, serving2, shown, hmain, hbefore, hrun, hserve _ _ _ serving2 _ shown 0 _
    [Process.fetchForTest, Process.fetchForTest] _ hbefore rfl hready hoffers rfl hrun hpieces⟩

end Site

end Foxy
