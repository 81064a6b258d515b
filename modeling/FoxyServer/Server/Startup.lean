import FoxyServer.Config.Directives
import FoxyServer.Config.Parser
import FoxyServer.Handlers.Generator

/-!
This module contains what `main` does with a config before it serves anybody: all directives are read, the
handlers are registered, and a server is created for each port.
-/

namespace Foxy

inductive PortServer where
  | https (port : Int) (generator : RequestHandlerGenerator) (threads : Int)
  | http (port : Int) (threads : Int) (hostname : Bytes)

structure Served where
  dir : Bytes
  hostname : Bytes
  generator : RequestHandlerGenerator
  startup : Startup
  servers : List PortServer

/--
The loop over the ports. Whether the server with a number can be created is up to the system, which may
refuse it the port or the certificates. Taking the last character off an empty hostname is undefined.
-/
def createServers (starts : Nat → Bool) (generator : RequestHandlerGenerator) (threads : Int)
    (hostname : Bytes) (number : Nat) : List (Int × Bytes) → Outcome (List PortServer)
  | [] => .ok []
  | (port, type) :: portTypes => do
    let server ←
      (if type = Bytes.lit "https" then
        if starts number then .ok [.https port generator threads] else .throws .systemError
      else if type = Bytes.lit "http" then
        if hostname = [] then
          .undefined
        else if starts number then
          .ok [.http port threads hostname.dropLast]
        else
          .throws .systemError
      else
        .ok [])
    let servers ← createServers starts generator threads hostname (number + 1) portTypes
    return server ++ servers

/--
`main`, from the readers of the directives on. All of them run before any of their results is looked at;
`none` is an invalid config, and an exception ends the program.
-/
def startUp (starts : Nat → Bool) (parseSuccess : Bool) (config : NginxConfig)
    : Outcome (Option Served) := do
  let (getPort, portTypes) ← config.getPort []
  let (getDir, dir) ← config.getDir []
  let (_, threads) ← config.getThreads 4
  let (getHostname, hostname) ← config.getHostname []
  let (getMap, generator, startup) ← RequestHandlerGenerator.getMap {} config {}
  if parseSuccess ∧ getPort ∧ getMap ∧ getDir ∧ getHostname then do
    let servers ← createServers starts generator threads hostname 0 portTypes
    return some { dir, hostname, generator, startup, servers }
  else
    return none

end Foxy
