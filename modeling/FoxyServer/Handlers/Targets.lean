import FoxyServer.Handlers.Forwarding
import FoxyServer.Handlers.Registries
import FoxyServer.Handlers.Translation

/-!
This module contains which target the proxy forwards a uri under: it takes a number of bytes off the uri
without looking at them, and when these are its location.
-/

namespace Foxy

theorem RawRequest.render_inj {method : Request.MethodEnum} {uri uri' version : Bytes}
    {headers : List (Bytes × Bytes)} {body : Bytes}
    (h : render method uri version headers body = render method uri' version headers body) : uri = uri' := by
  simp only [render, lines, Bytes.unlines_cons, requestLine, List.append_assoc] at h
  exact List.append_cancel_right (List.append_cancel_left (List.append_cancel_left h))

/-! ## The location of a proxy -/

namespace RequestHandlerGenerator

theorem path_of_createHandler {path method : Bytes} {config : NginxConfig} {startup startup' : Startup}
    {rh : HandlerPtr} {handler : ProxyRequestHandler}
    (h : createHandler path method config startup = .ok (some rh, startup'))
    (hproxy : rh.object = .proxy handler) : handler.path = path := by
  rcases createHandler_eq_some h with ⟨-, -, hbuilds⟩
  rw [hproxy] at hbuilds
  cases hbuilds with
  | proxy hinit => exact (ProxyRequestHandler.init_eq_some hinit).1

def KnowsLocation (generator : RequestHandlerGenerator) : Prop :=
  ∀ path ptr handler, generator.map.find? path = some (some ptr) → ptr.object = .proxy handler →
    handler.path = path

theorem KnowsLocation.insert {generator : RequestHandlerGenerator} {path : Bytes} {rh : HandlerPtr}
    (h : KnowsLocation generator) (hrh : ∀ handler, rh.object = .proxy handler → handler.path = path)
    : KnowsLocation { generator with map := generator.map.insert path (some rh) } := by
  intro path' ptr handler hfind hproxy
  rcases OrdMap.find?_insert_eq_some hfind with hfind | ⟨rfl, hptr⟩
  . exact h path' ptr handler hfind hproxy
  . exact hrh handler (Option.some.inj hptr ▸ hproxy)

theorem knowsLocation_getMapFrom {generator generator' : RequestHandlerGenerator}
    {startup startup' : Startup} {config : NginxConfig} {accepted : Bool} (h : KnowsLocation generator)
    (hmap : getMapFrom generator startup config = .ok (accepted, generator', startup'))
    : KnowsLocation generator' := by
  have hinsert {generator : RequestHandlerGenerator} {startup startup1 : Startup}
      {statement : NginxConfigStatement} {path : Bytes} {rh : HandlerPtr} (h : KnowsLocation generator)
      (hcreates : Creates statement path startup startup1 rh)
      : KnowsLocation { generator with map := generator.map.insert path (some rh) } := by
    rcases hcreates.handler with ⟨method, block, -, -, hcreate⟩
    exact h.insert fun _ => path_of_createHandler hcreate
  rcases @getMapFrom_keeps (fun generator _ => KnowsLocation generator) config (fun _ => hinsert) _ _ _ _ _ h
    hmap with ⟨-, h⟩
  exact h

theorem path_ne_nil_of_dispatchHandler {config : NginxConfig} {startup startup' : Startup}
    {generator : RequestHandlerGenerator} {uri : Bytes} {ptr : HandlerPtr} {handler : ProxyRequestHandler}
    (hmap : getMap {} config startup = .ok (true, generator, startup'))
    (hroute : (generator.dispatchHandler uri).1 = some ptr) (hproxy : ptr.object = .proxy handler)
    : handler.path ≠ [] := by
  have hfind := find?_of_dispatchHandler hroute
  have hknows : KnowsLocation generator := knowsLocation_getMapFrom (by simp [KnowsLocation]) hmap
  rw [hknows _ _ _ hfind hproxy]
  rcases (mem_keys_getMap hmap).mp (OrdMap.mem_keys_iff.mpr ⟨_, hfind⟩) with ⟨_, -, _, token, -, hquoted⟩
  intro hnil
  have hlast := utility.getLast?_of_isQuoted hquoted
  rw [hnil] at hlast
  cases hlast

end RequestHandlerGenerator

namespace ProxyRequestHandler

open RequestHandlerGenerator

/-! ## The target -/

/--
The request is forwarded, and its target begins with a slash and has the components that the uri has behind
those of the location.
-/
def ForwardsBelow (handler : ProxyRequestHandler) (uri : Bytes) : Prop :=
  ∀ request : Request, request.uri = uri →
    ∃ target, handler.convertToRawbody request false
        = .ok (RawRequest.render request.method target (Bytes.lit "1.0") (forwardedHeaders request)
            request.body)
      ∧ target.head? = some '/'.toUInt8
      ∧ components uri = components (Bytes.cStr handler.path) ++ components target

def CutsLocation (handler : ProxyRequestHandler) (uri : Bytes) : Prop :=
  handler.path.length ≤ uri.length + 1
    ∧ components (uri.take (handler.path.length - 1)) = components (Bytes.cStr handler.path)
    ∧ Parts.CleanCut (· = '/'.toUInt8) (uri.take (handler.path.length - 1))
        (uri.drop (handler.path.length - 1))

instance (handler : ProxyRequestHandler) (uri : Bytes) : Decidable (handler.CutsLocation uri) :=
  inferInstanceAs (Decidable (_ ∧ _))

theorem head?_forwardedUri (handler : ProxyRequestHandler) (uri : Bytes)
    : (handler.forwardedUri uri).head? = some '/'.toUInt8 := by
  simp only [forwardedUri]
  split
  . rfl
  next h => exact not_not.mp h

theorem components_forwardedUri (handler : ProxyRequestHandler) (uri : Bytes)
    : components (handler.forwardedUri uri) = components (uri.drop (handler.path.length - 1)) := by
  simp only [forwardedUri]
  split
  . exact components_slash _
  . rfl

theorem forwardsBelow_iff_components {handler : ProxyRequestHandler} (hpath : handler.path ≠ [])
    {uri : Bytes}
    : handler.ForwardsBelow uri
        ↔
      handler.path.length ≤ uri.length + 1
        ∧ components uri
            = components (Bytes.cStr handler.path) ++ components (uri.drop (handler.path.length - 1)) := by
  rw [← components_forwardedUri]
  constructor
  . intro h
    rcases h { uri } rfl with ⟨target, hraw, -, hcomponents⟩
    rcases convertToRawbody_eq_ok.mp hraw with ⟨hlength, hrender⟩
    rw [RawRequest.render_inj hrender] at hcomponents
    exact ⟨hlength.2, hcomponents⟩
  . rintro ⟨hlength, hcomponents⟩ request rfl
    exact ⟨_, convertToRawbody_eq_ok.mpr ⟨⟨hpath, hlength⟩, rfl⟩, head?_forwardedUri handler request.uri,
      hcomponents⟩

/--
A uri that is dispatched to a proxy is forwarded under what is below the location exactly if the bytes that
are taken off it are the location.
-/
theorem forwardsBelow_iff {config : NginxConfig} {startup startup' : Startup}
    {generator : RequestHandlerGenerator} {uri : Bytes} {ptr : HandlerPtr} {handler : ProxyRequestHandler}
    (hmap : getMap {} config startup = .ok (true, generator, startup'))
    (hroute : (generator.dispatchHandler uri).1 = some ptr) (hproxy : ptr.object = .proxy handler)
    : handler.ForwardsBelow uri ↔ handler.CutsLocation uri := by
  have hcut := @Parts.parts_append_iff _ (· = '/'.toUInt8) (uri.take (handler.path.length - 1))
    (uri.drop (handler.path.length - 1)) (components (Bytes.cStr handler.path))
  rw [List.take_append_drop, ← components_eq_parts, ← components_eq_parts, ← components_eq_parts] at hcut
  rw [forwardsBelow_iff_components (path_ne_nil_of_dispatchHandler hmap hroute hproxy), hcut, CutsLocation]
  exact and_congr_right fun _ => and_comm

/-! ## A proxy below `/foxy/` -/

def forwardTo (path : String) : NginxConfig :=
  [⟨[Bytes.lit "location", Bytes.lit ("\"" ++ path ++ "\""), Bytes.lit "ProxyHandler"],
    some [⟨[Bytes.lit "host", Bytes.lit "\"host\""], none⟩, ⟨[Bytes.lit "port", Bytes.lit "80"], none⟩]⟩]

theorem forwardsBelow_foxy : foxyProxy.ForwardsBelow (Bytes.lit "/foxy/a") := by
  have hmap : getMap {} (forwardTo "/foxy/") {}
      = .ok (true, (registeredBy (forwardTo "/foxy/")).1, (registeredBy (forwardTo "/foxy/")).2) := by
    rfl
  have hroute : ((registeredBy (forwardTo "/foxy/")).1.dispatchHandler (Bytes.lit "/foxy/a")).1
      = some ⟨0, .proxy foxyProxy⟩ := by
    decide +kernel
  exact (forwardsBelow_iff hmap hroute rfl).mpr (by decide +kernel)

/--
Without its first slash a uri that is shorter than the location is dispatched to the proxy all the same, and
taking the location off it throws.
-/
theorem forwardsBelow_foxy_relative
    : (∀ b ∈ Bytes.lit "foxy", Grammar.UriChar b)
        ∧ getMap {} (forwardTo "/foxy/") {}
            = .ok (true, (registeredBy (forwardTo "/foxy/")).1, (registeredBy (forwardTo "/foxy/")).2)
        ∧ ((registeredBy (forwardTo "/foxy/")).1.dispatchHandler (Bytes.lit "foxy")).1
            = some ⟨0, .proxy foxyProxy⟩
        ∧ foxyProxy.convertToRawbody { uri := Bytes.lit "foxy" } false = .throws .outOfRange
        ∧ ¬foxyProxy.ForwardsBelow (Bytes.lit "foxy") := by
  have hthrows : foxyProxy.convertToRawbody { uri := Bytes.lit "foxy" } false = .throws .outOfRange := by
    decide +kernel
  refine ⟨by decide +kernel, rfl, by decide +kernel, hthrows, ?_⟩
  intro h
  rcases h { uri := Bytes.lit "foxy" } rfl with ⟨target, hraw, -⟩
  rw [hthrows] at hraw
  cases hraw

end ProxyRequestHandler

end Foxy
