import BigipCtlr.F5Router.UpdateLaws
import BigipCtlr.Registry.Registry

/-!
# Which updates can be created

`makeObjectName` cuts a URI without a wildcard at its first dot. A URI that
has neither is sliced at index -1: creating an update for it panics, and with
it the call of the registry that wanted to send the update.
-/

namespace BigipCtlr.Registry

open Go

def Nameable (uri : Uri) : Prop := '.' ∈ uri.string ∨ '*' ∈ uri.string

instance : DecidablePred Nameable := fun _ => inferInstanceAs (Decidable (_ ∨ _))

theorem newUpdate_isSome_iff (op : Operation) (uri : Uri) (ep : Option Endpoint) (planID : Str) :
    (newUpdate op uri ep planID).isSome = true ↔ uri = [] ∨ Nameable uri := by
  rw [newUpdate_returns, makeObjectName_isSome_iff]
  exact Iff.rfl

theorem updateRouter_isSome_iff (node : List Str) (op : Operation) (uri : Uri)
    (endpoint : Endpoint) :
    (updateRouter node op uri endpoint).isSome = true ↔ uri = [] ∨ Nameable uri := by
  rw [updateRouter, Option.isSome_map, newUpdate_isSome_iff]

theorem register_first_isSome_iff {r : RouteRegistry} (lower : Lower) (now : Int) (uri : Uri)
    (endpoint : Endpoint) (hlistener : r.listener = true)
    (hfirst : r.byURI.find (uri.routeKey lower) = none) :
    (r.register lower now uri endpoint).isSome = true ↔
      uri.routeKey lower = [] ∨ Nameable (uri.routeKey lower) := by
  rw [← updateRouter_isSome_iff (segments (uri.routeKey lower)) .add _ endpoint]
  simp only [RouteRegistry.register, hfirst]
  have hput : ∃ pool, (Route.newPool (r.dropletStaleThreshold / 4) (parseContextPath uri)).put
      now endpoint =
      some (pool, true) := ⟨_, rfl⟩
  obtain ⟨pool, hput⟩ := hput
  simp only [hput, RouteRegistry.updateIf, hlistener, Bool.and_self, if_true, bind,
    Option.bind_some]
  cases updateRouter (segments (uri.routeKey lower)) .add (uri.routeKey lower) endpoint <;> simp

/-- An update is created, or refused with an error, exactly for the empty URI
and those with a dot or a wildcard. -/
theorem creation_returns_iff (lower : Lower) (op : Operation) (uri : Uri)
    (ep : Option Endpoint) (planID : Str) (node : List Str) (endpoint : Endpoint) :
    ((newUpdate op uri ep planID).isSome = true ↔ uri = [] ∨ Nameable uri) ∧
      ((updateRouter node op uri endpoint).isSome = true ↔ uri = [] ∨ Nameable uri) ∧
      ∀ (r : RouteRegistry) now, r.listener = true → r.byURI.find (uri.routeKey lower) = none →
        ((r.register lower now uri endpoint).isSome = true ↔
          uri.routeKey lower = [] ∨ Nameable (uri.routeKey lower)) :=
  ⟨newUpdate_isSome_iff op uri ep planID, updateRouter_isSome_iff node op uri endpoint,
    fun _ now hlistener hfirst => register_first_isSome_iff lower now uri endpoint hlistener hfirst⟩

namespace Sample

def local8080 : Endpoint :=
  { ptr := 0, applicationId := [], address := "10.0.0.1".toList, port := 8080 }

end Sample

theorem creation_returns_iff_sample :
    Nameable "*.a".toList ∧ (newUpdate .bind "*.a".toList none "plan".toList).isSome = true ∧
      ((newRouteRegistry 10 true).register Lower.asciiOnly 0 "*.a".toList Sample.local8080).isSome =
        true := by
  obtain ⟨hnew, -, hregister⟩ :=
    creation_returns_iff Lower.asciiOnly .bind "*.a".toList none "plan".toList []
    Sample.local8080
  exact ⟨by decide, hnew.mpr (.inr (by decide)),
    (hregister (newRouteRegistry 10 true) 0 rfl rfl).mpr (.inr (by decide))⟩

/-- A host without a dot, and a lone slash, which `String` cuts off after the
check for the empty URI. -/
theorem creation_panics :
    newUpdate .add "localhost".toList (some Sample.local8080) [] = none ∧
      newUpdate .unbind "/".toList none [] = none ∧
      updateRouter ["localhost".toList] .remove "localhost".toList Sample.local8080 = none ∧
      ((newRouteRegistry 10 true).register Lower.asciiOnly 0 "localhost".toList
        Sample.local8080).isNone = true := by
  decide

end BigipCtlr.Registry
