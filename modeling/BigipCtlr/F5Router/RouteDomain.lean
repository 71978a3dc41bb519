import BigipCtlr.F5Router.Tier2Laws
import BigipCtlr.Go.NetLaws

/-!
# Addresses with a route domain

`splitIPWithRouteDomain` takes `ip%rd` apart, but `verifyDestAddress` asks
`net.ParseIP` about the whole text, which knows no route domains.
-/

namespace BigipCtlr

open Go

def withRouteDomain (ip rd : Str) : Str := if rd = [] then ip else ip ++ '%' :: rd

/-- The destination that BIG-IP expects: an IPv6 text has its port behind a
dot. -/
def routeDomainDestination (partition ip rd : Str) (port : Int32) : Str :=
  ('/' :: partition ++ '/' :: withRouteDomain ip rd) ++ (if ':' ∈ ip then '.' else ':') ::
    itoa port.toInt

theorem percent_notMem (h : (parseIP ip).isSome = true) : '%' ∉ ip := by
  intro hmem
  obtain ⟨addr, haddr⟩ := Option.isSome_iff_exists.mp h
  exact absurd (parseIP_chars haddr '%' hmem) (by decide)

theorem splitIPWithRouteDomain_eq (h : '%' ∉ ip) (hrd : rd.all Char.isDigit = true) :
    splitIPWithRouteDomain (withRouteDomain ip rd) = (ip, rd) := by
  by_cases hnil : rd = []
  · rw [withRouteDomain, if_pos hnil, splitIPWithRouteDomain, splitN2_of_notMem h, hnil]
  · rw [withRouteDomain, if_neg hnil, splitIPWithRouteDomain, splitN2_append h]
    exact if_pos ⟨hnil, hrd⟩

theorem to4_isSome_of_notMem (h : parseIP ip = some addr) (hcolon : ':' ∉ ip) :
    addr.to4.isSome = true := by
  rw [parseIP] at h
  split at h
  · cases h
  · next c hc =>
    have hmem := List.mem_of_find?_eq_some hc
    have hdot : c = '.' := by
      have hsep := List.find?_some hc
      simp only [Bool.or_eq_true, beq_iff_eq] at hsep
      exact hsep.resolve_right fun he => hcolon (he ▸ hmem)
    rw [if_pos hdot] at h
    simp only [parseIPv4, bind, Option.bind_eq_some_iff] at h
    obtain ⟨a, -, b, -, c, -, d, -, h⟩ := h
    split at h
    · cases h
      rfl
    · cases h

theorem verifyDestAddress_eq_error (h : parseIP va.bindAddr = none) (p : Str) :
    verifyDestAddress va p = .error ("invalid address: ".toList ++ va.bindAddr) := by
  simp only [verifyDestAddress, h]

/-- Without a route domain only the separator can be wrong: an IPv4 address can
be written like an IPv6 one. -/
theorem verifyDestAddress_eq_ok_iff (h : parseIP ip = some addr) (port : Int32) (p : Str) :
    verifyDestAddress ⟨ip, port⟩ p = .ok (routeDomainDestination p ip [] port) ↔
      (':' ∈ ip → addr.to4 = none) := by
  rw [verifyDestAddress_eq h, routeDomainDestination, withRouteDomain, if_pos rfl, Except.ok.injEq,
    List.append_cancel_left_eq, List.cons.injEq, and_iff_left rfl]
  by_cases hcolon : ':' ∈ ip
  · rw [if_pos hcolon]
    cases addr.to4 <;> simp [hcolon]
  · rw [if_neg hcolon, to4_isSome_of_notMem h hcolon]
    exact iff_of_true rfl fun hmem => absurd hmem hcolon

/-- A destination is as it should be exactly for an address without a route
domain that is not an IPv4 address written like an IPv6 one. What is no address
gives an error. -/
theorem route_domain_destination_iff (ip rd partition : Str) (port : Int32)
    (hrd : rd.all Char.isDigit = true) :
    (∀ addr, parseIP ip = some addr → splitIPWithRouteDomain (withRouteDomain ip rd) = (ip, rd) ∧
      (verifyDestAddress ⟨withRouteDomain ip rd, port⟩ partition =
        .ok (routeDomainDestination partition ip rd port) ↔
        rd = [] ∧ (':' ∈ ip → addr.to4 = none))) ∧
    ∀ va : VirtualAddress, parseIP (splitIPWithRouteDomain va.bindAddr).1 = none →
      ∃ err, verifyDestAddress va partition = .error err := by
  refine ⟨fun addr haddr => ⟨?_, ?_⟩, fun va hva => ?_⟩
  · exact splitIPWithRouteDomain_eq (percent_notMem (by rw [haddr]; rfl)) hrd
  · by_cases hnil : rd = []
    · subst hnil
      rw [and_iff_right rfl]
      exact verifyDestAddress_eq_ok_iff haddr port partition
    · refine iff_of_false (fun hok => ?_) fun hr => hnil hr.1
      have hparses : (parseIP (withRouteDomain ip rd)).isSome = true := verifyDestAddress_parses hok
      refine percent_notMem hparses ?_
      rw [withRouteDomain, if_neg hnil]
      exact List.mem_append_right _ List.mem_cons_self
  · cases hparse : parseIP va.bindAddr with
    | none => exact ⟨_, verifyDestAddress_eq_error hparse partition⟩
    | some addr =>
      have hsplit : splitIPWithRouteDomain (withRouteDomain va.bindAddr []) = (va.bindAddr, []) :=
        splitIPWithRouteDomain_eq (percent_notMem (by rw [hparse]; rfl)) rfl
      rw [withRouteDomain, if_pos rfl] at hsplit
      rw [hsplit, hparse] at hva
      cases hva

theorem plain_destination : "".toList.all Char.isDigit = true ∧
    verifyDestAddress ⟨"10.0.0.1".toList, 80⟩ "cf".toList =
      .ok (routeDomainDestination "cf".toList "10.0.0.1".toList [] 80) := by
  have h := route_domain_destination_iff "10.0.0.1".toList [] "cf".toList 80 (by decide)
  exact ⟨rfl, ((h.1 (ipv4 10 0 0 1) (by decide)).2).mpr (by decide)⟩

theorem route_domain_rejected :
    splitIPWithRouteDomain "10.0.0.1%2".toList = ("10.0.0.1".toList, "2".toList) ∧
    verifyDestAddress ⟨"10.0.0.1%2".toList, 80⟩ "cf".toList =
      .error "invalid address: 10.0.0.1%2".toList ∧
    routeDomainDestination "cf".toList "10.0.0.1".toList "2".toList 80 =
      "/cf/10.0.0.1%2:80".toList := by
  decide

end BigipCtlr
