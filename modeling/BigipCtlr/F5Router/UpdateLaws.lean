import BigipCtlr.F5Router.Tier2

/-!
# Laws of route updates

The names of route objects, the default resources of an update in closed form,
and what a plan can change of them.
-/

namespace BigipCtlr

open Go

-- ---------------------------------------------------------------------------
-- Names
-- ---------------------------------------------------------------------------

theorem makeObjectName_starts (h : makeObjectName uri = some name) : "cf-".toList <+: name := by
  simp only [makeObjectName] at h
  split at h
  · cases h
    exact List.prefix_append _ _
  · split at h
    · cases h
      exact List.prefix_append _ _
    · obtain ⟨i, -, rfl⟩ := Option.map_eq_some_iff.mp h
      rw [List.append_assoc]
      exact List.prefix_append _ _

/-- A name needs a dot to cut at, or a wildcard. -/
theorem makeObjectName_isSome_iff (uri : Str) :
    (makeObjectName uri).isSome = true ↔ '.' ∈ uri ∨ '*' ∈ uri := by
  simp only [makeObjectName]
  split
  · next h =>
    obtain ⟨rest, rfl⟩ := hasPrefix_iff.mp h
    simp
  · split
    · next h => simp [h]
    · next h =>
      rw [Option.isSome_map, index, List.isSome_idxOf?]
      simp [h]

theorem newUpdate_spec (op : Operation) (ep : Option Endpoint) (planID : Str)
    (h : makeObjectName (Uri.string uri) = some name) :
    ∃ ru, newUpdate op uri ep planID = some (.ok ru) ∧ ru.op = op ∧ ru.uri = uri ∧ ru.name = name ∧
      (op = .add ∨ op = .remove → ru.endpoint = ep) ∧
      (op = .bind ∨ op = .unbind → ru.planID = planID) := by
  have hne : uri.length ≠ 0 := by
    intro hlen
    rw [List.length_eq_zero_iff.mp hlen] at h
    exact absurd h (by simp [Uri.string, trimSuffix, hasSuffix, makeObjectName, hasPrefix, index])
  simp only [newUpdate, if_neg hne]
  split
  · next hnone =>
    rw [h] at hnone
    cases hnone
  · next n hn =>
    rw [h] at hn
    cases hn
    cases op <;> exact ⟨_, rfl, rfl, rfl, rfl, by simp, by simp⟩

/-- `NewUpdate` panics when there is no name to make. -/
theorem newUpdate_returns (op : Operation) (uri : Uri) (ep : Option Endpoint) (planID : Str) :
    (newUpdate op uri ep planID).isSome = true ↔
      uri = [] ∨ (makeObjectName uri.string).isSome = true := by
  simp only [newUpdate, List.length_eq_zero_iff]
  split
  · next h => simp [h]
  · next h =>
    split
    · next hname => simp [h, hname]
    · next name hname =>
      simp only [hname, Option.isSome_some, or_true, iff_true]
      cases op <;> rfl

theorem newUpdate_named (h : newUpdate op uri ep planID = some (.ok ru)) :
    ∃ name, makeObjectName (Uri.string uri) = some name := by
  simp only [newUpdate] at h
  split at h
  · cases h
  · split at h
    · cases h
    · next name hname => exact ⟨name, hname⟩

/-- The session is told later. -/
theorem newUpdate_withSession (h : newUpdate op uri ep planID = some (.ok ru)) :
    ru.withSession 0 = ru := by
  simp only [newUpdate] at h
  split at h
  · cases h
  · split at h
    · cases h
    · cases op <;> (cases h; rfl)

theorem newUpdate_ok (h : newUpdate op uri ep planID = some (.ok ru)) :
    ru.op = op ∧ ru.uri = uri ∧ (op = .bind ∨ op = .unbind → ru.planID = planID) := by
  obtain ⟨name, hname⟩ := newUpdate_named h
  obtain ⟨ru', hru', hop, huri, -, -, hplan⟩ := newUpdate_spec op ep planID hname
  cases h.symm.trans hru'
  exact ⟨hop, huri, hplan⟩

theorem UpdateHTTP.name_starts (ru : UpdateHTTP) : "cf-".toList <+: ru.name :=
  makeObjectName_starts ru.named

theorem UpdateHTTP.name_ne_nil (ru : UpdateHTTP) : ru.name ≠ [] := by
  intro h
  have := ru.name_starts
  rw [h, List.prefix_nil] at this
  exact absurd this (by decide)

theorem tcp_starts (s : Str) : "cf-".toList <+: "cf-tcp-route-".toList ++ s := by
  have h : "cf-tcp-route-".toList = "cf-".toList ++ "tcp-route-".toList := by decide
  simp only [h, List.append_assoc]
  exact List.prefix_append _ _

theorem UpdateTCP.name_starts (tu : UpdateTCP) : "cf-".toList <+: tu.name := by
  unfold UpdateTCP.name createTCPObjectName
  rw [List.append_assoc]
  exact tcp_starts _

theorem parseIP_name : parseIP ('c' :: 'f' :: '-' :: rest) = none := by
  have h4 : parseIPv4 ('c' :: 'f' :: '-' :: rest) = none := rfl
  have h6 : parseIPv6 ('c' :: 'f' :: '-' :: rest) = none := by
    have hx : xtoi ('c' :: 'f' :: '-' :: rest) = some (0xcf, '-' :: rest) := rfl
    rw [parseIPv6, if_neg (by simp [hasPrefix]), parseFields, hx]
    rfl
  rw [parseIP, h4, h6]
  split
  · rfl
  · split <;> rfl

/-- A name of the objects of a route is no key of `usedPorts`. -/
theorem name_ne_string {va : VirtualAddress} (hn : "cf-".toList <+: n)
    (hp : (parseIP va.bindAddr).isSome) : n ≠ va.string := by
  rintro rfl
  obtain ⟨rest, hrest⟩ := hn
  obtain ⟨bindAddr, port⟩ := va
  match bindAddr, hp with
  | [], hp => cases hp
  | [_], _ => simp [VirtualAddress.string] at hrest
  | [_, _], _ => simp [VirtualAddress.string] at hrest
  | x :: y :: z :: tail, hp =>
    simp only [VirtualAddress.string, List.cons_append] at hrest
    change 'c' :: 'f' :: '-' :: rest = _ at hrest
    simp only [List.cons.injEq] at hrest
    obtain ⟨rfl, rfl, rfl, -⟩ := hrest
    rw [parseIP_name] at hp
    cases hp

-- ---------------------------------------------------------------------------
-- Default resources
-- ---------------------------------------------------------------------------

def bigipPath (partition objName : Str) : Str :=
  if partition = [] then objName else '/' :: partition ++ '/' :: objName

theorem joinBigipPath_ok (h : objName ≠ []) :
    joinBigipPath partition objName = .ok (bigipPath partition objName) := by
  simp only [joinBigipPath, if_neg h, bigipPath]
  split <;> rfl

def defaultResources (c : Config) (name description destination address : Str) (port : UInt16) :
    RouteResources where
  virtual := {
    virtualServerName := name
    poolName := bigipPath c.partition name
    mode := "tcp".toList
    enabled := true
    destination := destination
    sourceAddress := c.bigIP.tier2IPRange
    iRules := if c.sessionPersistence then [bigipPath c.partition jsessionidIRuleName] else []
    profiles := defaultProfiles
    sourceAddrTranslation := ⟨"automap".toList⟩ }
  pool := makePool name description [⟨address, port, "user-enabled".toList⟩]
    c.bigIP.loadBalancingMode (defaultMonitorNames c)

theorem UpdateHTTP.resources_eq (hu : UpdateHTTP) (c : Config)
    (description destination address : Str) (port : UInt16) :
    hu.resources c description destination address port =
      let (address, port, description) := match hu.endpoint with
        | some ep => (ep.address, ep.port, makeDescription hu.uri.string ep.applicationId)
        | none => (address, port, description)
      if address = [] ∨ description = [] then
        .error "createResources error: missing endpoint address or description".toList
      else .ok (defaultResources c hu.name description destination address port) := by
  have hj : joinBigipPath c.partition jsessionidIRuleName =
      .ok (bigipPath c.partition jsessionidIRuleName) := joinBigipPath_ok (by decide)
  simp only [UpdateHTTP.resources, hj, joinBigipPath_ok hu.name_ne_nil, bind, Except.bind,
    pure, Except.pure, Except.map, defaultResources]
  cases c.sessionPersistence <;> cases hu.endpoint <;>
    simp only [Bool.false_eq_true, if_true, if_false]
  all_goals
    split
    · rfl
    · rfl

theorem makeDescription_ne_nil (uri appID : Str) : makeDescription uri appID ≠ [] := by
  simp only [makeDescription]
  split <;> simp

theorem createResources_ok {hu : UpdateHTTP} (h : hu.createResources c = .ok rs) :
    ∃ ep, hu.endpoint = some ep ∧ ep.address ≠ [] ∧
      rs = defaultResources c hu.name (makeDescription hu.uri.string ep.applicationId) []
        ep.address ep.port := by
  rw [UpdateHTTP.createResources, UpdateHTTP.resources_eq] at h
  cases he : hu.endpoint with
  | none => simp [he] at h
  | some ep =>
    simp only [he] at h
    split at h
    · cases h
    · next hne =>
      cases h
      exact ⟨ep, rfl, fun ha => hne (.inl ha), rfl⟩

theorem createBrokerDefaultResources_eq {hu : UpdateHTTP} (hop : hu.op = .unbind)
    (c : Config) (description destination address : Str) (port : UInt16) :
    hu.createBrokerDefaultResources c description destination address port =
      if address = [] ∨ description = [] then
        .error "createResources error: missing endpoint address or description".toList
      else .ok (defaultResources c hu.name description destination address port) := by
  rw [UpdateHTTP.createBrokerDefaultResources, UpdateHTTP.resources_eq, hu.brokered (.inr hop)]

theorem UpdateTCP.createResources_ok {tu : UpdateTCP} {c : Config}
    (h : tu.createResources c = .ok rs) :
    rs.virtual.virtualServerName = tu.name ∧ rs.pool.name = tu.name ∧
      rs.pool.members = [tu.member] ∧
      rs.monitors = [] ∧ rs.virtual.iRules = [] ∧
      rs.virtual.poolName = bigipPath c.partition tu.name := by
  have hn : tu.name ≠ [] := by
    intro h
    have := tu.name_starts
    rw [h, List.prefix_nil] at this
    exact absurd this (by decide)
  simp only [UpdateTCP.createResources, bind, joinBigipPath_ok hn] at h
  cases hd : verifyDestAddress ⟨tu.c.bigIP.externalAddr,
    Int32.ofNat tu.routePort.toNat⟩ tu.c.partition with
  | error e =>
    rw [hd] at h
    cases h
  | ok dest =>
    rw [hd] at h
    cases h
    exact ⟨rfl, rfl, rfl, rfl, rfl, rfl⟩

end BigipCtlr
