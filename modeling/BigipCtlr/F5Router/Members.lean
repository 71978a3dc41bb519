import BigipCtlr.F5Router.Shape
import BigipCtlr.Lib.List
import Mathlib.Data.Finset.Basic

/-!
# Members

The abstract router is a set of members for every name, and an update inserts
or erases one. The pools, virtual servers and rules of the router refine it.
-/

namespace BigipCtlr

open Go Lib

-- ---------------------------------------------------------------------------
-- Removing a member from its slice
-- ---------------------------------------------------------------------------

theorem removeRound_skip (addr : Member) (hi : s.array[i]? = some addr) (hne : addr ≠ m) :
    removeRound (fun _ => some m) s i = some s := by
  simp [removeRound, hi, hne]

theorem removeMember_of_notMem (hm : m ∉ ms) : removeMember (fun _ => some m) ms = some ms := by
  refine removeMember_eq_some.mpr ⟨⟨ms, ms.length⟩,
    run_idle fun i hi => ?_, by simp [MemberSlice.members]⟩
  have hlt := List.mem_range.mp hi
  exact removeRound_skip _ (List.getElem?_eq_getElem hlt) fun he => hm (he ▸ List.getElem_mem hlt)

/-- The slice after the round that finds the member: the last one stands in
its place. -/
theorem removeRound_hit (as bs : List Member)
    (hlast : (as ++ m :: bs)[as.length + bs.length]? = some last) :
    removeRound (fun _ => some m) ⟨as ++ m :: bs, as.length + bs.length + 1⟩ as.length =
      some ⟨((as ++ m :: bs).set as.length last).set (as.length + bs.length) Member.zero,
        as.length + bs.length⟩ := by
  have hlt : as.length < as.length + bs.length + 1 := by omega
  have hhead : (as ++ m :: bs)[as.length]? = some m := by simp
  simp only [removeRound, hhead, hlast, bind, Option.bind_some, if_true, if_pos hlt,
    Nat.add_sub_cancel]

theorem removeMember_of_mem (hnd : ms.Nodup) (hzero : m ≠ Member.zero) (hm : m ∈ ms) :
    ∃ ms', removeMember (fun _ => some m) ms = some ms' ∧ ms'.Perm (ms.erase m) := by
  obtain ⟨as, bs, rfl⟩ := List.append_of_mem hm
  have has : m ∉ as := fun h => (List.nodup_append'.mp hnd).2.2 h List.mem_cons_self
  have hbs : m ∉ bs := (List.nodup_cons.mp (List.nodup_append'.mp hnd).2.1).1
  have hlen : (as ++ m :: bs).length = as.length + bs.length + 1 := by
    rw [List.length_append, List.length_cons]
    omega
  obtain ⟨last, hlast⟩ : ∃ last, (as ++ m :: bs)[as.length + bs.length]? = some last :=
    ⟨_, List.getElem?_eq_getElem (by omega)⟩
  let s' : MemberSlice :=
    ⟨((as ++ m :: bs).set as.length last).set (as.length + bs.length) Member.zero,
      as.length + bs.length⟩
  refine ⟨s'.members, removeMember_eq_some.mpr ⟨s', ?_, rfl⟩, ?_⟩
  · rw [hlen, Nat.add_assoc, List.range_add, List.range_succ_eq_map, List.map_cons]
    refine run_append_eq_some.mpr ⟨_, run_idle fun i hi => ?_, ?_⟩
    · have hlt := List.mem_range.mp hi
      refine removeRound_skip as[i] ?_ fun he => has (he ▸ List.getElem_mem hlt)
      rw [List.getElem?_append_left hlt, List.getElem?_eq_getElem hlt]
    · refine run_cons_eq_some.mpr ⟨s', removeRound_hit as bs hlast, run_idle fun i hi => ?_⟩
      simp only [List.map_map, List.mem_map, List.mem_range, Function.comp_apply] at hi
      obtain ⟨k, hk, rfl⟩ := hi
      -- behind the member found stand the others and the vacated slot
      by_cases hend : as.length + bs.length = as.length + (k + 1)
      · refine removeRound_skip Member.zero ?_ hzero.symm
        simp only [s']
        rw [List.getElem?_set, if_pos hend, if_pos (by simp only [List.length_set, hlen]; omega)]
      · refine removeRound_skip bs[k] ?_ fun he => hbs (he ▸ List.getElem_mem hk)
        simp only [s']
        rw [List.getElem?_set_ne hend, List.getElem?_set_ne (by omega),
          List.getElem?_append_right (by omega), Nat.add_sub_cancel_left, List.getElem?_cons_succ,
          List.getElem?_eq_getElem hk]
  · rw [MemberSlice.members, List.take_set_of_le (Nat.le_refl _), List.erase_append_right _ has,
      List.erase_cons_head]
    rw [take_set_last as bs hlast]
    exact (lastFirst_perm bs).append_left as

/-- Without duplicates the loop of `removePool` erases the member. -/
theorem removeMember_perm (hnd : ms.Nodup) (hzero : m ≠ Member.zero) :
    ∃ ms', removeMember (fun _ => some m) ms = some ms' ∧ ms'.Perm (ms.erase m) := by
  by_cases hm : m ∈ ms
  · exact removeMember_of_mem hnd hzero hm
  · exact ⟨ms, removeMember_of_notMem hm, by rw [List.erase_of_not_mem hm]⟩

-- ---------------------------------------------------------------------------
-- The abstract router
-- ---------------------------------------------------------------------------

abbrev Memberships := Str → Finset Member

def Item.member : Item → Option Member
  | .http ru => ru.endpoint.map fun ep => ⟨ep.address, ep.port, "user-enabled".toList⟩
  | .tcp tu => some tu.member

def Memberships.apply (S : Memberships) (item : Item) : Memberships :=
  match item.op, item.member with
  | .add, some m => Function.update S item.name (insert m (S item.name))
  | .remove, some m => Function.update S item.name ((S item.name).erase m)
  | _, _ => S

def Holds : Option Pool → Finset Member → Prop
  | none, S => S = ∅
  | some p, S =>
    p.members ≠ [] ∧ p.members.Nodup ∧ p.members.toFinset = S ∧ ∀ m ∈ p.members, m.address ≠ []

theorem Holds.isSome_iff (h : Holds o S) : o.isSome = true ↔ S.Nonempty := by
  cases o with
  | none => simp [show S = ∅ from h]
  | some p =>
    obtain ⟨hne, -, rfl, -⟩ := h
    simpa using hne

theorem Holds.join {pool : Pool} (h : Holds o S) (hm : pool.members = [m]) (ha : m.address ≠ []) :
    Holds (some (joinPool o pool)) (insert m S) := by
  cases o with
  | none =>
    obtain rfl : S = ∅ := h
    simp [Holds, joinPool, hm, ha]
  | some p =>
    obtain ⟨hne, hnd, rfl, hadd⟩ := h
    simp only [joinPool, hm, List.head?_cons, Option.some.injEq, List.any_eq_true,
      decide_eq_true_eq, exists_eq_right]
    split
    · next hin => exact ⟨hne, hnd, by rw [Finset.insert_eq_of_mem (List.mem_toFinset.mpr hin)],
        hadd⟩
    · next hin =>
      refine ⟨by simp, ?_, ?_, ?_⟩
      · exact List.nodup_append'.mpr ⟨hnd, List.nodup_singleton m, List.disjoint_singleton.mpr hin⟩
      · ext x
        simp only [List.mem_toFinset, List.mem_append, List.mem_singleton, Finset.mem_insert]
        exact or_comm
      · intro x hx
        rcases List.mem_append.mp hx with hx | hx
        · exact hadd x hx
        · rw [List.mem_singleton.mp hx]
          exact ha

theorem Holds.remove {p : Pool} (h : Holds (some p) S) (hms : ms.Perm (p.members.erase m)) :
    Holds (if ms = [] then none else some { p with members := ms }) (S.erase m) := by
  obtain ⟨hne, hnd, rfl, hadd⟩ := h
  have hset : ms.toFinset = p.members.toFinset.erase m := by
    ext x
    rw [List.mem_toFinset, hms.mem_iff, hnd.mem_erase_iff, Finset.mem_erase, List.mem_toFinset]
  split
  · next hnil => exact (hnil ▸ hset).symm
  · next hnil =>
    refine ⟨hnil, hms.nodup_iff.mpr (hnd.erase m), hset, fun x hx => ?_⟩
    exact hadd x (List.mem_of_mem_erase (hms.mem_iff.mp hx))

-- ---------------------------------------------------------------------------
-- Rules
-- ---------------------------------------------------------------------------

/-- The rule kept for a URI, in the map where its kind is kept. -/
def F5Router.rule (r : F5Router) (uri : Uri) : Option (Option Rule) :=
  if '*' ∈ uri.string then r.wildcards.lookup uri else r.r.lookup uri

theorem rule_insert (r : F5Router) (uri : Uri) (x : Option Rule) (u : Uri) :
    (r.changeRules uri fun rules => rules.insert uri x).rule u = if u = uri then some x
      else r.rule u := by
  by_cases hu : u = uri
  · subst hu
    by_cases hw : '*' ∈ u.string <;> simp [F5Router.rule, F5Router.changeRules, hw]
  · by_cases hw : '*' ∈ uri.string <;>
      simp [F5Router.rule, F5Router.changeRules, hw, hu, AList.lookup_insert_ne]

theorem rule_erase (r : F5Router) (uri u : Uri) :
    (r.changeRules uri fun rules => rules.erase uri).rule u = if u = uri then none
      else r.rule u := by
  by_cases hu : u = uri
  · subst hu
    by_cases hw : '*' ∈ u.string <;> simp [F5Router.rule, F5Router.changeRules, hw]
  · by_cases hw : '*' ∈ uri.string <;>
      simp [F5Router.rule, F5Router.changeRules, hw, hu, AList.lookup_erase_ne]

structure F5Router.Rules (Q : Uri → Option Rule → Prop) (r : F5Router) : Prop where
  exact : ∀ u x, r.r.lookup u = some x → '*' ∉ u.string ∧ Q u x
  wildcard : ∀ u x, r.wildcards.lookup u = some x → '*' ∈ u.string ∧ Q u x

theorem F5Router.Rules.mono {r r' : F5Router} (h : r.Rules Q) (hsame : r.SameRules r')
    (hQ : ∀ u x, Q u x → Q' u x) : r'.Rules Q' := by
  refine ⟨fun u x hx => ?_, fun u x hx => ?_⟩
  · rw [hsame.rules] at hx
    exact (h.exact u x hx).imp_right (hQ u x)
  · rw [hsame.wildcards] at hx
    exact (h.wildcard u x hx).imp_right (hQ u x)

theorem F5Router.Rules.insert {r : F5Router} (h : r.Rules Q) (hx : Q uri x) :
    (r.changeRules uri fun rules => rules.insert uri x).Rules Q := by
  by_cases hw : '*' ∈ uri.string
  · refine ⟨?_, fun u y hy => ?_⟩
    · simpa [F5Router.changeRules, hw] using h.exact
    · simp only [F5Router.changeRules, if_pos hw, GoMap.lookup_insert_ite] at hy
      split at hy
      · next hu =>
        cases hy
        exact hu ▸ ⟨hw, hx⟩
      · exact h.wildcard u y hy
  · refine ⟨fun u y hy => ?_, ?_⟩
    · simp only [F5Router.changeRules, if_neg hw, GoMap.lookup_insert_ite] at hy
      split at hy
      · next hu =>
        cases hy
        exact hu ▸ ⟨hw, hx⟩
      · exact h.exact u y hy
    · simpa [F5Router.changeRules, hw] using h.wildcard

theorem F5Router.Rules.erase {r : F5Router} (h : r.Rules Q) (uri : Uri) :
    (r.changeRules uri fun rules => rules.erase uri).Rules fun u x => u ≠ uri ∧ Q u x := by
  refine ⟨fun u x hx => ?_, fun u x hx => ?_⟩
  · by_cases hw : '*' ∈ uri.string
    · simp only [F5Router.changeRules, if_pos hw] at hx
      obtain ⟨hu, hq⟩ := h.exact u x hx
      exact ⟨hu, fun he => hu (he ▸ hw), hq⟩
    · simp only [F5Router.changeRules, if_neg hw, GoMap.lookup_erase_ite] at hx
      split at hx
      · cases hx
      · next hne => exact ⟨(h.exact u x hx).1, hne, (h.exact u x hx).2⟩
  · by_cases hw : '*' ∈ uri.string
    · simp only [F5Router.changeRules, if_pos hw, GoMap.lookup_erase_ite] at hx
      split at hx
      · cases hx
      · next hne => exact ⟨(h.wildcard u x hx).1, hne, (h.wildcard u x hx).2⟩
    · simp only [F5Router.changeRules, if_neg hw] at hx
      obtain ⟨hu, hq⟩ := h.wildcard u x hx
      exact ⟨hu, fun he => hw (he ▸ hu), hq⟩

def F5Router.Solid (r : F5Router) : Prop := r.Rules fun _ x => x ≠ none

theorem F5Router.Solid.same {r r' : F5Router} (h : r.Solid) (hsame : r.SameRules r') : r'.Solid :=
  F5Router.Rules.mono h hsame fun _ _ => id

theorem sortRules_isSome (o : Order) (h : ∀ u x, rules.lookup u = some x → x ≠ none) (k : Nat) :
    (sortRules o rules k).isSome = true := by
  rw [sortRules, Option.isSome_map]
  refine mapM_isSome_iff.mpr fun e he => Option.isSome_iff_ne_none.mpr ?_
  exact h e.1 e.2 (GoMap.mem_range.mp he)

theorem F5Router.Solid.sections_isSome {r : F5Router} (h : r.Solid) (o : Order) :
    (r.sections o).isSome = true := by
  obtain ⟨rls, hrls⟩ :=
    Option.isSome_iff_exists.mp (sortRules_isSome o (fun u x hx => (h.exact u x hx).2) 0)
  obtain ⟨w, hw⟩ :=
    Option.isSome_iff_exists.mp (sortRules_isSome o (fun u x hx => (h.wildcard u x hx).2) r.r.size)
  rw [F5Router.sections, Option.isSome_map, F5Router.createResources, F5Router.createPolicies]
  split <;> simp [makeRoutePolicy, hrls, hw]

-- ---------------------------------------------------------------------------
-- Regular updates
-- ---------------------------------------------------------------------------

/-- An Add or a Remove of an endpoint with an address, for a URI that can be
routed or for a TCP port. -/
def Item.Regular (c : Config) : Item → Prop
  | .http ru => (ru.op = .add ∨ ru.op = .remove) ∧ (∃ ep, ru.endpoint = some ep ∧ ep.address ≠ []) ∧
    ru.uri.string.count '*' ≤ 1 ∧ ∃ rule, makeRouteRule ru = some (.ok rule)
  | .tcp tu => (tu.op = .add ∨ tu.op = .remove) ∧ tu.c = c ∧ tu.member.address ≠ []

def Tier2VSInfo.HasRoom (t : Tier2VSInfo) : Prop :=
  ∃ t' va, t.getAvailableVirtualAddress = some (t', .ok va)

theorem verifyRouteURI_ok (h : ru.uri.string.count '*' ≤ 1) : verifyRouteURI ru = .ok () := by
  simp only [verifyRouteURI]
  rw [if_neg (by omega)]

theorem createResources_of_endpoint {ru : UpdateHTTP} (hep : ru.endpoint = some ep)
    (ha : ep.address ≠ []) :
    ru.createResources c = .ok (defaultResources c ru.name
      (makeDescription ru.uri.string ep.applicationId) [] ep.address ep.port) := by
  rw [UpdateHTTP.createResources, UpdateHTTP.resources_eq, hep]
  exact if_neg fun h => h.elim ha (makeDescription_ne_nil _ _)

theorem assignVSPort_isOk {r : F5Router} (hl : Ledger codec r.tier2VSInfo r.internalDataGroup)
    (vs : Virtual) (hroom : vs.virtualServerName ∉ r.internalDataGroup → r.tier2VSInfo.HasRoom) :
    ∃ r₁ vs', r.assignVSPort codec vs = some (r₁, .ok vs') := by
  have hplaced : ∀ va : VirtualAddress, va.Valid → ∃ vs', (verifyDestAddress va r.c.partition).map
      (fun dest => { vs with destination := dest }) = .ok vs' := by
    intro va hva
    obtain ⟨dest, hdest⟩ := verifyDestAddress_isOk hva r.c.partition
    exact ⟨_, by rw [hdest]; rfl⟩
  simp only [F5Router.assignVSPort]
  split
  · exact ⟨_, _, rfl⟩
  · split
    · next hnone =>
      obtain ⟨t', x, hget⟩ := hroom (AList.lookup_eq_none.mp hnone)
      obtain ⟨va, rfl, hva⟩ := (hl.getAvailableVirtualAddress hget).2 x rfl
      obtain ⟨vs', hvs'⟩ := hplaced va hva
      simp only [hget, hvs']
      exact ⟨_, _, rfl⟩
    · next record hrec =>
      obtain ⟨-, va, hdec, hva⟩ := hl.record _ _ hrec
      obtain ⟨vs', hvs'⟩ := hplaced va hva
      simp only [InternalDataGroupRecord.tier2VirtualAddress, hdec, hvs']
      exact ⟨_, _, rfl⟩

theorem processRouteAdd_regular {r : F5Router} (hl : Ledger codec r.tier2VSInfo r.internalDataGroup)
    (hroom : r.tier2VSInfo.HasRoom) (hep : ru.endpoint = some ep) (ha : ep.address ≠ [])
    (hstar : ru.uri.string.count '*' ≤ 1) (hrule : makeRouteRule ru = some (.ok rule)) :
    ∃ r₁ rs vs, r.processRouteAdd codec ru =
        some (r₁.changeRules ru.uri fun rules => rules.insert ru.uri (some rule)) ∧
      rs.pool.members = [⟨ep.address, ep.port, "user-enabled".toList⟩] ∧
      r.Turns ru.name ((r.route ru.name).add rs vs)
        (r₁.changeRules ru.uri fun rules => rules.insert ru.uri (some rule)) ∧
      r.SameRules r₁ := by
  have hcreate := createResources_of_endpoint (c := r.c) hep ha
  obtain ⟨r₁, vs, hassign⟩ :=
    assignVSPort_isOk hl
      (r.addedResources ru (defaultResources r.c ru.name
        (makeDescription ru.uri.string ep.applicationId) [] ep.address ep.port)).virtual
      fun _ => hroom
  have hname : (r.addedResources ru (defaultResources r.c ru.name
      (makeDescription ru.uri.string ep.applicationId) [] ep.address ep.port)).pool.name =
    ru.name :=
    (resources_fixed (r.route ru.name) _).1
  obtain ⟨⟨t, dg, rfl⟩, -⟩ := assignVSPort_frame hassign
  refine ⟨_, _, vs, ?_, (resources_fixed (r.route ru.name) _).2.1,
    added_turns _ hcreate hassign, ⟨rfl, rfl⟩⟩
  simp only [F5Router.processRouteAdd, verifyRouteURI_ok hstar, hcreate, hassign,
    F5Router.addRule, hrule, Option.map_some, hname]
  rfl

theorem removePool_returns {r : F5Router} (h : ∀ p, r.poolResources.lookup key = some p →
    ∃ ms, removeMember first p.members = some ms) :
    ∃ gone r', r.removePool key first = some (gone, r') := by
  simp only [F5Router.removePool]
  cases hp : r.poolResources.lookup key with
  | none => exact ⟨_, _, rfl⟩
  | some p =>
    obtain ⟨ms, hms⟩ := h p hp
    simp only [hms, bind, Option.bind_some]
    split <;> exact ⟨_, _, rfl⟩

theorem removePool_own_returns {r : F5Router} (hname : p.name = n)
    (hp : r.poolResources.lookup n = some p) (hms : removeMember first p.members = some ms) :
    ∃ gone r', r.removePool p.name first = some (gone, r') := by
  refine removePool_returns fun q hq => ⟨ms, ?_⟩
  rw [hname, hp] at hq
  cases hq
  exact hms

theorem processRouteRemove_returns (codec : Codec) {r : F5Router} (hep : ru.endpoint = some ep)
    (ha : ep.address ≠ []) (hstar : ru.uri.string.count '*' ≤ 1)
    (hms : ∀ p, r.poolResources.lookup ru.name = some p → ∃ ms,
      removeMember (fun _ => some ⟨ep.address, ep.port, "user-enabled".toList⟩) p.members =
        some ms) :
    ∃ r', r.processRouteRemove codec ru = some r' := by
  obtain ⟨gone, r₁, hrem⟩ := removePool_returns hms
  simp only [F5Router.processRouteRemove, verifyRouteURI_ok hstar,
    createResources_of_endpoint (c := r.c) hep ha]
  change ∃ r', (r.removePool ru.name fun _ =>
    some ⟨ep.address, ep.port, "user-enabled".toList⟩).bind _ = some r'
  rw [hrem]
  cases gone <;> exact ⟨_, rfl⟩

theorem UpdateTCP.createResources_returns (tu : UpdateTCP)
    (h : (parseIP tu.c.bigIP.externalAddr).isSome = true) (c : Config) :
    ∃ rs, tu.createResources c = .ok rs := by
  have hva : VirtualAddress.Valid ⟨tu.c.bigIP.externalAddr, Int32.ofNat tu.routePort.toNat⟩ := h
  obtain ⟨dest, hdest⟩ := verifyDestAddress_isOk hva tu.c.partition
  have hn : tu.name ≠ [] := by
    intro hn
    have := tu.name_starts
    rw [hn, List.prefix_nil] at this
    exact absurd this (by decide)
  simp only [UpdateTCP.createResources, hdest, joinBigipPath_ok hn, bind, Except.bind]
  exact ⟨_, rfl⟩

theorem processTCPRouteRemove_returns {r : F5Router} (hrs : tu.createResources r.c = .ok rs)
    (hms : ∀ p, r.poolResources.lookup tu.name = some p →
      ∃ ms, removeMember (fun _ => some tu.member) p.members = some ms) :
    ∃ r', r.processTCPRouteRemove tu = some r' := by
  obtain ⟨gone, r₁, hrem⟩ := removePool_returns hms
  obtain ⟨-, hp, hm, -⟩ := UpdateTCP.createResources_ok hrs
  simp only [F5Router.processTCPRouteRemove, hrs, hp, hm, List.head?_cons, hrem, bind,
    Option.bind_some]
  cases gone <;> exact ⟨_, rfl⟩

theorem handle_rules {r : F5Router} (hn : r.Named) (h : r.Rules Q)
    (hQ : ∀ ru res, item = .http ru → ru.op = .add → r.Accepts codec ru →
      makeRouteRule ru = some res →
      Q ru.uri res.toOption)
    (hstep : r.handle codec item = some r') : r'.Rules Q := by
  obtain ⟨hsame, -⟩ | ⟨ru, vs, r₁, res, hitem, hop, -, -, hsame | ⟨rule, haccepts, hrule, hsame⟩⟩ |
      ⟨ru, r₁, -, -, -, -, hsame⟩ := handle_cases hn hstep
  · exact h.mono hsame fun _ _ => id
  · exact h.mono hsame fun _ _ => id
  · exact (h.insert (hQ ru rule hitem hop haccepts hrule)).mono hsame fun _ _ => id
  · exact (h.erase ru.uri).mono hsame fun _ _ hx => hx.2

theorem handle_solid {r : F5Router} (hn : r.Named) (h : r.Solid) (hreg : item.Regular c)
    (hstep : r.handle codec item = some r') : r'.Solid := by
  refine handle_rules hn h ?_ hstep
  rintro ru res rfl - - hres
  obtain ⟨rule, hrule⟩ := hreg.2.2.2
  rw [hres] at hrule
  cases hrule
  exact nofun

-- ---------------------------------------------------------------------------
-- The refinement
-- ---------------------------------------------------------------------------

/-- The router lists the members of the abstract one: its pools, virtual
servers and rules are there for the names that have members. -/
structure Refined (codec : Codec) (c : Config) (es : List Event) (r : F5Router)
    (S : Memberships) : Prop where
  config : r.c = c
  external : (parseIP c.bigIP.externalAddr).isSome = true
  named : r.Named
  ledger : Ledger codec r.tier2VSInfo r.internalDataGroup
  solid : r.Solid
  pool : ∀ n, Holds (r.poolResources.lookup n) (S n)
  virtual : ∀ n, ¬ tier1 n → (r.virtualResources.lookup n).isSome =
    (r.poolResources.lookup n).isSome
  rule : ∀ e ∈ es, ∀ ru, e.item = .http ru →
    (r.rule ru.uri).isSome = (r.poolResources.lookup ru.name).isSome

def Item.uri : Item → Option Uri
  | .http ru => some ru.uri
  | .tcp _ => none

def DistinctNames (es : List Event) : Prop :=
  ∀ e ∈ es, ∀ f ∈ es, ∀ u ∈ e.item.uri, ∀ v ∈ f.item.uri, e.item.name = f.item.name → u = v

instance (es : List Event) : Decidable (DistinctNames es) :=
  inferInstanceAs (Decidable (∀ e ∈ es, _))

theorem DistinctNames.eq (h : DistinctNames es) (he : e ∈ es) (hf : f ∈ es) (hi : e.item = .http ru)
    (hj : f.item = .http rv) (hn : ru.name = rv.name) : ru.uri = rv.uri :=
  h e he f hf ru.uri (by rw [hi]; rfl) rv.uri (by rw [hj]; rfl) (by rw [hi, hj]; exact hn)

structure Apart (es : List Event) : Prop where
  uris : DistinctNames es
  tcp : ∀ e ∈ es, ∀ f ∈ es, e.item.isHTTP = true → f.item.isHTTP = false → e.item.name ≠ f.item.name

theorem Refined.turn {r r' : F5Router} (h : Refined codec c es r S)
    (hstep : r.handle codec item = some r') (hreg : item.Regular c) (ht : r.Turns item.name x r')
    (hpool : Holds x.pool (S' item.name)) (hother : ∀ m, m ≠ item.name → S' m = S m)
    (hv : x.virtual.isSome = x.pool.isSome)
    (hrule : ∀ e ∈ es, ∀ ru, e.item = .http ru → (r'.rule ru.uri).isSome =
      if ru.name = item.name then x.pool.isSome else (r.rule ru.uri).isSome) :
    Refined codec c es r' S' := by
  have hp : ∀ n, r'.poolResources.lookup n = if n = item.name then x.pool
      else r.poolResources.lookup n := by
    intro n
    split
    · next hn =>
      rw [hn]
      exact congrArg RouteState.pool ht.own
    · next hn => exact congrArg RouteState.pool (ht.other n hn)
  have hvirt : ∀ n, r'.virtualResources.lookup n =
      if n = item.name then x.virtual else r.virtualResources.lookup n := by
    intro n
    split
    · next hn =>
      rw [hn]
      exact congrArg RouteState.virtual ht.own
    · next hn => exact congrArg RouteState.virtual (ht.other n hn)
  refine ⟨ht.c.trans h.config, h.external, handle_named h.named hstep,
    handle_ledger h.named h.ledger hstep, handle_solid h.named h.solid hreg hstep, fun n => ?_,
    fun n hn => ?_, fun e he ru hi => ?_⟩
  · rw [hp]
    split
    · next hn => rwa [hn]
    · next hn =>
      rw [hother n hn]
      exact h.pool n
  · rw [hp, hvirt]
    split
    · exact hv
    · exact h.virtual n hn
  · rw [hrule e he ru hi, hp]
    split
    · rfl
    · exact h.rule e he ru hi

theorem Apart.rules {r r' : F5Router} (h : Apart es) (he : e ∈ es) (hi : e.item = .http ru₀)
    (hown : (r'.rule ru₀.uri).isSome = gone) (hother : ∀ u, u ≠ ru₀.uri → r'.rule u = r.rule u) :
    ∀ f ∈ es, ∀ ru, f.item = .http ru → (r'.rule ru.uri).isSome =
      if ru.name = ru₀.name then gone else (r.rule ru.uri).isSome := by
  intro f hf ru hfi
  split
  · next hn => rw [h.uris.eq hf he hfi hi hn, hown]
  · next hn =>
    rw [hother]
    intro hu
    have hname := ru.named
    rw [hu, ru₀.named] at hname
    exact hn (Option.some.inj hname).symm

theorem Memberships.apply_other {S : Memberships} (h : m ≠ item.name) : S.apply item m = S m := by
  simp only [apply]
  cases item.op <;> cases item.member <;> simp [Function.update_of_ne h]

theorem Memberships.apply_add {S : Memberships} (item : Item) (hop : item.op = .add)
    (hm : item.member = some m) :
    S.apply item item.name = insert m (S item.name) := by
  simp only [apply, hop, hm]
  exact Function.update_self ..

theorem Memberships.apply_remove {S : Memberships} (item : Item) (hop : item.op = .remove)
    (hm : item.member = some m) : S.apply item item.name = (S item.name).erase m := by
  simp only [apply, hop, hm]
  exact Function.update_self ..

theorem Holds.removable {p : Pool} (h : Holds (some p) S) (ha : m.address ≠ []) :
    ∃ ms, removeMember (fun _ => some m) p.members = some ms ∧ ms.Perm (p.members.erase m) :=
  removeMember_perm h.2.1 fun hz => ha (by rw [hz]; rfl)

theorem Refined.add {r : F5Router} (h : Refined codec c es r S) (hapart : Apart es) (he : e ∈ es)
    (hi : e.item = .http ru) (hop : ru.op = .add) (hreg : (Item.http ru).Regular c)
    (hroom : r.tier2VSInfo.HasRoom) :
    ∃ r', r.handle codec (.http ru) = some r' ∧ Refined codec c es r' (S.apply (.http ru)) := by
  obtain ⟨-, ⟨ep, hep, ha⟩, hstar, rule, hrule⟩ := id hreg
  obtain ⟨r₁, rs, vs, hstep, hm, ht, hsame⟩ :=
    processRouteAdd_regular h.ledger hroom hep ha hstar hrule
  have hhandle : r.handle codec (.http ru) = some (r₁.changeRules ru.uri fun rules =>
      rules.insert ru.uri (some rule)) := by simp only [F5Router.handle, hop, hstep]
  have hr₁ : ∀ u, r₁.rule u = r.rule u := fun u => by
    simp only [F5Router.rule, hsame.rules, hsame.wildcards]
  refine ⟨_, hhandle, h.turn hhandle hreg ht ?_ (fun m hm => Memberships.apply_other hm) rfl ?_⟩
  · rw [Memberships.apply_add (m := ⟨ep.address, ep.port, "user-enabled".toList⟩) (.http ru) hop
      (by simp [Item.member, hep])]
    exact (h.pool ru.name).join hm ha
  · refine hapart.rules he hi ?_ fun u hu => ?_
    · rw [rule_insert, if_pos rfl]
      rfl
    · rw [rule_insert, if_neg hu, hr₁]

theorem Refined.remove {r : F5Router} (h : Refined codec c es r S) (hapart : Apart es) (he : e ∈ es)
    (hi : e.item = .http ru) (hop : ru.op = .remove) (hreg : (Item.http ru).Regular c) :
    ∃ r', r.handle codec (.http ru) = some r' ∧ Refined codec c es r' (S.apply (.http ru)) := by
  obtain ⟨-, ⟨ep, hep, ha⟩, hstar, -⟩ := id hreg
  have hmember : (Item.http ru).member = some ⟨ep.address, ep.port, "user-enabled".toList⟩ := by
    simp [Item.member, hep]
  have hholds := h.pool ru.name
  have hremovable : ∀ p, r.poolResources.lookup ru.name = some p → ∃ ms,
      removeMember (fun _ => some ⟨ep.address, ep.port, "user-enabled".toList⟩) p.members =
        some ms := by
    intro p hp
    rw [hp] at hholds
    obtain ⟨ms, hms, -⟩ := hholds.removable (m := ⟨ep.address, ep.port, "user-enabled".toList⟩) ha
    exact ⟨ms, hms⟩
  obtain ⟨r', hstep⟩ := processRouteRemove_returns codec hep ha hstar hremovable
  have hhandle : r.handle codec (.http ru) = some r' := by simp only [F5Router.handle, hop, hstep]
  have hrules := h.rule e he ru hi
  have hvirtual := h.virtual ru.name (not_tier1 ru.name_starts)
  refine ⟨r', hhandle, ?_⟩
  obtain ⟨rfl, hno⟩ | ⟨ep', p, ms, -, hep', -, hp, hms, ⟨hnil, rfl⟩ | ⟨rfl, rfl⟩⟩ :=
    processRouteRemove_cases hstep
  · have hnone : r'.poolResources.lookup ru.name = none := by
      obtain hv | hc | hp := hno
      · exact absurd (verifyRouteURI_ok hstar) hv
      · exact absurd (createResources_of_endpoint hep ha) (hc _)
      · exact hp
    refine h.turn hhandle hreg (Turns.refl r' ru.name) ?_
      (fun m hm => Memberships.apply_other hm) hvirtual ?_
    · rw [Memberships.apply_remove (.http ru) hop hmember]
      simp only [Item.name, F5Router.route, hnone] at hholds ⊢
      rw [show S ru.name = ∅ from hholds]
      rfl
    · exact hapart.rules he hi hrules fun u hu => rfl
  all_goals
    rw [hep] at hep'
    cases hep'
    rw [hp] at hholds hrules hvirtual
    obtain ⟨ms', hms', hperm⟩ :=
      hholds.removable (m := ⟨ep.address, ep.port, "user-enabled".toList⟩) ha
    rw [hms] at hms'
    cases hms'
    have hheld := hholds.remove hperm
  · rw [if_neg hnil] at hheld
    have hshrink : (r.route ru.name).shrink p ms =
        { r.route ru.name with pool := some { p with members := ms } } := if_neg hnil
    refine h.turn hhandle hreg (shrunk_turns hnil) ?_
      (fun m hm => Memberships.apply_other hm) ?_ ?_
    · rw [Memberships.apply_remove (.http ru) hop hmember]
      simp only [Item.name, hshrink]
      exact hheld
    · simp only [Item.name, hshrink]
      exact hvirtual
    · simp only [Item.name, hshrink]
      exact hapart.rules he hi hrules fun u hu => rfl
  · obtain ⟨t, dg, hreap⟩ := reap_frame codec
      (((({ r with poolResources := r.poolResources.erase ru.name }).removeMonitors
        ru.name).removeRule ru).removeVirtual ru.name) ru.name
    have hrule : ∀ u,
        (((((({ r with poolResources := r.poolResources.erase ru.name }).removeMonitors
          ru.name).removeRule ru).removeVirtual ru.name).reap codec ru.name).rule u) =
        if u = ru.uri then none else r.rule u := by
      intro u
      rw [hreap, ← rule_erase]
      rfl
    refine h.turn hhandle hreg (removed_turns r codec ru p) ?_
      (fun m hm => Memberships.apply_other hm) rfl ?_
    · rw [Memberships.apply_remove (.http ru) hop hmember]
      exact hheld
    · refine hapart.rules he hi ?_ fun u hu => ?_
      · rw [hrule, if_pos rfl]
        rfl
      · rw [hrule, if_neg hu]

theorem Apart.rules_tcp {r r' : F5Router} (h : Apart es) (he : e ∈ es) (hi : e.item = .tcp tu)
    (hsame : r.SameRules r') : ∀ f ∈ es, ∀ ru, f.item = .http ru → (r'.rule ru.uri).isSome =
      if ru.name = tu.name then gone else (r.rule ru.uri).isSome := by
  intro f hf ru hfi
  have hne : ru.name ≠ tu.name := by
    have hne := h.tcp f hf e he (by rw [hfi]; rfl) (by rw [hi]; rfl)
    rwa [hfi, hi] at hne
  rw [if_neg hne]
  simp only [F5Router.rule, hsame.rules, hsame.wildcards]

theorem not_tier1_tcp (tu : UpdateTCP) : ¬ tier1 tu.name := not_tier1 tu.name_starts

theorem Refined.tcpAdd {r : F5Router} (h : Refined codec c es r S) (hapart : Apart es) (he : e ∈ es)
    (hi : e.item = .tcp tu) (hop : tu.op = .add) (hreg : (Item.tcp tu).Regular c) :
    ∃ r', r.handle codec (.tcp tu) = some r' ∧ Refined codec c es r' (S.apply (.tcp tu)) := by
  obtain ⟨-, hc, ha⟩ := id hreg
  have hhandle : r.handle codec (.tcp tu) = some (r.processTCPRouteAdd tu) := by
    simp only [F5Router.handle, hop]
  obtain ⟨rs, hrs⟩ := tu.createResources_returns (hc ▸ h.external) r.c
  obtain ⟨-, hno⟩ | ⟨rs', hrs', ht, hrules, -⟩ := processTCPRouteAdd_cases r tu
  · exact absurd hrs (hno rs)
  · obtain ⟨-, -, hm, -⟩ := UpdateTCP.createResources_ok hrs'
    refine ⟨_, hhandle, h.turn hhandle hreg ht ?_ (fun m hm => Memberships.apply_other hm) rfl
      (hapart.rules_tcp he hi hrules)⟩
    rw [Memberships.apply_add (.tcp tu) hop rfl]
    exact (h.pool tu.name).join hm ha

theorem Refined.tcpRemove {r : F5Router} (h : Refined codec c es r S)
    (hapart : Apart es) (he : e ∈ es) (hi : e.item = .tcp tu) (hop : tu.op = .remove)
    (hreg : (Item.tcp tu).Regular c) :
    ∃ r', r.handle codec (.tcp tu) = some r' ∧ Refined codec c es r' (S.apply (.tcp tu)) := by
  obtain ⟨-, hc, ha⟩ := id hreg
  have hholds := h.pool tu.name
  have hvirtual := h.virtual tu.name (not_tier1_tcp tu)
  obtain ⟨rs, hrs⟩ := tu.createResources_returns (hc ▸ h.external) r.c
  obtain ⟨r', hstep⟩ := processTCPRouteRemove_returns (r := r) hrs fun p hp => by
    rw [hp] at hholds
    obtain ⟨ms, hms, -⟩ := hholds.removable ha
    exact ⟨ms, hms⟩
  have hhandle : r.handle codec (.tcp tu) = some r' := by simp only [F5Router.handle, hop, hstep]
  refine ⟨r', hhandle, ?_⟩
  obtain ⟨rfl, hno⟩ | ⟨p, ms, hp, hms, ht, hrules, -⟩ := processTCPRouteRemove_cases hstep
  · have hnone : r'.poolResources.lookup tu.name = none := hno.resolve_left fun hc => hc rs hrs
    refine h.turn hhandle hreg (Turns.refl r' tu.name) ?_
      (fun m hm => Memberships.apply_other hm) hvirtual
      (hapart.rules_tcp he hi ⟨rfl, rfl⟩)
    rw [Memberships.apply_remove (.tcp tu) hop rfl]
    simp only [Item.name, F5Router.route, hnone] at hholds ⊢
    rw [show S tu.name = ∅ from hholds]
    rfl
  · rw [hp] at hholds hvirtual
    obtain ⟨ms', hms', hperm⟩ := hholds.removable ha
    rw [hms] at hms'
    cases hms'
    have hheld := hholds.remove hperm
    refine h.turn hhandle hreg ht ?_ (fun m hm => Memberships.apply_other hm) ?_
      (hapart.rules_tcp he hi hrules)
    · rw [Memberships.apply_remove (.tcp tu) hop rfl]
      split
      · next hnil => rwa [if_pos hnil] at hheld
      · next hnil => rwa [if_neg hnil] at hheld
    · split
      · rfl
      · exact hvirtual

theorem Refined.handle {r : F5Router} (h : Refined codec c es r S) (hapart : Apart es) (he : e ∈ es)
    (hreg : e.item.Regular c) (hroom : r.tier2VSInfo.HasRoom) :
    ∃ r', r.handle codec e.item = some r' ∧ Refined codec c es r' (S.apply e.item) := by
  cases hi : e.item with
  | http ru =>
    rw [hi] at hreg
    obtain hop | hop := hreg.1
    · exact h.add hapart he hi hop hreg hroom
    · exact h.remove hapart he hi hop hreg
  | tcp tu =>
    rw [hi] at hreg
    obtain hop | hop := hreg.1
    · exact h.tcpAdd hapart he hi hop hreg
    · exact h.tcpRemove hapart he hi hop hreg

theorem Refined.step {r : F5Router} (h : Refined codec c es r S) (hapart : Apart es) (he : e ∈ es)
    (hreg : e.item.Regular c) (hroom : r.tier2VSInfo.HasRoom) :
    ∃ r', r.step codec e = some r' ∧ Refined codec c es r' (S.apply e.item) := by
  obtain ⟨r₁, hr₁, h₁⟩ := h.handle hapart he hreg hroom
  simp only [F5Router.step, F5Router.process, hr₁, bind, Option.bind_some]
  split
  · have hsync : ∃ r₂, r₁.firstSync codec e.order = some r₂ ∧
        Refined codec c es r₂ (S.apply e.item) := by
      simp only [F5Router.firstSync]
      split
      · exact ⟨r₁, rfl, h₁⟩
      · obtain ⟨dg, used, drop, htrunc, -⟩ := truncateInternalDataGroup_spec h₁.ledger e.order
        have hl := h₁.ledger.truncate htrunc
        simp only [htrunc, Option.map_some]
        exact ⟨_, rfl, ⟨h₁.config, h₁.external, ⟨h₁.named.pool, h₁.named.virtual⟩, hl,
          h₁.solid.same ⟨rfl, rfl⟩, h₁.pool, h₁.virtual, h₁.rule⟩⟩
    obtain ⟨r₂, hr₂, h₂⟩ := hsync
    obtain ⟨s, hs⟩ := Option.isSome_iff_exists.mp (h₂.solid.sections_isSome e.order)
    exact ⟨r₂, by simp only [hr₂, hs, Option.bind_some, Option.map_some], h₂⟩
  · exact ⟨r₁, rfl, h₁⟩

-- ---------------------------------------------------------------------------
-- Runs
-- ---------------------------------------------------------------------------

theorem Refined.boot {c : Config} {r : F5Router} (h : boot codec c plans dg = some r) :
    Refined codec r.c es r fun _ => ∅ := by
  have hnamed := boot_named h
  obtain ⟨r₀, used, records, hf, -, hcached, rfl⟩ := boot_state h
  refine ⟨rfl, hf.external, hnamed, hcached.ledger hf.holder hf.reaped, ⟨?_, ?_⟩,
    fun n => ?_, fun n hn => ?_, fun e he ru hi => ?_⟩
  · simp [hf.rules.1]
  · simp [hf.rules.2]
  · simp [hf.pools, Holds]
  · have hv : r₀.virtualResources.lookup n = none :=
      Option.eq_none_iff_forall_ne_some.mpr fun v hv => hn (hf.virtual n v hv).tier1
    simp [hv, hf.pools]
  · simp [F5Router.rule, hf.rules.1, hf.rules.2, hf.pools]

theorem F5Router.SameRules.rule {r r' : F5Router} (h : r.SameRules r') (uri : Uri) :
    r'.rule uri = r.rule uri := by
  simp only [F5Router.rule, h.rules, h.wildcards]

theorem handle_rule_other {r : F5Router} (hn : r.Named) (hstep : r.handle codec item = some r')
    (huri : makeObjectName (Uri.string uri) = some m) (hm : m ≠ item.name) :
    r'.rule uri = r.rule uri := by
  have hne : ∀ ru : UpdateHTTP, item = .http ru → uri ≠ ru.uri := by
    rintro ru rfl rfl
    rw [ru.named] at huri
    exact hm (Option.some.inj huri).symm
  obtain ⟨hsame, -⟩ | ⟨ru, vs, r₁, res, hitem, -, -, -, hsame | ⟨rule, -, -, hsame⟩⟩ |
    ⟨ru, r₁, hitem, -, -, -, hsame⟩ :=
    handle_cases hn hstep
  · exact hsame.rule uri
  · exact hsame.rule uri
  · rw [hsame.rule, rule_insert, if_neg (hne ru hitem)]
  · rw [hsame.rule]
    exact (rule_erase r ru.uri uri).trans (if_neg (hne ru hitem))

structure F5Router.SameElsewhere (r : F5Router) (n : Str) (r' : F5Router) : Prop where
  pool : ∀ m, m ≠ n → r'.poolResources.lookup m = r.poolResources.lookup m
  virtual : ∀ m, m ≠ n → r'.virtualResources.lookup m = r.virtualResources.lookup m
  rule : ∀ m uri, m ≠ n → makeObjectName (Uri.string uri) = some m → r'.rule uri = r.rule uri

theorem step_sameElsewhere {r : F5Router} (hn : r.Named) (h : r.step codec e = some r') :
    r.SameElsewhere e.item.name r' := by
  obtain ⟨r₁, dg, t, done, hr₁, rfl⟩ := step_spec h
  obtain ⟨x, ht, -⟩ := handle_step hn hr₁
  refine ⟨fun m hm => ?_, fun m hm => ?_, fun m uri hm huri => ?_⟩
  · exact congrArg RouteState.pool (ht.other m hm)
  · exact congrArg RouteState.virtual (ht.other m hm)
  · have hrule := handle_rule_other hn hr₁ huri hm
    exact hrule

structure Mirrors (es : List Event) (r : F5Router) (S : Memberships) : Prop where
  pool : ∀ n, (r.poolResources.lookup n).isSome = true ↔ (S n).Nonempty
  members : ∀ n p, r.poolResources.lookup n = some p → p.members.Nodup ∧ p.members.toFinset = S n
  virtual : ∀ n, ¬ tier1 n → (r.virtualResources.lookup n).isSome =
    (r.poolResources.lookup n).isSome
  rule : ∀ e ∈ es, ∀ ru, e.item = .http ru →
    (r.rule ru.uri).isSome = (r.poolResources.lookup ru.name).isSome

theorem Refined.mirrors (h : Refined codec c es r S) : Mirrors es r S := by
  refine ⟨fun n => (h.pool n).isSome_iff, fun n p hp => ?_, h.virtual, h.rule⟩
  have hholds := h.pool n
  rw [hp] at hholds
  exact ⟨hholds.2.1, hholds.2.2.1⟩

def replay (es : List Event) : Memberships := es.foldl (fun S e => S.apply e.item) fun _ => ∅

/-- A run of regular updates returns, mirrors the members replayed and leaves
the objects of other names alone in every step. -/
theorem run_mirrors_replay (hboot : boot codec c plans dg = some r₀)
    (hreg : ∀ e ∈ es, e.item.Regular r₀.c) (hapart : Apart es)
    (hroom : ∀ fs e, fs ++ [e] <+: es → ∀ r, run (F5Router.step codec) r₀ fs = some r →
      r.tier2VSInfo.HasRoom) :
    (∃ r, run (F5Router.step codec) r₀ es = some r ∧ Mirrors es r (replay es)) ∧
      ∀ fs e, fs ++ [e] <+: es → ∀ r r', run (F5Router.step codec) r₀ fs = some r →
        r.step codec e = some r' → r.SameElsewhere e.item.name r' := by
  have key : ∀ fs, fs <+: es → ∃ r, run (F5Router.step codec) r₀ fs = some r ∧
      Refined codec r₀.c es r (replay fs) := by
    intro fs
    induction fs using List.reverseRecOn with
    | nil => exact fun _ => ⟨r₀, rfl, .boot hboot⟩
    | append_singleton fs e ih =>
      intro hfs
      have he : e ∈ es := hfs.subset (by simp)
      obtain ⟨r, hr, h⟩ := ih ((List.prefix_append fs [e]).trans hfs)
      obtain ⟨r', hr', h'⟩ := h.step hapart he (hreg e he) (hroom fs e hfs r hr)
      refine ⟨r', run_append_eq_some.mpr ⟨r, hr, run_cons_eq_some.mpr ⟨r', hr', rfl⟩⟩, ?_⟩
      rw [replay, List.foldl_append]
      exact h'
  refine ⟨?_, fun fs e hfs r r' hr hr' => ?_⟩
  · obtain ⟨r, hr, h⟩ := key es (List.prefix_refl es)
    exact ⟨r, hr, h.mirrors⟩
  · obtain ⟨r₁, hr₁, h₁⟩ := key fs ((List.prefix_append fs [e]).trans hfs)
    rw [hr] at hr₁
    cases hr₁
    exact step_sameElsewhere h₁.named hr'

theorem hasRoom_of_isSome {t : Tier2VSInfo}
    (h : (t.getAvailableVirtualAddress.bind fun x => x.2.toOption).isSome = true) : t.HasRoom := by
  obtain ⟨va, hva⟩ := Option.isSome_iff_exists.mp h
  obtain ⟨⟨t', res⟩, hget, hres⟩ := Option.bind_eq_some_iff.mp hva
  obtain rfl : res = .ok va := ok_of_toOption hres
  exact ⟨t', va, hget⟩

theorem makeRouteRule_ok (h : makeRouteRule ru = some (.ok rule)) :
    rule.fullURI = ru.uri.string ∧ rule.actions = [routeAction ru.name] := by
  simp only [makeRouteRule] at h
  split at h
  · cases h
  · split at h
    all_goals
      obtain ⟨conditions, -, h⟩ := Option.bind_eq_some_iff.mp h
      obtain ⟨ep, -, h⟩ := Option.bind_eq_some_iff.mp h
      cases h
      exact ⟨rfl, rfl⟩

theorem makeRouteRule_of_isSome (h : ((makeRouteRule ru).bind Except.toOption).isSome = true) :
    ∃ rule, makeRouteRule ru = some (.ok rule) := by
  obtain ⟨rule, hrule⟩ := Option.isSome_iff_exists.mp h
  obtain ⟨x, hx, hrule⟩ := Option.bind_eq_some_iff.mp hrule
  exact ⟨rule, by rw [hx, ok_of_toOption hrule]⟩

def Sample.returning : List Event :=
  [event addA 1, event removeA 1, event addA 1, event addB 1, event addA2 0]

theorem run_mirrors_replay_sample :
    replay Sample.returning "cf-a".toList = {⟨"10.0.0.1".toList, 1, "user-enabled".toList⟩,
      ⟨"10.0.0.1".toList, 2, "user-enabled".toList⟩} ∧
    ∃ r₀, boot jsonCodec Sample.config ∅ none = some r₀ ∧
      (∃ r, run (F5Router.step jsonCodec) r₀ Sample.returning = some r ∧
        Mirrors Sample.returning r (replay Sample.returning)) ∧
      ∀ fs e, fs ++ [e] <+: Sample.returning →
        ∀ r r', run (F5Router.step jsonCodec) r₀ fs = some r → r.step jsonCodec e = some r' →
          r.SameElsewhere e.item.name r' := by
  have hsome : ((boot jsonCodec Sample.config ∅ none).bind fun r₀ =>
      run (F5Router.step jsonCodec) r₀ Sample.returning).isSome = true := by decide +kernel
  have hroom : ∀ r₀ ∈ boot jsonCodec Sample.config ∅ none, Along (F5Router.step jsonCodec)
      (fun r _ => (r.tier2VSInfo.getAvailableVirtualAddress.bind fun x => x.2.toOption).isSome =
        true)
      r₀ Sample.returning := by decide +kernel
  obtain ⟨r, hr⟩ := Option.isSome_iff_exists.mp hsome
  obtain ⟨r₀, hboot, hrun⟩ := Option.bind_eq_some_iff.mp hr
  refine ⟨by decide, r₀, hboot,
    run_mirrors_replay hboot ?_ ⟨by decide, by decide⟩ fun fs e hfs r' hr' => ?_⟩
  · have hadd : ∀ ru : UpdateHTTP, ru.op = .add ∨ ru.op = .remove →
        (∃ ep, ru.endpoint = some ep ∧ ep.address ≠ []) → ru.uri.string.count '*' ≤ 1 →
        ((makeRouteRule ru).bind Except.toOption).isSome = true → (Item.http ru).Regular r₀.c :=
      fun ru hop hep hstar hrule => ⟨hop, hep, hstar, makeRouteRule_of_isSome hrule⟩
    simp only [Sample.returning, List.forall_mem_cons, List.not_mem_nil, false_imp_iff,
      implies_true, and_true]
    refine ⟨?_, ?_, ?_, ?_, ?_⟩
    · exact hadd _ (.inl rfl) ⟨_, rfl, by decide⟩ (by decide) (by decide +kernel)
    · exact hadd _ (.inr rfl) ⟨_, rfl, by decide⟩ (by decide) (by decide +kernel)
    · exact hadd _ (.inl rfl) ⟨_, rfl, by decide⟩ (by decide) (by decide +kernel)
    · exact hadd _ (.inl rfl) ⟨_, rfl, by decide⟩ (by decide) (by decide +kernel)
    · exact hadd _ (.inl rfl) ⟨_, rfl, by decide⟩ (by decide) (by decide +kernel)
  · have hsome := along_at (hroom r₀ hboot) hrun hfs hr'
    exact hasRoom_of_isSome hsome

theorem Sample.named_wildcard :
    makeObjectName (Uri.string ("*.".toList ++ "*.x".toList)) =
      some ("cf-".toList ++ "*.x".toList) := by
  decide

def Sample.addTwoWildcards : Item :=
  .http (Sample.addUpdate ("*.".toList ++ "*.x".toList) ("cf-".toList ++ "*.x".toList)
    (Sample.endpoint 1) named_wildcard)

/-- A URI with two wildcards has a rule, but its updates are refused. -/
theorem run_mirrors_replay_two_wildcards :
    (∀ ru, Sample.addTwoWildcards = .http ru → ∃ rule, makeRouteRule ru = some (.ok rule)) ∧
      ∃ r₀ ∈ boot jsonCodec Sample.config ∅ none,
        (r₀.tier2VSInfo.getAvailableVirtualAddress.bind fun x => x.2.toOption).isSome = true ∧
        ∃ r ∈ run (F5Router.step jsonCodec) r₀ [Sample.event Sample.addTwoWildcards 0],
          r.poolResources.lookup "cf-*.x".toList = none ∧
            replay [Sample.event Sample.addTwoWildcards 0] "cf-*.x".toList ≠ ∅ := by
  refine ⟨?_, by decide +kernel⟩
  rintro ru ⟨⟩
  exact makeRouteRule_of_isSome (by decide +kernel)

end BigipCtlr
