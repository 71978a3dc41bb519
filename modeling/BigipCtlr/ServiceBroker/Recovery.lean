import BigipCtlr.F5Router.Start
import BigipCtlr.Lib.List
import BigipCtlr.ServiceBroker.Broker
import Mathlib.Data.List.ReduceOption
import Mathlib.Data.List.Rotate

/-!
# Recovering the bindings

The bindings are written to a data group as a route and the name of a plan,
joined with a bar. After a restart the plans have new IDs and are found by
name.
-/

namespace BigipCtlr

open Go Lib

structure Binding where
  bindID : Str
  routeURI : Str
  planID : Str
  deriving DecidableEq

def F5Router.recordAll (r : F5Router) (bindings : List Binding) : F5Router :=
  bindings.foldl (fun r b => r.addBindIDRouteURIPlanNameMapping b.bindID b.routeURI b.planID) r

def Plan.content (plan : Plan) : Plan := { plan with id := [] }

structure Guids (plans : List Plan) (guids : List Str) : Prop where
  length : guids.length = plans.length
  nodup : guids.Nodup
  nonempty : [] ∉ guids

/-- The data group of `r` restores the bindings in `r'`: each is queued for its
route with a plan of the same content, and is looked up as before. -/
def Restores (o o' : Order) (r r' : F5Router) (bindings : List Binding) : Prop :=
  ∃ r₁ updates, r'.processBrokerDataGroup o' (r.brokerDataGroup o) = some (r₁, updates) ∧
    ∀ b ∈ bindings,
      (∃ ru ∈ updates, ru.op = .bind ∧ ru.uri = b.routeURI ∧
        ∃ plan plan', r.plansMap.lookup b.planID = some plan ∧
          r₁.plansMap.lookup ru.planID = some plan' ∧
          plan'.content = plan.content) ∧
      r₁.getRouteURIFromBindID b.bindID = r.getRouteURIFromBindID b.bindID

-- ---------------------------------------------------------------------------
-- Plans
-- ---------------------------------------------------------------------------

theorem processPlans_lookup (h : Guids plans guids) :
    (processPlans plans guids).lookup guid = some plan ↔
      ∃ p, (p, guid) ∈ plans.zip guids ∧ plan = { p with id := guid } := by
  let withID (e : Plan × Str) : Plan := { e.1 with id := e.2 }
  have hnd : ((plans.zip guids).map Prod.snd).Nodup := by
    rw [List.map_snd_zip h.length.le]
    exact h.nodup
  have hone : ∀ e ∈ plans.zip guids, ∀ f ∈ plans.zip guids, e.2 = f.2 → e = f := fun e he f hf =>
    List.inj_on_of_nodup_map hnd he hf
  have hstored : ∀ e ∈ plans.zip guids, (processPlans plans guids).lookup e.2 =
      some (withID e) := by
    intro e he
    obtain ⟨f, hf, hkey, hlook⟩ := GoMap.lookup_foldl_insert_of_mem Prod.snd withID ∅ ⟨e, he, rfl⟩
    exact hone f hf e he hkey ▸ hlook
  constructor
  · intro hlook
    by_cases hin : ∃ e ∈ plans.zip guids, e.2 = guid
    · obtain ⟨e, he, rfl⟩ := hin
      cases (hstored e he).symm.trans hlook
      exact ⟨e.1, he, rfl⟩
    · have hnone := GoMap.lookup_foldl_insert_of_ne Prod.snd withID ∅ fun e he hkey =>
        hin ⟨e, he, hkey⟩
      cases hnone.symm.trans hlook
  · rintro ⟨p, hp, rfl⟩
    exact hstored (p, guid) hp

theorem processPlans_id (h : Guids plans guids)
    (hlook : (processPlans plans guids).lookup guid = some plan) :
    plan.id = guid ∧ guid ≠ [] ∧ ∃ p ∈ plans, p.name = plan.name ∧ p.content = plan.content := by
  obtain ⟨p, hp, rfl⟩ := (processPlans_lookup h).mp hlook
  obtain ⟨hplan, hguid⟩ := List.of_mem_zip hp
  exact ⟨rfl, fun he => h.nonempty (he ▸ hguid), p, hplan, rfl, rfl⟩

theorem Guids.exists_guid (h : Guids plans guids) (hp : p ∈ plans) :
    ∃ guid, (p, guid) ∈ plans.zip guids := by
  have hfst : (plans.zip guids).map Prod.fst = plans := List.map_fst_zip h.length.ge
  obtain ⟨⟨p, guid⟩, hmem, rfl⟩ := List.mem_map.mp (hfst.symm ▸ hp)
  exact ⟨guid, hmem⟩

theorem exists_order_last {plans : GoMap Str Plan} (h : plans.lookup guid = some plan) :
    ∃ o init, plans.range o = init ++ [(guid, plan)] := by
  obtain ⟨a, b, hab⟩ := List.append_of_mem (GoMap.mem_pairs.mpr h)
  let o : Order := ⟨fun l => l.rotate (a.length + 1), fun l => List.rotate_perm l _⟩
  refine ⟨o, b ++ a, ?_⟩
  have hlen : (a ++ [(guid, plan)]).length = a.length + 1 := by simp
  have hrot := List.rotate_append_length_eq (a ++ [(guid, plan)]) b
  rw [hlen, List.append_assoc, List.singleton_append, ← hab] at hrot
  rw [List.append_assoc, ← hrot]
  rfl

/-- A name finds one of the plans of that name. -/
theorem planNamePlanIDMap_lookup (o : Order) {plans : GoMap Str Plan}
    (h : plans.lookup guid = some plan) :
    ∃ guid' plan', plans.lookup guid' = some plan' ∧ plan'.name = plan.name ∧
      (planNamePlanIDMap o plans).lookup plan.name = some plan'.id := by
  obtain ⟨⟨guid', plan'⟩, hmem, hname, hlook⟩ := GoMap.lookup_foldl_insert_of_mem
    (fun e : Str × Plan => e.2.name) (fun e => e.2.id) ∅ ⟨(guid, plan), GoMap.mem_range.mpr h, rfl⟩
  exact ⟨guid', plan', GoMap.mem_range.mp hmem, hname, hlook⟩

theorem planNamePlanIDMap_inv {plans : GoMap Str Plan}
    (h : (planNamePlanIDMap o plans).lookup name = some planID) :
    ∃ guid plan, plans.lookup guid = some plan ∧ plan.name = name ∧ plan.id = planID := by
  by_cases hin : ∃ e ∈ plans.range o, e.2.name = name
  · obtain ⟨⟨guid, plan⟩, hmem, rfl⟩ := hin
    obtain ⟨guid', plan', hplan, hname, hlook⟩ :=
      planNamePlanIDMap_lookup o (GoMap.mem_range.mp hmem)
    exact ⟨guid', plan', hplan, hname, Option.some.inj (hlook.symm.trans h)⟩
  · have hnone :=
      GoMap.lookup_foldl_insert_of_ne (fun e : Str × Plan => e.2.name) (fun e => e.2.id) ∅
      fun e he hkey => hin ⟨e, he, hkey⟩
    cases hnone.symm.trans h

theorem planNamePlanIDMap_last {plans : GoMap Str Plan}
    (h : plans.range o = init ++ [(guid, plan)]) :
    (planNamePlanIDMap o plans).lookup plan.name = some plan.id := by
  rw [planNamePlanIDMap, h, List.foldl_append]
  exact AList.lookup_insert _

-- ---------------------------------------------------------------------------
-- Records
-- ---------------------------------------------------------------------------

theorem routeURIAndPlanName_ok {i routeURI planName u n : Str} :
    (InternalDataGroupRecord.mk i (routeURI ++ "|".toList ++ planName)).routeURIAndPlanName =
      .ok (u, n) ↔
      (u = routeURI ∧ n = planName) ∧ '|' ∉ routeURI ∧ '|' ∉ planName ∧ routeURI ≠ [] ∧
        planName ≠ [] := by
  have hdata : routeURI ++ "|".toList ++ planName = routeURI ++ '|' :: planName := by simp
  rw [InternalDataGroupRecord.routeURIAndPlanName, hdata]
  constructor
  · intro h
    split at h
    · next x y hsplit =>
      obtain ⟨hu, hn, rfl, rfl⟩ := split_eq_pair.mp hsplit
      split at h
      · cases h
      · next hne =>
        cases h
        exact ⟨⟨rfl, rfl⟩, hu, hn, fun he => hne (.inl he), fun he => hne (.inr he)⟩
    · cases h
  · rintro ⟨⟨rfl, rfl⟩, hu, hn, hune, hnne⟩
    simp only [split_eq_pair.mpr ⟨hu, hn, rfl, rfl⟩]
    rw [if_neg (by simp [hune, hnne])]

theorem recoverRecord_ok (h : recoverRecord planIDs record = some (some ru)) :
    ∃ routeURI planName, record.routeURIAndPlanName = .ok (routeURI, planName) ∧ ru.op = .bind ∧
      ru.uri = routeURI ∧ planIDs.lookup planName = some ru.planID ∧
      ∃ name, makeObjectName (Uri.string routeURI) = some name := by
  obtain ⟨routeURI, planID, ⟨planName, hparse, hlook, -⟩, hnew⟩ := recoverRecord_eq_update.mp h
  obtain ⟨hop, huri, hplan⟩ := newUpdate_ok hnew
  refine ⟨routeURI, planName, hparse, hop, huri, ?_, newUpdate_named hnew⟩
  rw [hplan (.inl rfl), hlook]

theorem recoverRecord_returns (hparse : record.routeURIAndPlanName = .ok (routeURI, planName))
    (hplan : planIDs.lookup planName = some planID) (hne : planID ≠ [])
    (hname : makeObjectName (Uri.string routeURI) = some name) :
    ∃ ru, recoverRecord planIDs record = some (some ru) ∧ ru.op = .bind ∧ ru.uri = routeURI ∧
      ru.planID = planID := by
  obtain ⟨ru, hnew, hop, huri, -, -, hid⟩ := newUpdate_spec .bind none planID hname
  refine ⟨ru, ?_, hop, huri, hid (.inl rfl)⟩
  exact recoverRecord_eq_update.mpr ⟨routeURI, planID, ⟨planName, hparse, hplan, hne⟩, hnew⟩

theorem recordAll_eq (r : F5Router) (bindings : List Binding) :
    r.recordAll bindings = { r with
      bindIDRouteURIPlanNameMap := bindings.foldl
        (fun m b => m.insert b.bindID (b.routeURI ++ "|".toList ++ r.planName b.planID))
        r.bindIDRouteURIPlanNameMap } := by
  induction bindings generalizing r with
  | nil => rfl
  | cons b bindings ih =>
    rw [F5Router.recordAll, List.foldl_cons]
    exact ih _

theorem recordAll_lookup {r : F5Router} (hempty : r.bindIDRouteURIPlanNameMap = ∅)
    (hnd : (bindings.map Binding.bindID).Nodup) :
    (r.recordAll bindings).bindIDRouteURIPlanNameMap.lookup bindID = some data ↔
      ∃ b ∈ bindings, b.bindID = bindID ∧ data = b.routeURI ++ "|".toList ++
        r.planName b.planID := by
  let value (b : Binding) : Str := b.routeURI ++ "|".toList ++ r.planName b.planID
  have hstored : ∀ b ∈ bindings, (bindings.foldl (fun m b => m.insert b.bindID (value b))
      (∅ : GoMap Str Str)).lookup b.bindID = some (value b) := by
    intro b hb
    obtain ⟨d, hd, hkey, hlook⟩ :=
      GoMap.lookup_foldl_insert_of_mem Binding.bindID value ∅ ⟨b, hb, rfl⟩
    exact List.inj_on_of_nodup_map hnd hd hb hkey ▸ hlook
  rw [recordAll_eq, hempty]
  constructor
  · intro hlook
    by_cases hin : ∃ b ∈ bindings, b.bindID = bindID
    · obtain ⟨b, hb, rfl⟩ := hin
      exact ⟨b, hb, rfl, Option.some.inj (hlook.symm.trans (hstored b hb))⟩
    · have hnone := GoMap.lookup_foldl_insert_of_ne Binding.bindID value ∅ fun b hb hkey =>
        hin ⟨b, hb, hkey⟩
      cases hnone.symm.trans hlook
  · rintro ⟨b, hb, rfl, rfl⟩
    exact hstored b hb

-- ---------------------------------------------------------------------------
-- The round trip
-- ---------------------------------------------------------------------------

structure Binding.Recoverable (plans : List Plan) (plan : Plan) (b : Binding) : Prop where
  routeURI : b.routeURI ≠ [] ∧ '|' ∉ b.routeURI
  named : (makeObjectName (Uri.string b.routeURI)).isSome = true
  planName : '|' ∉ plan.name
  unique : ∀ p ∈ plans, p.name = plan.name → p.content = plan.content

section
variable {plans : List Plan} {guids guids' : List Str} {r r' : F5Router} {bindings : List Binding}

theorem recordAll_records (hempty : r.bindIDRouteURIPlanNameMap = ∅)
    (hnd : (bindings.map Binding.bindID).Nodup) :
    record ∈ ((r.recordAll bindings).brokerDataGroup o).records ↔
      ∃ b ∈ bindings, record = ⟨b.bindID, b.routeURI ++ "|".toList ++ r.planName b.planID⟩ := by
  rw [brokerDataGroup_records, recordAll_lookup hempty hnd]
  constructor
  · rintro ⟨b, hb, hid, hdata⟩
    obtain ⟨name, data⟩ := record
    cases hid
    cases hdata
    exact ⟨b, hb, rfl⟩
  · rintro ⟨b, hb, rfl⟩
    exact ⟨b, hb, rfl, rfl⟩

theorem Restores.update (hr' : r'.plansMap = processPlans plans guids') (hg' : Guids plans guids')
    (hempty : r.bindIDRouteURIPlanNameMap = ∅) (hnd : (bindings.map Binding.bindID).Nodup)
    (h : Restores o o' (r.recordAll bindings) r' bindings) (hb : b ∈ bindings)
    (hplan : r.plansMap.lookup b.planID = some plan) :
    ((b.routeURI ≠ [] ∧ '|' ∉ b.routeURI) ∧ (makeObjectName (Uri.string b.routeURI)).isSome = true ∧
      '|' ∉ plan.name) ∧
    ∃ planID plan', (planNamePlanIDMap o' r'.plansMap).lookup plan.name = some planID ∧
      r'.plansMap.lookup planID = some plan' ∧ plan'.content = plan.content := by
  obtain ⟨r₁, updates, hproc, hall⟩ := h
  obtain ⟨us, hmap, hproc⟩ := Option.bind_eq_some_iff.mp hproc
  cases hproc
  obtain ⟨⟨ru, hru, -, huri, p, plan', hp, hplan', hcontent⟩, -⟩ := hall b hb
  rw [recordAll_eq] at hp
  cases hp.symm.trans hplan
  have hmem : some (some ru) ∈ us.map some := List.mem_map_of_mem (List.reduceOption_mem_iff.mp hru)
  rw [← mapM_eq_some.mp hmap] at hmem
  obtain ⟨record, hrecord, hrecover⟩ := List.mem_map.mp hmem
  obtain ⟨b₁, -, rfl⟩ := (recordAll_records hempty hnd).mp hrecord
  obtain ⟨routeURI, name, hparse, -, huri', hid, hnamed⟩ := recoverRecord_ok hrecover
  obtain ⟨⟨rfl, rfl⟩, hroute, hname, hrne, -⟩ := routeURIAndPlanName_ok.mp hparse
  obtain ⟨guid, q, hq, hqname, hqid⟩ := planNamePlanIDMap_inv hid
  have hplanq : q = plan' := by
    rw [hr'] at hq
    rw [← hqid, (processPlans_id hg' hq).1, hr', hq] at hplan'
    exact Option.some.inj hplan'
  have hsame : r.planName b₁.planID = plan.name := by
    have hname : plan'.content.name = plan.content.name := congrArg Plan.name hcontent
    rw [← hqname, hplanq]
    exact hname
  have heq : b₁.routeURI = b.routeURI := huri'.symm.trans huri
  rw [hsame] at hname hid
  rw [heq] at hroute hrne hnamed
  exact ⟨⟨⟨hrne, hroute⟩, Option.isSome_iff_exists.mpr hnamed, hname⟩, ru.planID, plan', hid,
    hplan', hcontent⟩

theorem Restores.recoverable (hr' : r'.plansMap = processPlans plans guids')
    (hg' : Guids plans guids') (hempty : r.bindIDRouteURIPlanNameMap = ∅)
    (hnd : (bindings.map Binding.bindID).Nodup)
    (h : ∀ o', Restores o o' (r.recordAll bindings) r' bindings) (hb : b ∈ bindings)
    (hplan : r.plansMap.lookup b.planID = some plan) : b.Recoverable plans plan := by
  obtain ⟨⟨hroute, hnamed, hname⟩, -⟩ := (h .stored).update hr' hg' hempty hnd hb hplan
  refine ⟨hroute, hnamed, hname, fun p hp hpname => ?_⟩
  -- an order in which this plan is the last of its name
  obtain ⟨guid, hguid⟩ := hg'.exists_guid hp
  have hlook := (processPlans_lookup hg').mpr ⟨p, hguid, rfl⟩
  rw [← hr'] at hlook
  obtain ⟨o', init, hlast⟩ := exists_order_last hlook
  obtain ⟨-, planID, plan', hid, hplan', hcontent⟩ := (h o').update hr' hg' hempty hnd hb hplan
  have hown := planNamePlanIDMap_last hlast
  rw [← hpname] at hid
  cases hown.symm.trans hid
  cases hlook.symm.trans hplan'
  exact hcontent

theorem restores_of_recoverable (hr : r.plansMap = processPlans plans guids)
    (hr' : r'.plansMap = processPlans plans guids') (hg : Guids plans guids)
    (hg' : Guids plans guids') (hempty : r.bindIDRouteURIPlanNameMap = ∅)
    (hnd : (bindings.map Binding.bindID).Nodup) (hnames : ∀ p ∈ plans, p.name ≠ [])
    (h : ∀ b ∈ bindings, ∃ plan, r.plansMap.lookup b.planID = some plan ∧ b.Recoverable plans plan)
    (o o' : Order) : Restores o o' (r.recordAll bindings) r' bindings := by
  -- what the record of a binding gives
  have hrecord : ∀ b ∈ bindings, ∃ ru plan plan', recoverRecord (planNamePlanIDMap o' r'.plansMap)
      ⟨b.bindID, b.routeURI ++ "|".toList ++ r.planName b.planID⟩ = some (some ru) ∧ ru.op = .bind ∧
      ru.uri = b.routeURI ∧ r.plansMap.lookup b.planID = some plan ∧
      r'.plansMap.lookup ru.planID = some plan' ∧
      plan'.content = plan.content := by
    intro b hb
    obtain ⟨plan, hplan, hrec⟩ := h b hb
    obtain ⟨-, -, p, hp, hpname, hpcontent⟩ := processPlans_id hg (hr ▸ hplan)
    obtain ⟨guid, hguid⟩ := hg'.exists_guid hp
    have hlook := (processPlans_lookup hg').mpr ⟨p, hguid, rfl⟩
    obtain ⟨guid', plan', hplan', hname', hid⟩ := planNamePlanIDMap_lookup o' hlook
    obtain ⟨hown, hne, p', hp', hpname', hpcontent'⟩ := processPlans_id hg' hplan'
    obtain ⟨name, hnamed⟩ := Option.isSome_iff_exists.mp hrec.named
    have hpn : r.planName b.planID = plan.name := by simp [F5Router.planName, hplan]
    have hparse := (routeURIAndPlanName_ok (i := b.bindID)).mpr
      ⟨⟨rfl, rfl⟩, hrec.routeURI.2, hrec.planName, hrec.routeURI.1, hpname ▸ hnames p hp⟩
    rw [hr', hpn]
    obtain ⟨ru, hru, hop, huri, hplanID⟩ :=
      recoverRecord_returns hparse (hpname ▸ hid) (hown ▸ hne) hnamed
    refine ⟨ru, plan, plan', hru, hop, huri, hplan, ?_, ?_⟩
    · rw [hplanID, hown]
      exact hplan'
    · rw [← hpcontent']
      exact hrec.unique p' hp' (hpname'.trans (hname'.trans hpname))
  have hreturns : (((r.recordAll bindings).brokerDataGroup o).records.mapM
      (recoverRecord (planNamePlanIDMap o' r'.plansMap))).isSome = true := by
    refine mapM_isSome_iff.mpr fun record hmem => ?_
    obtain ⟨b, hb, rfl⟩ := (recordAll_records hempty hnd).mp hmem
    obtain ⟨ru, plan, plan', hru, -⟩ := hrecord b hb
    rw [hru]
    rfl
  obtain ⟨us, hus⟩ := Option.isSome_iff_exists.mp hreturns
  let records := ((r.recordAll bindings).brokerDataGroup o).records
  refine ⟨{ r' with bindIDRouteURIPlanNameMap := recoveredMap records }, us.reduceOption, ?_,
    fun b hb => ⟨?_, ?_⟩⟩
  · rw [F5Router.processBrokerDataGroup, hus]
    rfl
  · obtain ⟨ru, plan, plan', hru, hop, huri, hplan, hplan', hcontent⟩ := hrecord b hb
    have hmem : some ru ∈ us := by
      have hin := List.mem_map_of_mem (f := recoverRecord (planNamePlanIDMap o' r'.plansMap))
        ((recordAll_records (o := o) hempty hnd).mpr ⟨b, hb, rfl⟩)
      rw [mapM_eq_some.mp hus, hru] at hin
      simpa using hin
    refine ⟨ru, List.reduceOption_mem_iff.mpr hmem, hop, huri, plan, plan', ?_, hplan', hcontent⟩
    rw [recordAll_eq]
    exact hplan
  · rw [F5Router.getRouteURIFromBindID, F5Router.getRouteURIFromBindID, recoveredMap_lookup]

end

/-- Whatever order the loops take, all bindings are restored by a restart
exactly when each has a route that can be named, no bar in its route or the
name of its plan, and no other plan of that name. -/
theorem bindings_survive_iff {plans : List Plan} {r r' : F5Router} {bindings : List Binding}
    (hr : r.plansMap = processPlans plans guids)
    (hr' : r'.plansMap = processPlans plans guids') (hg : Guids plans guids)
    (hg' : Guids plans guids') (hnames : ∀ p ∈ plans, p.name ≠ [])
    (hempty : r.bindIDRouteURIPlanNameMap = ∅) (hnd : (bindings.map Binding.bindID).Nodup)
    (hverified : ∀ b ∈ bindings, b.planID ∈ r.plansMap) :
    (∀ o o', Restores o o' (r.recordAll bindings) r' bindings) ↔
      ∀ b ∈ bindings, ∀ plan, r.plansMap.lookup b.planID = some plan →
        b.Recoverable plans plan := by
  constructor
  · intro h b hb plan hplan
    exact Restores.recoverable hr' hg' hempty hnd (h .stored) hb hplan
  · intro h
    refine restores_of_recoverable hr hr' hg hg' hempty hnd hnames fun b hb => ?_
    obtain ⟨plan, hplan⟩ := GoMap.mem_iff.mp (hverified b hb)
    exact ⟨plan, hplan, h b hb plan hplan⟩

namespace Sample

def plansNamed (names : List String) : List Plan :=
  names.map fun name => { name := name.toList, pool := { balance := name.toList } }

def firstGuids : List Str := ["1".toList, "2".toList]

def secondGuids : List Str := ["3".toList, "4".toList]

def binding : Binding := ⟨"bind".toList, "*.a".toList, "1".toList⟩

theorem guids_first (a b : String) : Guids (plansNamed [a, b]) firstGuids :=
  ⟨rfl, by decide, by decide⟩

theorem guids_second (a b : String) : Guids (plansNamed [a, b]) secondGuids :=
  ⟨rfl, by decide, by decide⟩

end Sample

theorem bindings_survive_iff_sample :
    ∃ r ∈ boot jsonCodec Sample.config
      (processPlans (Sample.plansNamed ["gold", "silver"]) Sample.firstGuids) none,
    ∃ r' ∈ boot jsonCodec Sample.config
      (processPlans (Sample.plansNamed ["gold", "silver"]) Sample.secondGuids) none,
      ∀ o o', Restores o o' (r.recordAll [Sample.binding]) r' [Sample.binding] := by
  have hboot :
      ∃ r ∈ boot jsonCodec Sample.config
        (processPlans (Sample.plansNamed ["gold", "silver"]) Sample.firstGuids) none,
      ∃ r' ∈ boot jsonCodec Sample.config
        (processPlans (Sample.plansNamed ["gold", "silver"]) Sample.secondGuids) none,
        r.plansMap.entries =
          (processPlans (Sample.plansNamed ["gold", "silver"]) Sample.firstGuids).entries ∧
        r'.plansMap.entries =
          (processPlans (Sample.plansNamed ["gold", "silver"]) Sample.secondGuids).entries ∧
        r.bindIDRouteURIPlanNameMap.entries = [] := by
    decide +kernel
  obtain ⟨r, hr, r', hr', hplans, hplans', hempty⟩ := hboot
  have hplans := AList.ext hplans
  refine ⟨r, hr, r', hr', (bindings_survive_iff hplans (AList.ext hplans') (Sample.guids_first _ _)
    (Sample.guids_second _ _) (by decide) (AList.ext hempty) (by decide) ?_).mpr ?_⟩
  · rw [hplans]
    decide
  · intro b hb plan hplan
    rw [List.mem_singleton.mp hb, hplans] at hplan
    rw [List.mem_singleton.mp hb]
    have hgold : plan = { name := "gold".toList, pool := { balance := "gold".toList },
                          id := "1".toList } :=
      (Option.some.inj hplan).symm
    subst hgold
    exact ⟨by decide, by decide, by decide, by decide⟩

/-- The name of a plan with a bar comes apart, and no update is queued. -/
theorem recovery_loses_binding :
    ∃ r ∈ boot jsonCodec Sample.config
      (processPlans (Sample.plansNamed ["gold|eu", "silver"]) Sample.firstGuids) none,
    ∃ r' ∈ boot jsonCodec Sample.config
      (processPlans (Sample.plansNamed ["gold|eu", "silver"]) Sample.secondGuids) none,
      (r'.processBrokerDataGroup .stored
        ((r.recordAll [Sample.binding]).brokerDataGroup .stored)).map Prod.snd =
        some [] ∧
      ¬ Restores .stored .stored (r.recordAll [Sample.binding]) r' [Sample.binding] := by
  have hboot :
      ∃ r ∈ boot jsonCodec Sample.config
        (processPlans (Sample.plansNamed ["gold|eu", "silver"]) Sample.firstGuids) none,
      ∃ r' ∈ boot jsonCodec Sample.config
        (processPlans (Sample.plansNamed ["gold|eu", "silver"]) Sample.secondGuids) none,
        (r'.processBrokerDataGroup .stored
          ((r.recordAll [Sample.binding]).brokerDataGroup .stored)).map Prod.snd =
          some [] := by
    decide +kernel
  obtain ⟨r, hr, r', hr', hnone⟩ := hboot
  refine ⟨r, hr, r', hr', hnone, ?_⟩
  rintro ⟨r₁, updates, hproc, hall⟩
  rw [hproc] at hnone
  cases hnone
  obtain ⟨⟨ru, hru, -⟩, -⟩ := hall Sample.binding List.mem_cons_self
  cases hru

end BigipCtlr
