import BigipCtlr.F5Router.Controller
import BigipCtlr.F5Router.Members
import BigipCtlr.RoutingTable.Table

/-!
# From the routing table to the pools

The routing table submits its updates to the work queue of the controller
while the worker goes on. The updates on their way lead, backend by backend,
from what the pools list to what the table lists.
-/

namespace BigipCtlr

open Go Lib

-- ---------------------------------------------------------------------------
-- The pools of the route ports
-- ---------------------------------------------------------------------------

def BackendServerKey.member (bk : BackendServerKey) : Member :=
  ⟨bk.address, bk.port, "user-enabled".toList⟩

def F5Router.lists (c : Config) (r : F5Router) (t : Triple) : Bool :=
  (r.poolResources.lookup (createTCPObjectName c t.1)).any fun p => t.2.member ∈ p.members

structure F5Router.Ports (c : Config) (r : F5Router) : Prop where
  config : r.c = c
  external : (parseIP c.bigIP.externalAddr).isSome = true
  nodup : ∀ port p, r.poolResources.lookup (createTCPObjectName c port) = some p → p.members.Nodup
  backends : ∀ port p, r.poolResources.lookup (createTCPObjectName c port) = some p →
    ∀ m ∈ p.members, m.session = "user-enabled".toList

theorem createTCPObjectName_injective
    (h : createTCPObjectName c port = createTCPObjectName c port') :
    port = port' := by
  have hcons := List.append_cancel_left h
  exact UInt16.toNat_inj.mp (Int.ofNat_inj.mp (itoa_injective (List.cons.inj hcons).2))

theorem UpdateTCP.From.name {c : Config} {tu : UpdateTCP} (h : tu.From c) :
    tu.name = createTCPObjectName c tu.routePort := by
  rw [UpdateTCP.name, h.config]

theorem UpdateTCP.From.member {c : Config} {tu : UpdateTCP} (h : tu.From c) :
    tu.member = tu.triple.2.member := by
  cases hm : tu.member with
  | mk address port session =>
    have hs := h.session
    rw [hm] at hs
    simp only at hs
    simp [UpdateTCP.triple, BackendServerKey.member, hm, hs]

theorem BackendServerKey.member_injective {bk bk' : BackendServerKey} (h : bk.member = bk'.member) :
    bk = bk' := by
  cases bk
  cases bk'
  simpa [BackendServerKey.member] using h

theorem joinPool_members {pool : Pool} (old : Option Pool) (hm : pool.members = [m]) :
    (∀ x, x ∈ (joinPool old pool).members ↔ x = m ∨ ∃ p, old = some p ∧ x ∈ p.members) ∧
      ((∀ p, old = some p → p.members.Nodup) → (joinPool old pool).members.Nodup) := by
  cases old with
  | none => simp [joinPool, hm]
  | some p =>
    simp only [joinPool, hm, List.head?_cons, Option.some.injEq, List.any_eq_true,
      decide_eq_true_eq, exists_eq_right, exists_eq_left']
    split
    · next hin =>
      refine ⟨fun x => ⟨.inr, ?_⟩, fun h => h p rfl⟩
      rintro (rfl | hx)
      · exact hin
      · exact hx
    · next hin =>
      refine ⟨fun x => by simp [or_comm], fun h => ?_⟩
      exact List.nodup_append'.mpr ⟨h p rfl, List.nodup_singleton m,
        List.disjoint_singleton.mpr hin⟩

theorem F5Router.lists_iff {c : Config} {r : F5Router} {t : Triple} : r.lists c t = true ↔
    ∃ p, r.poolResources.lookup (createTCPObjectName c t.1) = some p ∧ t.2.member ∈ p.members := by
  rw [F5Router.lists]
  cases r.poolResources.lookup (createTCPObjectName c t.1) <;> simp

theorem F5Router.Ports.turn {c : Config} {r r' : F5Router} (h : r.Ports c)
    (hf : UpdateTCP.From c tu) (ht : r.Turns tu.name x r')
    (hnd : ∀ p, x.pool = some p → p.members.Nodup)
    (hmem : ∀ m, (∃ p, x.pool = some p ∧ m ∈ p.members) ↔
      if m = tu.member then tu.op = .add
      else ∃ p, r.poolResources.lookup tu.name = some p ∧ m ∈ p.members) :
    r'.Ports c ∧ ∀ t, r'.lists c t = if t = tu.triple then decide (tu.op = .add)
      else r.lists c t := by
  have hown : r'.poolResources.lookup (createTCPObjectName c tu.routePort) = x.pool := by
    rw [← hf.name]
    exact congrArg RouteState.pool ht.own
  have hother : ∀ port, port ≠ tu.routePort → r'.poolResources.lookup (createTCPObjectName c port) =
      r.poolResources.lookup (createTCPObjectName c port) := by
    intro port hport
    refine congrArg RouteState.pool (ht.other _ fun he => hport ?_)
    exact createTCPObjectName_injective (he.trans hf.name)
  rw [hf.name] at hmem
  refine ⟨⟨ht.c.trans h.config, h.external, fun port p hp => ?_, fun port p hp m hm => ?_⟩, ?_⟩
  · by_cases hport : port = tu.routePort
    · subst hport
      exact hnd p (hown ▸ hp)
    · exact h.nodup port p (hother port hport ▸ hp)
  · by_cases hport : port = tu.routePort
    · subst hport
      have hin := (hmem m).mp ⟨p, hown ▸ hp, hm⟩
      split at hin
      · next heq => exact heq ▸ hf.session
      · obtain ⟨p', hp', hm'⟩ := hin
        exact h.backends _ p' hp' m hm'
    · exact h.backends port p (hother port hport ▸ hp) m hm
  · rintro ⟨port, bk⟩
    rw [Bool.eq_iff_iff, F5Router.lists_iff]
    by_cases hport : port = tu.routePort
    · subst hport
      simp only [hown, hmem, hf.member]
      by_cases hbk : bk = tu.triple.2
      · subst hbk
        simp [UpdateTCP.triple]
      · have hne : bk.member ≠ tu.triple.2.member :=
          fun he => hbk (BackendServerKey.member_injective he)
        have hne' : (tu.routePort, bk) ≠ tu.triple := fun he => hbk (congrArg Prod.snd he)
        rw [if_neg hne, if_neg hne', F5Router.lists_iff]
    · have hne : (port, bk) ≠ tu.triple := fun he => hport (congrArg Prod.fst he)
      rw [if_neg hne, hother port hport, F5Router.lists_iff]

theorem F5Router.Ports.handle {c : Config} {r : F5Router} (h : r.Ports c) (hf : UpdateTCP.From c tu)
    (codec : Codec) : ∃ r', r.handle codec (.tcp tu) = some r' ∧ r'.Ports c ∧
      ∀ t, r'.lists c t = if t = tu.triple then decide (tu.op = .add) else r.lists c t := by
  obtain ⟨rs, hrs⟩ := tu.createResources_returns (hf.config ▸ h.external) r.c
  have hname := hf.name
  rcases hf.op with hop | hop
  · refine ⟨r.processTCPRouteAdd tu, by simp only [F5Router.handle, hop], ?_⟩
    obtain ⟨-, hno⟩ | ⟨rs', hrs', ht, -⟩ := processTCPRouteAdd_cases r tu
    · exact absurd hrs (hno rs)
    · obtain ⟨-, -, hm, -⟩ := UpdateTCP.createResources_ok hrs'
      obtain ⟨hmem, hnd⟩ := joinPool_members (r.poolResources.lookup tu.name) hm
      refine h.turn hf ht ?_ fun m => ?_
      · rintro p ⟨⟩
        exact hnd fun p hp => h.nodup _ p (hname ▸ hp)
      · simp only [RouteState.add, Option.some.injEq, exists_eq_left', hop]
        refine (hmem m).trans ?_
        by_cases heq : m = tu.member <;> simp [heq]
  · have hnd : ∀ p, r.poolResources.lookup tu.name = some p → p.members.Nodup := fun p hp =>
      h.nodup _ p (hname ▸ hp)
    have hzero : tu.member ≠ Member.zero := by
      intro he
      have hs := hf.session
      rw [he] at hs
      cases hs
    obtain ⟨r', hstep⟩ := processTCPRouteRemove_returns (r := r) hrs fun p hp => by
      obtain ⟨ms, hms, -⟩ := removeMember_perm (hnd p hp) hzero
      exact ⟨ms, hms⟩
    refine ⟨r', by simp only [F5Router.handle, hop, hstep], ?_⟩
    obtain ⟨rfl, hno⟩ | ⟨p, ms, hp, hms, ht, -⟩ := processTCPRouteRemove_cases hstep
    · have hnone : r'.poolResources.lookup tu.name = none := hno.resolve_left fun hc => hc rs hrs
      refine h.turn hf (Turns.refl r' tu.name) hnd fun m => ?_
      simp [F5Router.route, hnone, hop]
    · obtain ⟨ms', hms', hperm⟩ := removeMember_perm (hnd p hp) hzero
      cases hms.symm.trans hms'
      have hmem : ∀ m, m ∈ ms ↔ m ≠ tu.member ∧ m ∈ p.members := fun m => by
        rw [hperm.mem_iff, (hnd p hp).mem_erase_iff]
      refine h.turn hf ht (fun q hq => ?_) fun m => ?_
      · split at hq
        · cases hq
        · cases hq
          exact hperm.nodup_iff.mpr ((hnd p hp).erase _)
      · simp only [hp, Option.some.injEq, exists_eq_left', hop]
        split
        · next hnil =>
          have hout := hmem m
          rw [hnil] at hout
          by_cases heq : m = tu.member <;> simp_all
        · simp only [Option.some.injEq, exists_eq_left', hmem]
          by_cases heq : m = tu.member <;> simp [heq]

-- ---------------------------------------------------------------------------
-- The system
-- ---------------------------------------------------------------------------

/-- `pending` is what the call that has the lock of the table has still to
submit. -/
structure Delivery where
  controller : Controller
  table : RoutingTable
  pending : List UpdateTCP

inductive DeliveryEvent
  | call (call : TableCall)
  | send
  | turn (o : Order)

def Delivery.step (codec : Codec) (s : Delivery) : DeliveryEvent → Option Delivery
  | .call call =>
    if s.pending = [] then
      some { s with table := (s.table.call call).1, pending := (s.table.call call).2.2 }
    else none
  | .send =>
    match s.pending with
    | [] => none
    | tu :: rest =>
      some { s with controller := s.controller.updateRoute (.tcp tu), pending := rest }
  | .turn o => (s.controller.turn codec o).map fun k => { s with controller := k }

def Delivery.start (r : F5Router) : Delivery := ⟨.start r, newRoutingTable r.c true, []⟩

/-- The pool of every route port has the members the table lists for it. -/
structure Delivery.Mirrored (s : Delivery) : Prop where
  members : ∀ port m,
    (∃ p, s.controller.router.poolResources.lookup (createTCPObjectName s.table.c port) = some p ∧
      m ∈ p.members) ↔
    m.session = "user-enabled".toList ∧ s.table.backendExists port ⟨m.address, m.port⟩ = true
  nodup : ∀ port p,
    s.controller.router.poolResources.lookup (createTCPObjectName s.table.c port) = some p →
    p.members.Nodup

def Delivery.Fresh (s : Delivery) : DeliveryEvent → Prop
  | .send => ∀ tu ∈ s.pending.head?, Item.tcp tu ∉ s.controller.queue.dirty
  | .call _ | .turn _ => True

instance (s : Delivery) : ∀ e, Decidable (s.Fresh e)
  | .send =>
    inferInstanceAs (Decidable (∀ tu ∈ s.pending.head?, Item.tcp tu ∉ s.controller.queue.dirty))
  | .call _ | .turn _ => inferInstanceAs (Decidable True)

-- ---------------------------------------------------------------------------
-- The updates on their way
-- ---------------------------------------------------------------------------

def Item.want (t : Triple) : Item → Option Bool
  | .http _ => none
  | .tcp tu => if tu.triple = t then some (tu.op = .add) else none

def Phase.unhandled : Phase → List Item
  | .got item => [item]
  | .waiting | .handled _ | .draining _ | .rendered _ _ | .finished _ => []

/-- The updates on their way, in the order in which they will be handled. -/
def Delivery.ahead (s : Delivery) : List Item :=
  s.controller.phase.unhandled ++ s.controller.queue.backlog s.controller.phase.item ++
    s.pending.map .tcp

structure Delivery.Sound (c : Config) (s : Delivery) : Prop where
  queue : s.controller.queue.Sound s.controller.phase.item
  ports : s.controller.router.Ports c
  config : s.table.c = c
  table : s.table.Sound
  made : ∀ item ∈ s.controller.queue.queue ++ s.controller.phase.item.toList ++ s.pending.map .tcp,
    ∃ tu, item = .tcp tu ∧ tu.From c
  handled : ∀ tu, s.controller.phase.item = some (.tcp tu) → s.controller.phase.unhandled = [] →
    s.controller.router.lists c tu.triple = decide (tu.op = .add)
  /-- Backend by backend, what is ahead leads from the pools to the table. -/
  leads : ∀ t, run switch (s.controller.router.lists c t) (s.ahead.filterMap (Item.want t)) =
    some (s.table.has t)

theorem want_map (t : Triple) (us : List UpdateTCP) :
    (us.map Item.tcp).filterMap (Item.want t) = ofKey t (us.map UpdateTCP.edit) := by
  induction us with
  | nil => rfl
  | cons u us ih =>
    by_cases hu : u.triple = t <;> simp [Item.want, ofKey, UpdateTCP.edit, hu] at ih ⊢ <;> exact ih

theorem eq_of_want (hf : UpdateTCP.From c tu) (hf' : UpdateTCP.From c tu')
    (ht : tu.triple = tu'.triple) (hw : decide (tu.op = .add) = decide (tu'.op = .add)) :
    tu = tu' := by
  have hop : tu.op = tu'.op := by
    rcases hf.op with h | h <;> rcases hf'.op with h' | h' <;> simp_all
  have hm : tu.member = tu'.member := by rw [hf.member, hf'.member, ht]
  cases tu
  cases tu'
  simp only [UpdateTCP.triple, Prod.mk.injEq] at ht
  simp only [UpdateTCP.mk.injEq]
  exact ⟨hf.config.trans hf'.config.symm, hop, ht.1, hm⟩

theorem Phase.unhandled_cases (p : Phase) :
    p.unhandled = [] ∨ ∃ item, p.item = some item ∧ p.unhandled = [item] := by
  cases p <;> simp [Phase.unhandled, Phase.item]

theorem want_eq_some (h : Item.want t item = some w) :
    ∃ tu, item = .tcp tu ∧ tu.triple = t ∧ decide (tu.op = .add) = w := by
  cases item with
  | http ru => cases h
  | tcp tu =>
    simp only [Item.want, Option.ite_none_right_eq_some, Option.some.injEq] at h
    exact ⟨tu, rfl, h⟩

/-- While an update is deferred, the opposite one is waiting. -/
theorem Delivery.Sound.opposite (h : Delivery.Sound c s)
    (hy : Item.tcp d ∈ s.controller.queue.deferred s.controller.phase.item) :
    ∃ u, Item.tcp u ∈ s.controller.queue.dirty ∧ UpdateTCP.From c u ∧ u.triple = d.triple ∧
      decide (u.op = .add) = !decide (d.op = .add) := by
  obtain ⟨hcur, hdirty⟩ := WorkQueue.mem_dirty_of_deferred hy
  have hown : Item.want d.triple (.tcp d) = some (decide (d.op = .add)) := if_pos rfl
  have hdef : s.controller.queue.deferred s.controller.phase.item = [.tcp d] := by
    simp [WorkQueue.deferred, hcur, hdirty, Option.filter]
  -- from where the item in work leads, what is queued goes on to its second time
  have hrun : run switch (decide (d.op = .add))
      (s.controller.queue.queue.filterMap (Item.want d.triple) ++
        decide (d.op = .add) :: (s.pending.map .tcp).filterMap (Item.want d.triple)) =
      some (s.table.has d.triple) := by
    have hleads := h.leads d.triple
    simp only [Delivery.ahead, WorkQueue.backlog, hdef, List.filterMap_append, List.append_assoc,
      List.filterMap_cons, hown, List.cons_append, List.nil_append] at hleads
    obtain hnil | ⟨item, hitem, hone⟩ := s.controller.phase.unhandled_cases
    · rw [hnil, h.handled d hcur hnil] at hleads
      exact hleads
    · cases hcur.symm.trans hitem
      simp only [hone, List.filterMap_cons, hown, List.filterMap_nil, List.cons_append,
        List.nil_append] at hleads
      obtain ⟨b, hb, hrest⟩ := run_cons_eq_some.mp hleads
      rwa [(switch_eq_some.mp hb).2] at hrest
  obtain ⟨z, hz, hwant⟩ := List.mem_filterMap.mp (opposite_mem hrun)
  obtain ⟨u, rfl, ht, hw⟩ := want_eq_some hwant
  obtain ⟨_, heq, hu⟩ := h.made (.tcp u) (by simp [hz])
  cases heq
  exact ⟨u, (h.queue.queued _ hz).1, hu, ht, hw⟩

/-- A fresh update does not overtake one of its backend. -/
theorem Delivery.Sound.deferred (h : Delivery.Sound c s) (hpend : s.pending = tu :: rest)
    (hfresh : Item.tcp tu ∉ s.controller.queue.dirty) (y : Item)
    (hy : y ∈ s.controller.queue.deferred s.controller.phase.item) :
    Item.want tu.triple y = none := by
  obtain ⟨hcur, hdirty⟩ := WorkQueue.mem_dirty_of_deferred hy
  obtain ⟨d, rfl, hd⟩ := h.made y (by simp [hcur])
  obtain ⟨_, heq, htu⟩ := h.made (.tcp tu) (by simp [hpend])
  cases heq
  rw [Item.want, ite_eq_right_iff]
  intro ht
  obtain ⟨u, hu, hfrom, htriple, hw⟩ := h.opposite hy
  by_cases hop : decide (d.op = .add) = decide (tu.op = .add)
  · exact absurd (eq_of_want hd htu ht hop ▸ hdirty) hfresh
  · refine absurd (eq_of_want hfrom htu (htriple.trans ht) (hw.trans ?_) ▸ hu) hfresh
    exact Bool.not_eq.mpr hop

-- ---------------------------------------------------------------------------
-- Steps
-- ---------------------------------------------------------------------------

theorem Delivery.Sound.call (h : Delivery.Sound c s) (hpend : s.pending = []) (call : TableCall) :
    Delivery.Sound c { s with table := (s.table.call call).1,
                              pending := (s.table.call call).2.2 } := by
  have hs := call_sends h.table call
  refine ⟨h.queue, h.ports, hs.config.trans h.config, hs.sound, fun item hitem => ?_,
    h.handled, fun t => ?_⟩
  · rcases List.mem_append.mp hitem with hold | hnew
    · exact h.made item (List.mem_append_left _ hold)
    · obtain ⟨tu, htu, rfl⟩ := List.mem_map.mp hnew
      exact ⟨tu, rfl, h.config ▸ hs.made tu htu⟩
  · have hleads := h.leads t
    simp only [Delivery.ahead, hpend, List.map_nil, List.append_nil] at hleads
    rw [Delivery.ahead, List.filterMap_append, want_map]
    exact run_append_eq_some.mpr ⟨_, hleads, run_toggle_ofKey hs.edits t⟩

theorem Delivery.Sound.send (h : Delivery.Sound c s) (hpend : s.pending = tu :: rest)
    (hfresh : Item.tcp tu ∉ s.controller.queue.dirty) :
    Delivery.Sound c { s with controller := s.controller.updateRoute (.tcp tu),
                              pending := rest } := by
  refine ⟨h.queue.add _, h.ports, h.config, h.table, fun item hitem => h.made item ?_,
    h.handled, fun t => ?_⟩
  · simp only [Controller.updateRoute, List.mem_append] at hitem
    rcases hitem with (hq | hcur) | hrest
    · rcases WorkQueue.mem_queue_add hq with rfl | hq
      · simp [hpend]
      · simp [hq]
    · simp [hcur]
    · simp [hpend, hrest]
  · have hadd : ((s.controller.queue.add (.tcp tu)).backlog s.controller.phase.item).filterMap
        (Item.want t) =
        (s.controller.queue.backlog s.controller.phase.item ++ [Item.tcp tu]).filterMap
          (Item.want t) := by
      refine h.queue.add_backlog hfresh fun hx y hy => ?_
      have ht : tu.triple = t := by
        by_contra hne
        simp [Item.want, hne] at hx
      exact ht ▸ h.deferred hpend hfresh y hy
    have hleads := h.leads t
    simp only [Delivery.ahead, hpend, List.map_cons, List.filterMap_append, List.append_assoc]
      at hleads
    simp only [Delivery.ahead, Controller.updateRoute, List.filterMap_append, hadd,
      List.append_assoc]
    rwa [← List.singleton_append, List.filterMap_append] at hleads

theorem Delivery.Sound.turn (h : Delivery.Sound c s) (hturn : s.controller.turn codec o = some k) :
    Delivery.Sound c { s with controller := k } := by
  have hq := Controller.turn_sound h.queue hturn
  obtain ⟨⟨r, q, phase, w⟩, table, pending⟩ := s
  cases phase with
  | waiting =>
    obtain ⟨⟨item, q'⟩, hget, rfl⟩ := Option.map_eq_some_iff.mp hturn
    have hqueue : q.queue = item :: q'.queue := (WorkQueue.get_eq_some hget).1
    refine ⟨hq, h.ports, h.config, h.table, fun x hx => h.made x ?_,
      fun tu _ hnil => ?_, fun t => ?_⟩
    · simpa [hqueue, Phase.item, or_comm, or_assoc, or_left_comm] using hx
    · cases hnil
    · have hleads := h.leads t
      simp only [Delivery.ahead, Phase.item, WorkQueue.get_backlog hget] at hleads
      exact hleads
  | got item =>
    obtain ⟨r', hr, rfl⟩ := Option.map_eq_some_iff.mp hturn
    obtain ⟨tu, rfl, htu⟩ := h.made item (by simp [Phase.item])
    obtain ⟨r₁, hr₁, hports, hlists⟩ := h.ports.handle htu codec
    cases hr.symm.trans hr₁
    refine ⟨hq, hports, h.config, h.table, h.made, fun tu' htu' _ => ?_, fun t => ?_⟩
    · cases htu'
      rw [hlists, if_pos rfl]
    · have hleads := h.leads t
      simp only [Delivery.ahead, Phase.unhandled, List.cons_append, List.nil_append,
        List.filterMap_cons, Item.want] at hleads
      simp only [Delivery.ahead, Phase.unhandled, List.nil_append, hlists]
      by_cases ht : tu.triple = t
      · subst ht
        simp only [if_true] at hleads ⊢
        obtain ⟨b, hb, hrest⟩ := run_cons_eq_some.mp hleads
        rwa [(switch_eq_some.mp hb).2] at hrest
      · rw [if_neg (Ne.symm ht)]
        simp only [if_neg ht] at hleads
        exact hleads
  | handled item =>
    cases hturn
    dsimp only at hq ⊢
    split <;> exact ⟨h.queue, h.ports, h.config, h.table, h.made, h.handled, h.leads⟩
  | draining item =>
    obtain ⟨r₁, hsync, hturn⟩ := Option.bind_eq_some_iff.mp hturn
    obtain ⟨sections, -, hturn⟩ := Option.bind_eq_some_iff.mp hturn
    cases hturn
    obtain ⟨dg, t, done, rfl⟩ := firstSync_spec hsync
    exact ⟨hq, ⟨h.ports.config, h.ports.external, h.ports.nodup, h.ports.backends⟩, h.config,
      h.table, h.made, h.handled, h.leads⟩
  | rendered item sections =>
    cases hturn
    exact ⟨hq, h.ports, h.config, h.table, h.made, h.handled, h.leads⟩
  | finished item =>
    cases hturn
    refine ⟨hq, h.ports, h.config, h.table, fun x hx => h.made x ?_, fun tu htu => ?_, fun t => ?_⟩
    · simp only [Phase.item, Option.toList_none, List.append_nil, List.mem_append] at hx
      rcases hx with hx | hx
      · rcases WorkQueue.mem_queue_done hx with rfl | hx
        · simp [Phase.item]
        · simp [hx]
      · simp [hx]
    · cases htu
    · have hleads := h.leads t
      simp only [Delivery.ahead, Phase.item, ← WorkQueue.done_backlog] at hleads
      exact hleads

theorem Delivery.Sound.step (h : Delivery.Sound c s) (hfresh : s.Fresh e)
    (hstep : s.step codec e = some s') :
    Delivery.Sound c s' := by
  cases e with
  | call call =>
    simp only [Delivery.step, Option.ite_none_right_eq_some, Option.some.injEq] at hstep
    obtain ⟨hpend, rfl⟩ := hstep
    exact h.call hpend call
  | send =>
    simp only [Delivery.step] at hstep
    split at hstep
    · cases hstep
    · next tu rest hpend =>
      cases hstep
      exact h.send hpend (hfresh tu (by simp [hpend]))
  | turn o =>
    obtain ⟨k, hturn, rfl⟩ := Option.map_eq_some_iff.mp hstep
    exact h.turn hturn

theorem Delivery.Sound.start {r : F5Router} (hboot : boot codec c plans dg = some r) :
    Delivery.Sound r.c (.start r) := by
  obtain ⟨r₀, used, records, hf, -, -, rfl⟩ := boot_state hboot
  refine ⟨WorkQueue.sound_empty, ⟨rfl, hf.external, ?_, ?_⟩, rfl, sound_new _, ?_, ?_, fun t => ?_⟩
  · simp [Delivery.start, Controller.start, hf.pools]
  · simp [Delivery.start, Controller.start, hf.pools]
  · simp [Delivery.start, Controller.start, WorkQueue.empty, Phase.item]
  · simp [Delivery.start, Controller.start, Phase.item]
  · simp [Delivery.start, Controller.start, Delivery.ahead, Phase.unhandled, Phase.item,
      WorkQueue.backlog_none, WorkQueue.empty, F5Router.lists, hf.pools, RoutingTable.has,
      RoutingTable.backendExists, newRoutingTable]

theorem Delivery.Sound.mirrored (h : Delivery.Sound c s) (hidle : s.controller.queue.Idle)
    (hpend : s.pending = []) :
    s.Mirrored := by
  have hitem := h.queue.cur_eq_none hidle
  have hlists : ∀ t, s.controller.router.lists c t = s.table.has t := by
    intro t
    have hleads := h.leads t
    have hunhandled : s.controller.phase.unhandled = [] := by
      obtain hnil | ⟨item, hsome, -⟩ := s.controller.phase.unhandled_cases
      · exact hnil
      · rw [hitem] at hsome
        cases hsome
    simpa [Delivery.ahead, hpend, WorkQueue.backlog_of_idle hidle, hunhandled] using hleads
  refine ⟨fun port m => ?_, fun port p hp => h.ports.nodup port p (h.config ▸ hp)⟩
  rw [h.config]
  constructor
  · rintro ⟨p, hp, hm⟩
    have hsession := h.ports.backends port p hp m hm
    have hmember : (BackendServerKey.mk m.address m.port).member = m := by
      rw [BackendServerKey.member, ← hsession]
    refine ⟨hsession, ?_⟩
    change s.table.has (port, ⟨m.address, m.port⟩) = true
    rw [← hlists, F5Router.lists_iff]
    exact ⟨p, hp, hmember ▸ hm⟩
  · rintro ⟨hsession, hhas⟩
    change s.table.has (port, ⟨m.address, m.port⟩) = true at hhas
    rw [← hlists, F5Router.lists_iff] at hhas
    obtain ⟨p, hp, hm⟩ := hhas
    rw [BackendServerKey.member, ← hsession] at hm
    exact ⟨p, hp, hm⟩

/-- From a start, as long as no update is submitted while an equal one is
waiting, the pools are those of the table whenever the queue is idle. -/
theorem pools_mirror_table {r : F5Router} (hboot : boot codec c plans dg = some r)
    (hfresh : Along (Delivery.step codec) Delivery.Fresh (.start r) es)
    (hrun : run (Delivery.step codec) (.start r) es = some s) (hidle : s.controller.queue.Idle)
    (hpend : s.pending = []) : s.Mirrored := by
  have hsound : Delivery.Sound r.c s :=
    run_invariant (fun s t e _ hs hf hstep => hs.step hf hstep) hfresh (.start hboot) hrun
  exact hsound.mirrored hidle hpend

namespace Sample

def backend : BackendServerInfo := ⟨"10.0.0.1".toList, 8080, ⟨[], 0⟩, 0⟩

def upsert : DeliveryEvent := .call (.upsert 6000 backend 0 0)

def delete : DeliveryEvent := .call (.delete 6000 backend 0)

def turns (n : Nat) : List DeliveryEvent := List.replicate n (.turn .stored)

def delivered (s : Delivery) : Bool :=
  s.controller.router.lists s.table.c (6000, backend.key)

def comesBack : List DeliveryEvent :=
  [upsert, .send] ++ turns 2 ++ [delete, .send] ++ turns 6 ++ [upsert, .send] ++ turns 8

end Sample

theorem pools_mirror_table_sample :
    ∃ r ∈ boot jsonCodec Sample.config ∅ none,
      ∃ s ∈ run (Delivery.step jsonCodec) (.start r) Sample.comesBack,
        Sample.delivered s = true ∧ s.Mirrored := by
  have hrun : ∃ r ∈ boot jsonCodec Sample.config ∅ none,
      Along (Delivery.step jsonCodec) Delivery.Fresh (.start r) Sample.comesBack ∧
      ∃ s ∈ run (Delivery.step jsonCodec) (.start r) Sample.comesBack,
        Sample.delivered s = true ∧ s.controller.queue.Idle ∧ s.pending = [] := by
    decide +kernel
  obtain ⟨r, hboot, hfresh, s, hrun, hin, hidle, hpend⟩ := hrun
  exact ⟨r, hboot, s, hrun, hin, pools_mirror_table hboot hfresh hrun hidle hpend⟩

/-- The third update of a backend equals the first, which is still waiting, and
is dropped. -/
theorem pools_lose_backend :
    ∃ r ∈ boot jsonCodec Sample.config ∅ none,
      ∃ s ∈ run (Delivery.step jsonCodec) (.start r)
          ([Sample.upsert, .send, Sample.delete, .send, Sample.upsert, .send] ++ Sample.turns 10),
        s.controller.queue.Idle ∧ s.pending = [] ∧ s.table.has (6000, Sample.backend.key) = true ∧
        Sample.delivered s = false ∧ ¬ s.Mirrored := by
  have hrun : ∃ r ∈ boot jsonCodec Sample.config ∅ none,
      ∃ s ∈ run (Delivery.step jsonCodec) (.start r)
          ([Sample.upsert, .send, Sample.delete, .send, Sample.upsert, .send] ++ Sample.turns 10),
        s.controller.queue.Idle ∧ s.pending = [] ∧ s.table.has (6000, Sample.backend.key) = true ∧
        Sample.delivered s = false := by
    decide +kernel
  obtain ⟨r, hboot, s, hrun, hidle, hpend, hhas, hout⟩ := hrun
  refine ⟨r, hboot, s, hrun, hidle, hpend, hhas, hout, fun h => ?_⟩
  have hin := (h.members 6000 Sample.backend.key.member).mpr ⟨rfl, hhas⟩
  rw [Sample.delivered, Bool.eq_false_iff, ne_eq, F5Router.lists_iff] at hout
  exact hout hin

end BigipCtlr
