import BigipCtlr.F5Router.Update
import BigipCtlr.Lib.Toggle
import Mathlib.Data.List.Induction
import Mathlib.Data.Prod.Basic
import Mathlib.Data.Set.Insert

/-!
# The TCP routing table

`RoutingTable` with the updates it sends to its listener. A call reads the
clock as often as the source does; times and durations are in nanoseconds.
-/

namespace BigipCtlr

open Go Lib

structure BackendServerInfo where
  address : Str
  port : UInt16
  modificationTag : ModificationTag
  ttl : Int64

structure BackendServerKey where
  address : Str
  port : UInt16
  deriving DecidableEq, Repr

structure BackendServerDetails where
  modificationTag : ModificationTag
  ttl : Int64
  updatedTime : Int

abbrev Entry := GoMap BackendServerKey BackendServerDetails

structure RoutingTable where
  c : Config
  entries : GoMap UInt16 Entry
  listener : Bool

def newRoutingTable (c : Config) (listener : Bool) : RoutingTable := ⟨c, ∅, listener⟩

def BackendServerInfo.key (info : BackendServerInfo) : BackendServerKey := ⟨info.address, info.port⟩

def serverKeyDetailsFromInfo (info : BackendServerInfo) (now : Int) :
    BackendServerKey × BackendServerDetails :=
  (info.key, ⟨info.modificationTag, info.ttl, now⟩)

/-- `newRoutingTableEntry`, each backend with the time at its turn. -/
def newRoutingTableEntry (backends : List (BackendServerInfo × Int)) : Entry :=
  backends.foldl (fun e (backend, now) =>
    e.insert backend.key ⟨backend.modificationTag, backend.ttl, now⟩) ∅

namespace BackendServerDetails

def updateSucceededBy (d other : BackendServerDetails) : Bool :=
  d.modificationTag.succeededBy other.modificationTag

def deleteSucceededBy (d other : BackendServerDetails) : Bool :=
  d.modificationTag = other.modificationTag || d.modificationTag.succeededBy other.modificationTag

def differentFrom (d other : BackendServerDetails) : Bool := d.updateSucceededBy other && false

/-- `expired`. The TTL is multiplied with a second as a machine integer. -/
def expired (d : BackendServerDetails) (defaultTTL : Int64) (now : Int) : Bool :=
  let ttl := if d.ttl = 0 then defaultTTL else d.ttl
  d.updatedTime < now + (-ttl * 1000000000).toInt

end BackendServerDetails

-- ---------------------------------------------------------------------------
-- Calls
-- ---------------------------------------------------------------------------

namespace RoutingTable

def updateRouter (table : RoutingTable) (op : Operation) (routePort : UInt16)
    (ea : Str) (ep : UInt16) :
    UpdateTCP :=
  newTCPUpdate table.c op routePort ⟨ea, ep, "user-enabled".toList⟩

def backendExists (table : RoutingTable) (key : UInt16) (bk : BackendServerKey) : Bool :=
  match table.entries.lookup key with
  | none => false
  | some routes => decide (bk ∈ routes)

/-- The table with the backends of a port that are left; an entry without
backends is deleted. -/
def keep (table : RoutingTable) (key : UInt16) (backends : Entry) : RoutingTable :=
  { table with
    entries := if GoMap.size backends = 0 then table.entries.erase key
      else table.entries.insert key backends }

/-- `UpsertBackendServerKey`: the table, the result and what is sent. `created`
is the time an entry for a new key is made at. -/
def upsertBackendServerKey (table : RoutingTable) (key : UInt16) (info : BackendServerInfo)
    (created now : Int) : RoutingTable × Bool × List UpdateTCP :=
  let found := table.entries.lookup key
  let existingEntry := found.getD (newRoutingTableEntry [(info, created)])
  let (newBackendKey, newBackendDetails) := serverKeyDetailsFromInfo info now
  let current := existingEntry.lookup newBackendKey
  let backends := if current.all (·.updateSucceededBy newBackendDetails) then
    existingEntry.insert newBackendKey newBackendDetails else existingEntry
  let update := found.isNone || current.all (·.differentFrom newBackendDetails)
  ({ table with entries := table.entries.insert key backends }, update,
    if update && table.listener then [table.updateRouter .add key info.address info.port] else [])

def deleteBackendServerKey (table : RoutingTable) (key : UInt16)
    (info : BackendServerInfo) (now : Int) :
    RoutingTable × Bool × List UpdateTCP :=
  let (backendServerKey, newDetails) := serverKeyDetailsFromInfo info now
  match table.entries.lookup key with
  | none => (table, false, [])
  | some existingEntry =>
    if (existingEntry.lookup backendServerKey).any (·.deleteSucceededBy newDetails) then
      (table.keep key (existingEntry.erase backendServerKey), true,
        if table.listener then [table.updateRouter .remove key info.address info.port] else [])
    else (table, false, [])

end RoutingTable

/-- The choices of one `pruneEntries`: the orders of its loops, and what the
clock says when a backend is looked at. -/
structure Sweep where
  order : Order
  inner : UInt16 → Order
  now : UInt16 → BackendServerKey → Int

def pruneBackend (defaultTTL : Int64) (now : BackendServerKey → Int)
    (s : List BackendServerKey × Entry) (backend : BackendServerKey × BackendServerDetails) :
    List BackendServerKey × Entry :=
  if backend.2.expired defaultTTL (now backend.1) then
    (s.1 ++ [backend.1], s.2.erase backend.1) else s

def pruneBackends (defaultTTL : Int64) (o : Order) (now : BackendServerKey → Int)
    (backends : Entry) :
    List BackendServerKey × Entry :=
  (backends.range o).foldl (pruneBackend defaultTTL now) ([], backends)

def pruneEntry (defaultTTL : Int64) (w : Sweep) (s : RoutingTable × List UpdateTCP)
    (entry : UInt16 × Entry) :
    RoutingTable × List UpdateTCP :=
  let (table, sent) := s
  let (removed, backends) := pruneBackends defaultTTL (w.inner entry.1) (w.now entry.1) entry.2
  let updates := removed.map fun backend =>
    table.updateRouter .remove entry.1 backend.address backend.port
  (table.keep entry.1 backends, if table.listener then sent ++ updates else sent)

def RoutingTable.pruneEntries (table : RoutingTable) (defaultTTL : Int64) (w : Sweep) :
    RoutingTable × List UpdateTCP :=
  (table.entries.range w.order).foldl (pruneEntry defaultTTL w) (table, [])

inductive TableCall
  | upsert (key : UInt16) (info : BackendServerInfo) (created now : Int)
  | delete (key : UInt16) (info : BackendServerInfo) (now : Int)
  | prune (defaultTTL : Int64) (w : Sweep)

def RoutingTable.call (table : RoutingTable) :
    TableCall → RoutingTable × Option Bool × List UpdateTCP
  | .upsert key info created now =>
    let (table, update, sent) := table.upsertBackendServerKey key info created now
    (table, some update, sent)
  | .delete key info now =>
    let (table, update, sent) := table.deleteBackendServerKey key info now
    (table, some update, sent)
  | .prune defaultTTL w =>
    let (table, sent) := table.pruneEntries defaultTTL w
    (table, none, sent)

-- ---------------------------------------------------------------------------
-- The updates of a call
-- ---------------------------------------------------------------------------

abbrev Triple := UInt16 × BackendServerKey

def RoutingTable.has (table : RoutingTable) (t : Triple) : Bool := table.backendExists t.1 t.2

def RoutingTable.details (table : RoutingTable) (t : Triple) : Option BackendServerDetails :=
  (table.entries.lookup t.1).bind (·.lookup t.2)

def UpdateTCP.triple (tu : UpdateTCP) : Triple :=
  (tu.routePort, ⟨tu.member.address, tu.member.port⟩)

def UpdateTCP.edit (tu : UpdateTCP) : Triple × Bool := (tu.triple, tu.op = .add)

structure UpdateTCP.From (c : Config) (tu : UpdateTCP) : Prop where
  config : tu.c = c
  op : tu.op = .add ∨ tu.op = .remove
  session : tu.member.session = "user-enabled".toList

structure RoutingTable.Sound (table : RoutingTable) : Prop where
  listener : table.listener = true
  nonempty : ∀ port backends, table.entries.lookup port = some backends → GoMap.size backends ≠ 0

/-- The updates take the backends of one table to those of the other. -/
structure Sends (table : RoutingTable) (sent : List UpdateTCP) (table' : RoutingTable) : Prop where
  config : table'.c = table.c
  sound : table'.Sound
  made : ∀ tu ∈ sent, tu.From table.c
  edits : run toggle table.has (sent.map UpdateTCP.edit) = some table'.has

theorem Sends.refl {table : RoutingTable} (h : table.Sound) : Sends table [] table :=
  ⟨rfl, h, by simp, rfl⟩

theorem Sends.trans (h : Sends t us t') (h' : Sends t' vs t'') : Sends t (us ++ vs) t'' := by
  refine ⟨h'.config.trans h.config, h'.sound, fun tu htu => ?_, ?_⟩
  · rcases List.mem_append.mp htu with htu | htu
    · exact h.made tu htu
    · exact h.config ▸ h'.made tu htu
  · rw [List.map_append]
    exact run_append_eq_some.mpr ⟨_, h.edits, h'.edits⟩

theorem has_eq_isSome (table : RoutingTable) (t : Triple) :
    table.has t = (table.details t).isSome := by
  rw [RoutingTable.has, RoutingTable.backendExists, RoutingTable.details]
  cases table.entries.lookup t.1 with
  | none => rfl
  | some routes => rw [Option.bind_some, Bool.eq_iff_iff, AList.lookup_isSome, decide_eq_true_iff]

theorem details_insert (table : RoutingTable) (key : UInt16) (backends : Entry) (t : Triple) :
    ({ table with entries := table.entries.insert key backends } : RoutingTable).details t =
      if t.1 = key then backends.lookup t.2 else table.details t := by
  by_cases h : t.1 = key <;> simp [RoutingTable.details, GoMap.lookup_insert_ite, h]

theorem details_keep (table : RoutingTable) (key : UInt16) (backends : Entry) (t : Triple) :
    (table.keep key backends).details t = if t.1 = key then backends.lookup t.2
      else table.details t := by
  rw [RoutingTable.keep]
  split
  · next hnil =>
    by_cases h : t.1 = key <;>
      simp [RoutingTable.details, GoMap.lookup_erase_ite, h, GoMap.size_eq_zero.mp hnil]
  · rw [details_insert]

theorem has_of_details {table table' : RoutingTable} {backends : Entry}
    (h : table'.details t = if t.1 = key then backends.lookup t.2 else table.details t) :
    table'.has t = if t.1 = key then decide (t.2 ∈ backends) else table.has t := by
  rw [has_eq_isSome, h]
  split
  · rw [Bool.eq_iff_iff, AList.lookup_isSome, decide_eq_true_iff]
  · rw [has_eq_isSome]

theorem has_insert (table : RoutingTable) (key : UInt16) (backends : Entry) (t : Triple) :
    ({ table with entries := table.entries.insert key backends } : RoutingTable).has t =
      if t.1 = key then decide (t.2 ∈ backends) else table.has t :=
  has_of_details (details_insert table key backends t)

theorem has_keep (table : RoutingTable) (key : UInt16) (backends : Entry) (t : Triple) :
    (table.keep key backends).has t = if t.1 = key then decide (t.2 ∈ backends) else table.has t :=
  has_of_details (details_keep table key backends t)

theorem RoutingTable.Sound.keep {table : RoutingTable} (h : table.Sound) (key : UInt16)
    (backends : Entry) :
    (table.keep key backends).Sound := by
  refine ⟨h.listener, fun port e he => ?_⟩
  simp only [RoutingTable.keep] at he
  split at he
  · rw [GoMap.lookup_erase_ite] at he
    split at he
    · cases he
    · exact h.nonempty port e he
  · next hne =>
    rw [GoMap.lookup_insert_ite] at he
    split at he
    · cases he
      exact hne
    · exact h.nonempty port e he

theorem size_ne_zero {backends : Entry} (h : bk ∈ backends) : GoMap.size backends ≠ 0 := by
  intro hzero
  rw [GoMap.mem_iff] at h
  simp [GoMap.size_eq_zero.mp hzero] at h

theorem has_eq {table : RoutingTable} (h : table.entries.lookup key = some backends)
    (bk : BackendServerKey) :
    table.has (key, bk) = decide (bk ∈ backends) := by
  simp [RoutingTable.has, RoutingTable.backendExists, h]

theorem from_updateRouter (table : RoutingTable) (hop : op = .add ∨ op = .remove)
    (key : UInt16) (ea : Str) (ep : UInt16) : (table.updateRouter op key ea ep).From table.c :=
      ⟨rfl, hop, rfl⟩

theorem mem_newRoutingTableEntry (info : BackendServerInfo) (created : Int)
    (bk : BackendServerKey) :
    bk ∈ newRoutingTableEntry [(info, created)] ↔ bk = info.key := by
  rw [newRoutingTableEntry, List.foldl_cons, List.foldl_nil, AList.mem_insert]
  simp

/-- The backends an Upsert works on are those of the port, if it has any, and
include the new one otherwise. -/
theorem has_existing (table : RoutingTable) (key : UInt16) (info : BackendServerInfo)
    (created : Int) (bk : BackendServerKey) :
    bk ∈ (table.entries.lookup key).getD (newRoutingTableEntry [(info, created)]) ↔
      table.has (key, bk) = true ∨ (table.entries.lookup key = none ∧ bk = info.key) := by
  cases h : table.entries.lookup key with
  | none => simp [RoutingTable.has, RoutingTable.backendExists, h, mem_newRoutingTableEntry]
  | some backends => simp [has_eq h]

theorem run_toggle_one {S T : Triple → Bool} (tu : UpdateTCP) (h : S tu.edit.1 ≠ tu.edit.2)
    (hT : ∀ t, T t = if t = tu.edit.1 then tu.edit.2 else S t) :
    run toggle S ([tu].map UpdateTCP.edit) = some T := by
  refine run_cons_eq_some.mpr ⟨T, toggle_eq_some.mpr ⟨h, ?_⟩, rfl⟩
  funext t
  rw [hT, Function.update_apply]

theorem mem_upserted (existing : Entry) (k : BackendServerKey) (details : BackendServerDetails)
    (bk : BackendServerKey) :
    (bk ∈ if (existing.lookup k).all (·.updateSucceededBy details) then existing.insert k details
      else existing) ↔
      bk = k ∨ bk ∈ existing := by
  split
  · exact AList.mem_insert existing
  · next hkeep =>
    have hk : k ∈ existing := by
      rw [← AList.lookup_isSome]
      cases hl : existing.lookup k with
      | none => simp [hl] at hkeep
      | some d => rfl
    constructor
    · exact .inr
    · rintro (rfl | h)
      · exact hk
      · exact h

theorem all_differentFrom (o : Option BackendServerDetails) (details : BackendServerDetails) :
    o.all (·.differentFrom details) = o.isNone := by
  cases o <;> simp [BackendServerDetails.differentFrom]

theorem upsert_result {table : RoutingTable} (h : table.Sound) (key : UInt16)
    (info : BackendServerInfo) (created now : Int) :
    ∃ backends : Entry, (∀ bk, bk ∈ backends ↔ bk = info.key ∨ table.has (key, bk) = true) ∧
      table.upsertBackendServerKey key info created now =
        ({ table with entries := table.entries.insert key backends }, !table.has (key, info.key),
          if table.has (key, info.key) then []
            else [table.updateRouter .add key info.address info.port]) := by
  let existing := (table.entries.lookup key).getD (newRoutingTableEntry [(info, created)])
  let details : BackendServerDetails := ⟨info.modificationTag, info.ttl, now⟩
  let backends := if (existing.lookup info.key).all (·.updateSucceededBy details) then
    existing.insert info.key details else existing
  let update := (table.entries.lookup key).isNone ||
    (existing.lookup info.key).all (·.differentFrom details)
  have hexist : ∀ bk, bk ∈ existing ↔ table.has (key, bk) = true ∨
      (table.entries.lookup key = none ∧ bk = info.key) := has_existing table key info created
  have hupdate : update = !table.has (key, info.key) := by
    have hsome : (existing.lookup info.key).isNone = !decide (info.key ∈ existing) := by
      rw [← Option.not_isSome]
      congr 1
      rw [Bool.eq_iff_iff, AList.lookup_isSome, decide_eq_true_iff]
    simp only [update, all_differentFrom, hsome, hexist]
    cases hl : table.entries.lookup key <;> simp [RoutingTable.has, RoutingTable.backendExists, hl]
  refine ⟨backends, fun bk => ?_, ?_⟩
  · rw [mem_upserted, hexist]
    tauto
  · change (_, update, if update && table.listener then _ else _) = _
    rw [hupdate, h.listener, Bool.and_true]
    cases table.has (key, info.key) <;> rfl

theorem upsert_sends {table : RoutingTable} (h : table.Sound) (key : UInt16)
    (info : BackendServerInfo) (created now : Int) :
    let (table', update, sent) := table.upsertBackendServerKey key info created now
    Sends table sent table' ∧ (update = true ↔ sent ≠ []) := by
  obtain ⟨backends, hmem, heq⟩ := upsert_result h key info created now
  rw [heq]
  have hhas : ∀ t, ({ table with entries := table.entries.insert key backends } :
      RoutingTable).has t =
      if t = (key, info.key) then true else table.has t := by
    rintro ⟨port, bk⟩
    rw [has_insert]
    by_cases hport : port = key
    · subst hport
      simp only [if_true, Prod.mk.injEq, true_and, hmem]
      by_cases hbk : bk = info.key <;> simp [hbk]
    · simp [hport]
  have hsound : ({ table with entries := table.entries.insert key backends } :
      RoutingTable).Sound := by
    refine ⟨h.listener, fun port e he => ?_⟩
    rw [GoMap.lookup_insert_ite] at he
    split at he
    · cases he
      exact size_ne_zero ((hmem info.key).mpr (.inl rfl))
    · exact h.nonempty port e he
  cases hin : table.has (key, info.key) with
  | true =>
    refine ⟨⟨rfl, hsound, by simp, congrArg some (funext fun t => ?_)⟩, by simp⟩
    rw [hhas]
    split
    · next ht => rw [ht, hin]
    · rfl
  | false =>
    refine ⟨⟨rfl, hsound, ?_, run_toggle_one _ ?_ hhas⟩, by simp⟩
    · intro tu htu
      exact List.mem_singleton.mp htu ▸ from_updateRouter table
        (.inl rfl) key info.address info.port
    · change table.has (key, info.key) ≠ true
      simp [hin]

theorem delete_sends {table : RoutingTable} (h : table.Sound) (key : UInt16)
    (info : BackendServerInfo) (now : Int) :
    let (table', update, sent) := table.deleteBackendServerKey key info now
    Sends table sent table' ∧ (update = true ↔ sent ≠ []) := by
  rw [RoutingTable.deleteBackendServerKey]
  simp only [serverKeyDetailsFromInfo, h.listener, if_true]
  split
  · exact ⟨.refl h, by simp⟩
  · next e he =>
    split
    · next hany =>
      have hin : table.has (key, info.key) = true := by
        rw [has_eq he, decide_eq_true_iff, ← AList.lookup_isSome]
        cases hl : e.lookup info.key <;> simp [hl] at hany ⊢
      refine ⟨⟨rfl, h.keep key _, ?_, run_toggle_one _ ?_ ?_⟩, by simp⟩
      · intro tu htu
        exact List.mem_singleton.mp htu ▸ from_updateRouter table
          (.inr rfl) key info.address info.port
      · change table.has (key, info.key) ≠ false
        simp [hin]
      · rintro ⟨port, bk⟩
        change _ = if (port, bk) = (key, info.key) then false else _
        rw [has_keep]
        by_cases hport : port = key
        · subst hport
          simp only [if_true, Prod.mk.injEq, true_and, AList.mem_erase, has_eq he]
          by_cases hbk : bk = info.key <;> simp [hbk]
        · simp [hport]
    · exact ⟨.refl h, by simp⟩

structure Pruned (backends : Entry) (s : List BackendServerKey × Entry) : Prop where
  nodup : s.1.Nodup
  removed : ∀ k ∈ s.1, k ∈ backends
  left : ∀ k, k ∈ s.2 ↔ k ∈ backends ∧ k ∉ s.1

theorem Pruned.foldl {l : List (BackendServerKey × BackendServerDetails)} (h : Pruned backends s)
    (hnd : (l.map Prod.fst).Nodup) (hl : ∀ k ∈ l.map Prod.fst, k ∈ backends ∧ k ∉ s.1) :
    Pruned backends (l.foldl (pruneBackend defaultTTL now) s) := by
  induction l generalizing s with
  | nil => exact h
  | cons b l ih =>
    rw [List.map_cons, List.nodup_cons] at hnd
    obtain ⟨hb, hout⟩ := hl b.1 (by simp)
    rw [List.foldl_cons, pruneBackend]
    split
    · refine ih ⟨?_, ?_, ?_⟩ hnd.2 fun k hk => ?_
      · exact List.nodup_append'.mpr ⟨h.nodup, List.nodup_singleton _,
          List.disjoint_singleton.mpr hout⟩
      · intro k hk
        rcases List.mem_append.mp hk with hk | hk
        · exact h.removed k hk
        · exact List.mem_singleton.mp hk ▸ hb
      · intro k
        rw [AList.mem_erase, h.left, List.mem_append, List.mem_singleton]
        tauto
      · have hne : k ≠ b.1 := fun he => hnd.1 (he ▸ hk)
        simpa [hne] using hl k (List.mem_cons_of_mem _ hk)
    · exact ih h hnd.2 fun k hk => hl k (List.mem_cons_of_mem _ hk)

theorem pruneBackends_pruned (defaultTTL : Int64) (o : Order) (now : BackendServerKey → Int)
    (backends : Entry) :
    Pruned backends (pruneBackends defaultTTL o now backends) := by
  have hstart : Pruned backends ([], backends) := ⟨.nil, by simp, by simp⟩
  refine hstart.foldl (GoMap.range_keys_nodup o backends) fun k hk => ⟨?_, by simp⟩
  obtain ⟨⟨k, d⟩, hmem, rfl⟩ := List.mem_map.mp hk
  exact GoMap.mem_iff.mpr ⟨d, GoMap.mem_range.mp hmem⟩

theorem pruneEntry_sends {table : RoutingTable} (h : table.Sound) (defaultTTL : Int64) (w : Sweep)
    (sent : List UpdateTCP) (he : table.entries.lookup entry.1 = some entry.2) :
    ∃ us, (pruneEntry defaultTTL w (table, sent) entry).2 = sent ++ us ∧
      Sends table us (pruneEntry defaultTTL w (table, sent) entry).1 ∧
      ∀ port, port ≠ entry.1 → (pruneEntry defaultTTL w (table, sent) entry).1.entries.lookup port =
        table.entries.lookup port := by
  have hp := pruneBackends_pruned defaultTTL (w.inner entry.1) (w.now entry.1) entry.2
  simp only [pruneEntry, h.listener, if_true]
  generalize pruneBackends defaultTTL (w.inner entry.1) (w.now entry.1) entry.2 = s at hp
  refine ⟨_, rfl, ⟨rfl, h.keep entry.1 _, ?_, ?_⟩, fun port hport => ?_⟩
  · intro tu htu
    obtain ⟨bk, -, rfl⟩ := List.mem_map.mp htu
    exact from_updateRouter table (.inr rfl) entry.1 bk.address bk.port
  · have hhas : ∀ t ∈ s.1.map (Prod.mk entry.1), table.has t = true := by
      intro t ht
      obtain ⟨bk, hbk, rfl⟩ := List.mem_map.mp ht
      rw [has_eq he, decide_eq_true_iff]
      exact hp.removed bk hbk
    have hoff :=
      run_toggle_off (S := table.has) (hp.nodup.map (Prod.mk_right_injective entry.1)) hhas
    rw [List.map_map] at hoff ⊢
    refine hoff.trans (congrArg some (funext fun t => ?_))
    obtain ⟨port, bk⟩ := t
    rw [has_keep]
    by_cases hport : port = entry.1
    · subst hport
      simp [has_eq he, hp.left]
    · have hout : (port, bk) ∉ s.1.map (Prod.mk entry.1) := by
        rintro hmem
        obtain ⟨_, -, heq⟩ := List.mem_map.mp hmem
        cases heq
        exact hport rfl
      simp [hport, hout]
  · rw [RoutingTable.keep]
    split
    · rw [GoMap.lookup_erase_ite, if_neg hport]
    · rw [GoMap.lookup_insert_ite, if_neg hport]

theorem pruneEntries_sends {table : RoutingTable} (h : table.Sound)
    (defaultTTL : Int64) (w : Sweep) :
    let (table', sent) := table.pruneEntries defaultTTL w
    Sends table sent table' := by
  have hloop : ∀ (l : List (UInt16 × Entry)) (t : RoutingTable) (sent : List UpdateTCP),
      Sends table sent t →
      (l.map Prod.fst).Nodup → (∀ e ∈ l, t.entries.lookup e.1 = some e.2) →
      Sends table (l.foldl (pruneEntry defaultTTL w) (t, sent)).2
        (l.foldl (pruneEntry defaultTTL w) (t, sent)).1 := by
    intro l
    induction l with
    | nil => exact fun t sent hs _ _ => hs
    | cons e l ih =>
      intro t sent hs hnd hl
      rw [List.map_cons, List.nodup_cons] at hnd
      obtain ⟨us, hsent, hstep, hothers⟩ := pruneEntry_sends hs.sound defaultTTL w sent
        (hl e List.mem_cons_self)
      have hnext := hs.trans hstep
      rw [← hsent] at hnext
      refine ih _ _ hnext hnd.2 fun f hf => ?_
      have hne : f.1 ≠ e.1 := fun heq => hnd.1 (heq ▸ List.mem_map_of_mem hf)
      exact (hothers f.1 hne).trans (hl f (List.mem_cons_of_mem _ hf))
  refine hloop _ table [] (.refl h) (GoMap.range_keys_nodup _ _) ?_
  rintro ⟨port, e⟩ he
  exact GoMap.mem_range.mp he

theorem call_sends {table : RoutingTable} (h : table.Sound) (call : TableCall) :
    Sends table (table.call call).2.2 (table.call call).1 := by
  cases call with
  | upsert key info created now => exact (upsert_sends h key info created now).1
  | delete key info now => exact (delete_sends h key info now).1
  | prune defaultTTL w => exact pruneEntries_sends h defaultTTL w

-- ---------------------------------------------------------------------------
-- Replaying the updates
-- ---------------------------------------------------------------------------

def RoutingTable.serve (s : RoutingTable × List UpdateTCP) (call : TableCall) :
    RoutingTable × List UpdateTCP :=
  ((s.1.call call).1, s.2 ++ (s.1.call call).2.2)

def RoutingTable.triples (table : RoutingTable) : Set Triple := {t | table.has t = true}

def UpdateTCP.apply (S : Set Triple) (tu : UpdateTCP) : Set Triple :=
  match tu.op with
  | .add => insert tu.triple S
  | .remove => S \ {tu.triple}
  | .bind | .unbind => S

def replayTCP (sent : List UpdateTCP) : Set Triple := sent.foldl UpdateTCP.apply ∅

theorem sound_new (c : Config) : (newRoutingTable c true).Sound := ⟨rfl, by simp [newRoutingTable]⟩

theorem serve_sends (c : Config) (calls : List TableCall) :
    let s := calls.foldl RoutingTable.serve (newRoutingTable c true, [])
    Sends (newRoutingTable c true) s.2 s.1 := by
  induction calls using List.reverseRecOn with
  | nil => exact .refl (sound_new c)
  | append_singleton calls call ih =>
    rw [List.foldl_append]
    exact ih.trans (call_sends ih.sound call)

theorem mem_replayTCP (h : ∀ tu ∈ sent, UpdateTCP.From c tu) (t : Triple) :
    t ∈ replayTCP sent ↔
      (sent.map UpdateTCP.edit).foldl (fun S u => Function.update S u.1 u.2) (fun _ => false) t =
        true := by
  induction sent using List.reverseRecOn with
  | nil => simp [replayTCP]
  | append_singleton sent tu ih =>
    have hrest := ih fun u hu => h u (List.mem_append_left _ hu)
    rw [replayTCP, List.foldl_append, List.map_append, List.foldl_append]
    simp only [List.map_cons, List.map_nil, List.foldl_cons, List.foldl_nil, Function.update_apply]
    change t ∈ UpdateTCP.apply (replayTCP sent) tu ↔ _
    rcases (h tu (by simp)).op with hop | hop
    · rw [UpdateTCP.apply, hop]
      simp only [UpdateTCP.edit, hop, Set.mem_insert_iff, hrest]
      by_cases ht : t = tu.triple <;> simp [ht]
    · rw [UpdateTCP.apply, hop]
      simp only [UpdateTCP.edit, hop, Set.mem_sdiff, Set.mem_singleton_iff, hrest]
      by_cases ht : t = tu.triple <;> simp [ht]

/-- Whatever calls are made on a table with a listener, the updates sent so far
amount to what it lists, each one changes something, no entry is empty, and
an Upsert or Delete returns whether it sends one. -/
theorem updates_mirror_table (c : Config) (calls : List TableCall) :
    let (table, sent) := calls.foldl RoutingTable.serve (newRoutingTable c true, [])
    replayTCP sent = table.triples ∧
    (∀ us tu, us ++ [tu] <+: sent →
      (tu.op = .add ∧ tu.triple ∉ replayTCP us) ∨ (tu.op = .remove ∧ tu.triple ∈ replayTCP us)) ∧
    (∀ port backends, table.entries.lookup port = some backends → GoMap.size backends ≠ 0) ∧
    (∀ key info created now,
      let (_, update, us) := table.upsertBackendServerKey key info created now
      update = true ↔ us ≠ []) ∧
    (∀ key info now,
      let (_, update, us) := table.deleteBackendServerKey key info now
      update = true ↔ us ≠ []) := by
  have h := serve_sends c calls
  generalize calls.foldl RoutingTable.serve (newRoutingTable c true, []) = s at h
  obtain ⟨table, sent⟩ := s
  have hempty : (newRoutingTable c true).has = fun _ => false := rfl
  obtain ⟨hfold, hnew⟩ := run_toggle_spec (hempty ▸ h.edits)
  refine ⟨?_, ?_, h.sound.nonempty, fun key info created now =>
    (upsert_sends h.sound key info created now).2,
    fun key info now => (delete_sends h.sound key info now).2⟩
  · ext t
    rw [mem_replayTCP h.made, hfold]
    rfl
  · intro us tu hp
    have hmade := h.made tu (hp.subset (by simp))
    have husmade : ∀ u ∈ us, u.From c := fun u hu => h.made u (hp.subset (by simp [hu]))
    have hne := hnew (us.map UpdateTCP.edit) tu.edit (by simpa using hp.map UpdateTCP.edit)
    rcases hmade.op with hop | hop
    · refine .inl ⟨hop, fun hin => hne ?_⟩
      exact ((mem_replayTCP husmade _).mp hin).trans (by simp [UpdateTCP.edit, hop])
    · refine .inr ⟨hop, (mem_replayTCP husmade _).mpr ?_⟩
      simpa [UpdateTCP.edit, hop] using hne

end BigipCtlr
