import BigipCtlr.Lib.SecondaryIndex
import BigipCtlr.Route.Pool

/-!
# The index of a pool

A pool is a table of its members by address with the private ids of their
instances as a second key: `index` has one slot for an address and one for an
id. Where no id is an address the two do not get in each other's way. Members
that share an id share its slot.
-/

namespace BigipCtlr.Route

open Go Lib

inductive PoolOp
  | put (endpoint : Endpoint) (now : Int)
  | remove (endpoint : Endpoint)
  | pruneEndpoints (defaultThreshold : Int64) (now : Int)
  | markUpdated (t : Int)
  | endpointFailed (endpoint : Endpoint) (now : Int)

def PoolOp.endpoint : PoolOp → Option Endpoint
  | .put endpoint _ => some endpoint
  | .remove endpoint => some endpoint
  | .endpointFailed endpoint _ => some endpoint
  | .pruneEndpoints .. | .markUpdated .. => none

def Pool.step (p : Pool) : PoolOp → Option Pool
  | .put endpoint now => (p.put now endpoint).map Prod.fst
  | .remove endpoint => (p.remove endpoint).map Prod.fst
  | .pruneEndpoints defaultThreshold now => (p.pruneEndpoints defaultThreshold now).map Prod.fst
  | .markUpdated t => some (p.markUpdated t)
  | .endpointFailed endpoint now => some (p.endpointFailed now endpoint)

def Entry.instanceId (m : Entry) : Str := m.endpoint.privateInstanceId

/-- The member gives its private id up: it goes, or the endpoint that takes its
place has another. -/
def PoolOp.releases : PoolOp → Entry → Bool
  | .put endpoint _, m => m.endpoint.canonicalAddr = endpoint.canonicalAddr &&
      m.endpoint.privateInstanceId ≠ endpoint.privateInstanceId &&
      m.endpoint.modificationTag.succeededBy endpoint.modificationTag
  | .remove endpoint, m => m.endpoint.canonicalAddr = endpoint.canonicalAddr &&
      m.endpoint.modificationTagSameOrNewer endpoint
  | .pruneEndpoints defaultThreshold now, m => m.stale defaultThreshold now
  | .markUpdated _, _ => false
  | .endpointFailed .., _ => false

def Pool.Strands (p : Pool) (op : PoolOp) : Prop :=
  ∃ f ∈ p.members, ∃ g ∈ p.members, op.releases f = true ∧ ¬ op.releases g = true ∧
    f.instanceId = g.instanceId

instance (p : Pool) (op : PoolOp) : Decidable (p.Strands op) :=
  inferInstanceAs (Decidable (∃ f ∈ p.members, ∃ g ∈ p.members, _))

/-- The pool keeps a table of its members by address, and a private id leads to
the element of the address in its slot. -/
structure Pool.Indexes (addr : Str → Prop) (p : Pool) (s : Indexed Str Str Entry) : Prop where
  sound : p.Sound addr
  rows : ∀ a, addr a → s.rows a = (p.elemAt a).map EndpointElem.entry
  bare : ∀ a, ¬ addr a → s.rows a = none
  linked : s.Linked Entry.instanceId
  slots : ∀ x, ¬ addr x → p.index.lookup x = (s.slots x).bind fun a => p.index.lookup a

theorem newPool_indexes (addr : Str → Prop) : (newPool retry path).Indexes addr .empty where
  sound := newPool_sound addr
  rows := by simp [newPool, Pool.elemAt, Indexed.empty]
  bare := by simp [Indexed.empty]
  linked := Indexed.linked_empty
  slots := by simp [newPool, Indexed.empty]

section
variable {addr : Str → Prop} {p p' : Pool} {s : Indexed Str Str Entry}

theorem Pool.Indexes.addr_of_rows (h : p.Indexes addr s) (hm : s.rows a = some m) : addr a := by
  by_contra ha
  rw [h.bare a ha] at hm
  cases hm

theorem Pool.Indexes.rows_eq_some (h : p.Indexes addr s) :
    s.rows a = some m ↔ m ∈ p.members ∧ m.endpoint.canonicalAddr = a := by
  by_cases ha : addr a
  · rw [h.rows a ha, h.sound.entry_eq_some ha]
  · refine iff_of_false (fun hm => ha (h.addr_of_rows hm)) ?_
    rintro ⟨hm, rfl⟩
    exact ha (h.sound.addr_of_mem hm).1

theorem Pool.Indexes.rows_of_slots (h : p.Indexes addr s) (hx : s.slots x = some a) :
    addr a ∧ ∃ m, s.rows a = some m ∧ m.instanceId = x := by
  obtain ⟨m, hm, hid⟩ := h.linked x a hx
  exact ⟨h.addr_of_rows hm, m, hm, hid⟩

-- ---------------------------------------------------------------------------
-- The operations
-- ---------------------------------------------------------------------------

/-- A Put to an address that is there moves the slot of the private id if that
is a new one. -/
theorem Pool.put_index (hput : p.put now endpoint = some (p', added))
    (hl : p.index.lookup endpoint.canonicalAddr = some ptr) (he : p.elems[ptr]? = some e) :
    p'.index = if e.entry.instanceId =
      (putElem now endpoint n (some e)).entry.instanceId then p.index
      else (p.index.erase e.entry.instanceId).insert
        (putElem now endpoint n (some e)).entry.instanceId ptr := by
  simp only [Pool.put, hl, he, bind, Option.bind_some] at hput
  split at hput
  · next hne =>
    split at hput
    · next htag =>
      have hnew : putElem now endpoint n (some e) =
          { e with endpoint := endpoint, updated := now } := by
        rw [putElem, if_pos hne, if_pos htag]
      cases hput
      rw [hnew]
      exact ite_not ..
    · next htag =>
      have hnew : putElem now endpoint n (some e) = e := by rw [putElem, if_pos hne, if_neg htag]
      cases hput
      rw [hnew, if_pos rfl]
  · next hsame =>
    have hnew : putElem now endpoint n (some e) = { e with updated := now } := by
      rw [putElem, if_neg hsame]
    cases hput
    rw [hnew]
    exact (if_pos rfl).symm

theorem ne_of_addr (hb : addr b) (hx : ¬ addr x) : b ≠ x := fun he => hx (he ▸ hb)

section
variable (h : p.Indexes addr s) (ha : addr a) (hx : ¬ addr x)
include h ha hx

theorem Pool.Indexes.slots_new {r : Entry} (hrow : s.rows a = none) (hpriv : ¬ addr r.instanceId)
    (hindex : p'.index = (p.index.insert a ptr).insert r.instanceId ptr) :
    p'.index.lookup x = ((s.put Entry.instanceId a r).slots x).bind fun b => p'.index.lookup b := by
  rw [Indexed.slots_put_of_new hrow, hindex]
  split
  · next hxr =>
    rw [hxr, AList.lookup_insert, Option.bind_some, AList.lookup_insert_ne (ne_of_addr ha hpriv),
      AList.lookup_insert]
  · next hxr =>
    rw [AList.lookup_insert_ne hxr, AList.lookup_insert_ne (ne_of_addr ha hx).symm, h.slots x hx]
    refine Option.bind_congr fun b hb => ?_
    obtain ⟨hba, m, hm, -⟩ := h.rows_of_slots hb
    have hbe : b ≠ a := by
      rintro rfl
      rw [hrow] at hm
      cases hm
    rw [AList.lookup_insert_ne (ne_of_addr hba hpriv), AList.lookup_insert_ne hbe]

theorem Pool.Indexes.slots_old {old r : Entry} (hrow : s.rows a = some old)
    (hold : ¬ addr old.instanceId) (hnew : ¬ addr r.instanceId) (hl : p.index.lookup a = some ptr)
    (hindex : p'.index = if old.instanceId = r.instanceId then p.index
      else (p.index.erase old.instanceId).insert r.instanceId ptr) :
    p'.index.lookup x = ((s.put Entry.instanceId a r).slots x).bind fun b => p'.index.lookup b := by
  rw [Indexed.slots_put_of_old hrow]
  by_cases hid : old.instanceId = r.instanceId
  · rw [if_pos hid] at hindex ⊢
    rw [hindex]
    exact h.slots x hx
  · rw [if_neg hid] at hindex ⊢
    have hother : ∀ {b}, addr b → p'.index.lookup b = p.index.lookup b := by
      intro b hb
      rw [hindex, AList.lookup_insert_ne (ne_of_addr hb hnew),
        AList.lookup_erase_ne (ne_of_addr hb hold)]
    split
    · next hxr => rw [Option.bind_some, hother ha, hl, hindex, hxr, AList.lookup_insert]
    · next hxr =>
      rw [hindex, AList.lookup_insert_ne hxr]
      split
      · next hxo => rw [← hxo, AList.lookup_erase, Option.bind_none]
      · next hxo =>
        rw [AList.lookup_erase_ne (Ne.symm hxo), h.slots x hx, ← hindex]
        exact Option.bind_congr fun b hb => (hother (h.rows_of_slots hb).1).symm

theorem Pool.Indexes.slots_gone {old : Entry} (hrow : s.rows a = some old)
    (hold : ¬ addr old.instanceId) (hindex : p'.index = (p.index.erase a).erase old.instanceId) :
    p'.index.lookup x =
      ((s.drop Entry.instanceId (·.endpoint.canonicalAddr = a)).slots x).bind fun b =>
        p'.index.lookup b := by
  by_cases hxo : x = old.instanceId
  · have hgone : (s.drop Entry.instanceId (·.endpoint.canonicalAddr = a)).slots x = none := by
      refine Option.eq_none_iff_forall_ne_some.mpr fun b hb => ?_
      exact (Indexed.slots_drop_eq_some.mp hb).1 _ _ hrow (h.rows_eq_some.mp hrow).2 hxo.symm
    rw [hgone, Option.bind_none, hindex, hxo, AList.lookup_erase]
  · have hstay : (s.drop Entry.instanceId (·.endpoint.canonicalAddr = a)).slots x = s.slots x := by
      refine Option.ext fun b => Indexed.slots_drop_eq_some.trans
        (and_iff_right fun k m hm hcanon hid => hxo ?_)
      obtain ⟨-, rfl⟩ := h.rows_eq_some.mp hm
      rw [hcanon, hrow] at hm
      cases hm
      exact hid.symm
    rw [hstay, hindex, AList.lookup_erase_ne hxo,
      AList.lookup_erase_ne (ne_of_addr ha hx).symm, h.slots x hx]
    refine Option.bind_congr fun b hb => ?_
    obtain ⟨hba, m, hm, hid⟩ := h.rows_of_slots hb
    have hbe : b ≠ a := by
      rintro rfl
      rw [hrow] at hm
      cases hm
      exact hxo hid.symm
    rw [AList.lookup_erase_ne (ne_of_addr hba hold), AList.lookup_erase_ne hbe]

end

theorem Pool.Indexes.put (h : p.Indexes addr s) (hep : Addressed addr endpoint) (now : Int) :
    ∃ p' added, p.put now endpoint = some (p', added) ∧
      p'.Indexes addr (s.put Entry.instanceId endpoint.canonicalAddr
        (putElem now endpoint p.endpoints.length (p.elemAt endpoint.canonicalAddr)).entry) := by
  obtain ⟨p', added, hput, hsound, helems, -⟩ := h.sound.put hep now
  obtain ⟨ha, hpriv⟩ := hep
  have hlinked := Indexed.Linked.put h.linked endpoint.canonicalAddr
    (putElem now endpoint p.endpoints.length (p.elemAt endpoint.canonicalAddr)).entry
  refine ⟨p', added, hput, hsound, fun a ha' => ?_, fun a ha' => ?_, hlinked, fun x hx => ?_⟩
  · rw [helems a ha', Indexed.rows_put]
    split
    · rw [Option.map_some]
    · exact h.rows a ha'
  · rw [Indexed.rows_put, if_neg (ne_of_addr ha ha').symm]
    exact h.bare a ha'
  · have hrow := h.rows _ ha
    cases hl : p.index.lookup endpoint.canonicalAddr with
    | none =>
      have hindex : p'.index = (p.index.insert endpoint.canonicalAddr p.elems.length).insert
          endpoint.privateInstanceId p.elems.length := by
        rw [Pool.put, hl] at hput
        cases hput
        rfl
      rw [(h.sound.lookup_eq_none ha).mp hl] at hrow ⊢
      exact h.slots_new ha hx hrow hpriv hindex
    | some ptr =>
      obtain ⟨hp, -⟩ := (h.sound.index _ ptr ha).mp hl
      obtain ⟨e, he, -, hold⟩ := h.sound.elem hp
      have hat : p.elemAt endpoint.canonicalAddr = some e := by
        rw [Pool.elemAt, hl, Option.bind_some, he]
      have hnew := helems _ ha
      rw [if_pos rfl, hat] at hnew
      rw [hat] at hrow ⊢
      exact h.slots_old ha hx hrow hold.2 (hsound.addressed ha hnew).1.2 hl
        (Pool.put_index hput hl he)

theorem Pool.Indexes.removeEndpoint (h : p.Indexes addr s) (hptr : ptr ∈ p.endpoints)
    (he : p.elems[ptr]? = some e) :
    ∃ p', p.removeEndpoint ptr = some p' ∧ p'.endpoints.Perm (p.endpoints.erase ptr) ∧
      p'.Indexes addr (s.drop Entry.instanceId
        (·.endpoint.canonicalAddr = e.endpoint.canonicalAddr)) := by
  obtain ⟨p', hp', hsound, hmembers⟩ := h.sound.removeEndpoint hptr he
  obtain ⟨as, bs, hends⟩ := List.append_of_mem hptr
  obtain ⟨p'', hp'', -, hends', -, hindex⟩ := h.sound.isPlaced.removeEndpoint hends he
  rw [hp'] at hp''
  cases hp''
  have hm : e.entry ∈ p.members := Pool.mem_members.mpr ⟨ptr, hptr, e, he, rfl⟩
  have haddr : Addressed addr e.endpoint := h.sound.addr_of_mem hm
  have hperm : p'.endpoints.Perm (p.endpoints.erase ptr) := by
    have hnd := h.sound.isPlaced.nodup
    rw [hends, List.nodup_middle, List.nodup_cons] at hnd
    rw [hends', hends, List.erase_append_right _ fun has => hnd.1 (List.mem_append_left _ has),
      List.erase_cons_head]
    exact (lastFirst_perm bs).append_left as
  refine ⟨p', hp', hperm, hsound, fun a ha => Option.ext fun m => ?_, fun a ha => ?_,
    h.linked.drop _, fun x hx => ?_⟩
  · rw [Indexed.rows_drop_eq_some, h.rows_eq_some, hsound.entry_eq_some ha, hmembers]
    exact and_right_comm
  · refine Option.eq_none_iff_forall_ne_some.mpr fun m hm => ?_
    rw [Indexed.rows_drop_eq_some, h.bare a ha] at hm
    cases hm.1
  · exact h.slots_gone haddr.1 hx (h.rows_eq_some.mpr ⟨hm, rfl⟩) haddr.2 hindex

theorem Pool.Indexes.remove (h : p.Indexes addr s) (ha : addr endpoint.canonicalAddr) :
    ∃ p' removed, p.remove endpoint = some (p', removed) ∧
      p'.Indexes addr (s.drop Entry.instanceId ((PoolOp.remove endpoint).releases · = true)) := by
  have hkeep : (∀ m ∈ p.members, (PoolOp.remove endpoint).releases m = false) →
      p.Indexes addr (s.drop Entry.instanceId ((PoolOp.remove endpoint).releases · = true)) := by
    intro hnone
    rw [Indexed.drop_congr (Q := fun _ => False), Indexed.drop_false]
    · exact h
    · intro k m hm
      rw [hnone m (h.rows_eq_some.mp hm).1]
      exact iff_of_false Bool.false_ne_true not_false
  have hrel : ∀ {m : Entry}, (PoolOp.remove endpoint).releases m = true ↔
      m.endpoint.canonicalAddr = endpoint.canonicalAddr ∧
        m.endpoint.modificationTagSameOrNewer endpoint = true := by
    intro m
    simp only [PoolOp.releases, Bool.and_eq_true, decide_eq_true_eq]
  simp only [Pool.remove]
  split
  · split
    · next ptr hl =>
      obtain ⟨hp, hat⟩ := (h.sound.index _ ptr ha).mp hl
      obtain ⟨e, he, -, -⟩ := h.sound.elem hp
      have hcanon : e.endpoint.canonicalAddr = endpoint.canonicalAddr := by
        simpa [Pool.addressAt, he] using hat
      have hone : ∀ k m, s.rows k = some m → m.endpoint.canonicalAddr = endpoint.canonicalAddr →
          m = e.entry := by
        intro k m hm hma
        have hm' := h.rows_eq_some.mpr ⟨(h.rows_eq_some.mp hm).1, hma⟩
        rw [h.rows _ ha, Pool.elemAt, hl, Option.bind_some, he, Option.map_some] at hm'
        exact (Option.some.inj hm').symm
      simp only [he, bind, Option.bind_some]
      split
      · next htag =>
        obtain ⟨p', hp', -, hindexes⟩ := h.removeEndpoint hp he
        refine ⟨p', true, by simp [hp'], ?_⟩
        rw [Indexed.drop_congr (Q := (·.endpoint.canonicalAddr = e.endpoint.canonicalAddr))]
        · exact hindexes
        · intro k m hm
          rw [hrel, hcanon]
          refine and_iff_left_of_imp fun hma => ?_
          rw [hone k m hm hma]
          exact htag
      · next htag =>
        refine ⟨p, false, rfl, hkeep fun m hm => Bool.eq_false_iff.mpr fun hm' => htag ?_⟩
        obtain ⟨hma, hsame⟩ := hrel.mp hm'
        rwa [hone _ m (h.rows_eq_some.mpr ⟨hm, rfl⟩) hma] at hsame
    · next hl =>
      refine ⟨p, false, rfl, hkeep fun m hm => Bool.eq_false_iff.mpr fun hm' => ?_⟩
      have hrow := h.rows_eq_some.mpr ⟨hm, (hrel.mp hm').1⟩
      rw [h.rows _ ha, Pool.elemAt, hl] at hrow
      cases hrow
  · next hlen =>
    refine ⟨p, false, rfl, hkeep fun m hm => ?_⟩
    obtain ⟨ptr, hptr, -⟩ := Pool.mem_members.mp hm
    exact absurd (List.length_pos_of_mem hptr) hlen

/-- The loop of `PruneEndpoints` drops one element after the other: all in all
those that are gone. -/
theorem Pool.Indexes.pruneEndpoints (h : p.Indexes addr s) (threshold : Int64) (now : Int) :
    ∃ p' pruned, p.pruneEndpoints threshold now = some (p', pruned) ∧
      p'.Indexes addr (s.drop Entry.instanceId (·.stale threshold now = true)) := by
  obtain ⟨p', pruned, hp', -, hleft, -, hkeeps⟩ := h.sound.isPlaced.pruneEndpoints threshold now
  have hdrops : ∃ P : Entry → Prop, p'.Indexes addr (s.drop Entry.instanceId P) := by
    refine hkeeps (fun q => ∃ P : Entry → Prop, q.Indexes addr (s.drop Entry.instanceId P)) ?_
      ⟨fun _ => False, by rwa [Indexed.drop_false]⟩
    rintro q ptr q' ⟨P, hq⟩ - hptr hrem
    obtain ⟨e, he, -, -⟩ := hq.sound.elem hptr
    obtain ⟨q'', hrem', -, hq''⟩ := hq.removeEndpoint hptr he
    rw [hrem] at hrem'
    cases hrem'
    rw [Indexed.drop_drop] at hq''
    exact ⟨_, hq''⟩
  obtain ⟨P, hP⟩ := hdrops
  refine ⟨p', pruned, hp', ?_⟩
  rw [Indexed.drop_congr (Q := P)]
  · exact hP
  · intro k m hm
    obtain ⟨hmem, hcanon⟩ := h.rows_eq_some.mp hm
    -- a member is left exactly when it is not stale, and exactly when it was not dropped
    have hstays : m ∈ p'.members ↔ ¬ m.stale threshold now = true := by
      rw [hleft.mem_iff, List.mem_filter, and_iff_right hmem, Bool.not_eq_true', Bool.not_eq_true]
    have hdropped : m ∈ p'.members ↔ ¬ P m := by
      have hrow := hP.rows_eq_some (a := k) (m := m)
      rw [Indexed.rows_drop_eq_some, and_iff_right hm, and_iff_left hcanon] at hrow
      exact hrow.symm
    exact not_iff_not.mp (hstays.symm.trans hdropped)

theorem Pool.Indexes.touch (h : p.Indexes addr s) (hsound : p'.Sound addr)
    (hindex : p'.index = p.index) (f : Entry → Entry) (hf : ∀ m, (f m).instanceId = m.instanceId)
    (hrows : ∀ a, addr a → (p'.elemAt a).map EndpointElem.entry =
      ((p.elemAt a).map EndpointElem.entry).map f) :
    p'.Indexes addr (s.mapRows f) where
  sound := hsound
  rows a ha := by rw [hrows a ha, ← h.rows a ha, Indexed.mapRows]
  bare a ha := by simp [Indexed.mapRows, h.bare a ha]
  linked := h.linked.mapRows hf
  slots := by
    rw [hindex]
    exact h.slots

theorem Pool.Indexes.markUpdated (h : p.Indexes addr s) (t : Int) :
    (p.markUpdated t).Indexes addr (s.mapRows fun m => { m with updated := t }) := by
  obtain ⟨hsound, helems⟩ := h.sound.markUpdated t
  refine h.touch hsound rfl _ (fun _ => rfl) fun a ha => ?_
  rw [helems a ha, Option.map_map, Option.map_map]
  rfl

theorem Pool.Indexes.endpointFailed (h : p.Indexes addr s) (now : Int) (endpoint : Endpoint) :
    (p.endpointFailed now endpoint).Indexes addr s := by
  have hrows : ∀ q, (p.endpointFailed now endpoint).entryAt q = p.entryAt q := by
    intro q
    rw [Pool.endpointFailed]
    split
    · next ptr hl =>
      rw [Pool.entryAt, Pool.entryAt, List.getElem?_modify, Option.map_eq_map, Option.map_map]
      refine Option.map_congr fun e _ => ?_
      by_cases hq : ptr = q <;> simp [hq, EndpointElem.entry]
    · rfl
  have hindex : (p.endpointFailed now endpoint).index = p.index := by
    rw [Pool.endpointFailed]
    split <;> rfl
  have htouched := h.touch (h.sound.endpointFailed now endpoint) hindex id (fun _ => rfl)
    fun a _ => by
    rw [Pool.elemAt, Pool.elemAt, hindex, Option.map_id, id]
    cases p.index.lookup a with
    | none => rfl
    | some q => exact hrows q
  simpa [Indexed.mapRows] using htouched

-- ---------------------------------------------------------------------------
-- Runs
-- ---------------------------------------------------------------------------

/-- What a Put makes of the private id of an address. -/
theorem releases_put_iff (he : e.endpoint.canonicalAddr = endpoint.canonicalAddr) :
    e.entry.instanceId ≠ (putElem now endpoint n (some e)).entry.instanceId ↔
      (PoolOp.put endpoint now).releases e.entry = true := by
  simp only [PoolOp.releases, Bool.and_eq_true, decide_eq_true_eq, putElem]
  split
  · split
    · next htag =>
      exact ⟨fun hne => ⟨⟨he, hne⟩, htag⟩, fun hr => hr.1.2⟩
    · next htag => exact iff_of_false (fun hne => hne rfl) fun hr => htag hr.2
  · next hsame =>
    refine iff_of_false (fun hne => hne rfl) fun hr => hr.1.2 ?_
    rw [← not_not.mp hsame]
    rfl

theorem Pool.Indexes.findable_drop_iff (h : p.Indexes addr s) (op : PoolOp)
    (hfind : s.Findable Entry.instanceId) :
    (s.drop Entry.instanceId (op.releases · = true)).Findable Entry.instanceId ↔
      ¬ p.Strands op := by
  rw [Indexed.findable_drop_iff hfind]
  constructor
  · rintro hapart ⟨f, hf, g, hg, hrf, hrg, hid⟩
    exact hapart _ f _ g (h.rows_eq_some.mpr ⟨hf, rfl⟩) hrf (h.rows_eq_some.mpr ⟨hg, rfl⟩) hrg hid
  · intro hapart k f k' g hf hrf hg hrg hid
    exact hapart ⟨f, (h.rows_eq_some.mp hf).1, g, (h.rows_eq_some.mp hg).1, hrf, hrg, hid⟩

theorem Pool.Indexes.findable_put_iff (h : p.Indexes addr s) (hfind : s.Findable Entry.instanceId)
    (ha : addr endpoint.canonicalAddr) :
    (s.put Entry.instanceId endpoint.canonicalAddr
      (putElem now endpoint n (p.elemAt endpoint.canonicalAddr)).entry).Findable Entry.instanceId ↔
        ¬ p.Strands (.put endpoint now) := by
  have hrel : ∀ {f : Entry}, s.rows endpoint.canonicalAddr = some f →
      (f.instanceId ≠ (putElem now endpoint n (p.elemAt endpoint.canonicalAddr)).entry.instanceId ↔
        (PoolOp.put endpoint now).releases f = true) := by
    intro f hf
    have hcanon := (h.rows_eq_some.mp hf).2
    rw [h.rows _ ha] at hf
    obtain ⟨e, he, rfl⟩ := Option.map_eq_some_iff.mp hf
    rw [he]
    exact releases_put_iff hcanon
  have haddr : ∀ {f : Entry}, (PoolOp.put endpoint now).releases f = true →
      f.endpoint.canonicalAddr = endpoint.canonicalAddr := by
    intro f hf
    simp only [PoolOp.releases, Bool.and_eq_true, decide_eq_true_eq] at hf
    exact hf.1.1
  rw [Indexed.findable_put_iff hfind]
  constructor
  · rintro hapart ⟨f, hf, g, hg, hrf, hrg, hid⟩
    have hrow := h.rows_eq_some.mpr ⟨hf, haddr hrf⟩
    refine hapart f _ g hrow ((hrel hrow).mpr hrf) (fun hga => hrg ?_)
      (h.rows_eq_some.mpr ⟨hg, rfl⟩) hid
    have hrow' := h.rows_eq_some.mpr ⟨hg, hga⟩
    rw [hrow] at hrow'
    cases hrow'
    exact hrf
  · intro hapart f k g hf hne hk hg hid
    obtain ⟨hmem, hga⟩ := h.rows_eq_some.mp hg
    refine hapart ⟨f, (h.rows_eq_some.mp hf).1, g, hmem, (hrel hf).mp hne, fun hrg => hk ?_, hid⟩
    rw [← hga, haddr hrg]

/-- Every operation returns. It keeps the index, and all members findable
exactly when it does not take the slot of one that stays. -/
theorem Pool.Indexes.step (h : p.Indexes addr s) {op : PoolOp}
    (hop : ∀ e ∈ op.endpoint, Addressed addr e) :
    ∃ p' s', p.step op = some p' ∧ p'.Indexes addr s' ∧
      (s.Findable Entry.instanceId → (s'.Findable Entry.instanceId ↔ ¬ p.Strands op)) := by
  have hidle : ∀ {op}, (∀ m, PoolOp.releases op m = false) → ¬ p.Strands op := by
    rintro op hno ⟨f, -, -, -, hf, -⟩
    rw [hno f] at hf
    cases hf
  cases op with
  | put endpoint now =>
    obtain ⟨p', added, hput, hindexes⟩ := h.put (hop _ rfl) now
    exact ⟨p', _, by rw [Pool.step, hput, Option.map_some], hindexes,
      fun hfind => h.findable_put_iff hfind (hop _ rfl).1⟩
  | remove endpoint =>
    obtain ⟨p', removed, hrem, hindexes⟩ := h.remove (hop _ rfl).1
    exact ⟨p', _, by rw [Pool.step, hrem, Option.map_some], hindexes, h.findable_drop_iff _⟩
  | pruneEndpoints threshold now =>
    obtain ⟨p', pruned, hprune, hindexes⟩ := h.pruneEndpoints threshold now
    exact ⟨p', _, by rw [Pool.step, hprune, Option.map_some], hindexes,
      h.findable_drop_iff (.pruneEndpoints threshold now)⟩
  | markUpdated t =>
    refine ⟨_, _, rfl, h.markUpdated t, fun hfind => iff_of_true ?_ (hidle fun _ => rfl)⟩
    exact (Indexed.findable_mapRows (f := fun m : Entry => { m with updated := t }) fun _ =>
      rfl).mpr hfind
  | endpointFailed endpoint now =>
    exact ⟨_, _, rfl, h.endpointFailed now endpoint,
      fun hfind => iff_of_true hfind (hidle fun _ => rfl)⟩

def Pool.Findable (p : Pool) : Prop :=
  ∀ m ∈ p.members, ∃ f ∈ p.members, p.findById m.instanceId = some f.endpoint ∧
    f.instanceId = m.instanceId

theorem Pool.Indexes.findable_iff (h : p.Indexes addr s) :
    s.Findable Entry.instanceId ↔ p.Findable := by
  constructor
  · intro hfind m hm
    obtain ⟨a, hslot⟩ := Option.ne_none_iff_exists'.mp (hfind _ m (h.rows_eq_some.mpr ⟨hm, rfl⟩))
    obtain ⟨ha, f, hf, hid⟩ := h.rows_of_slots hslot
    refine ⟨f, (h.rows_eq_some.mp hf).1, ?_, hid⟩
    rw [h.rows a ha] at hf
    obtain ⟨e, he, rfl⟩ := Option.map_eq_some_iff.mp hf
    have hel : p.elemAt m.instanceId = p.elemAt a := by
      rw [Pool.elemAt, h.slots m.instanceId (h.sound.addr_of_mem hm).2, hslot,
        Option.bind_some, Pool.elemAt]
    rw [Pool.findById, hel, he, Option.map_some]
    rfl
  · intro hfind k m hm hnone
    obtain ⟨hmem, -⟩ := h.rows_eq_some.mp hm
    obtain ⟨f, -, hf, -⟩ := hfind m hmem
    rw [Pool.findById, Pool.elemAt, h.slots m.instanceId (h.sound.addr_of_mem hmem).2, hnone] at hf
    cases hf

structure Pool.Represented (p : Pool) : Prop where
  placed : p.Placed
  distinct : p.addresses.Nodup
  indexed : ∀ ptr ∈ p.endpoints, ∃ e, p.elems[ptr]? = some e ∧
    p.index.lookup e.endpoint.canonicalAddr = some ptr
  refers : ∀ x ptr, p.index.lookup x = some ptr → ptr ∈ p.endpoints ∧
    ∃ e, p.elems[ptr]? = some e ∧ (x = e.endpoint.canonicalAddr ∨ x = e.endpoint.privateInstanceId)

theorem Pool.Indexes.represented (h : p.Indexes addr s) : p.Represented := by
  refine ⟨h.sound.isPlaced, h.sound.addresses_nodup, fun ptr hptr => ?_, fun x ptr hx => ?_⟩
  · obtain ⟨e, he, -, haddr⟩ := h.sound.elem hptr
    exact ⟨e, he, (h.sound.index _ ptr haddr.1).mpr ⟨hptr, by simp [Pool.addressAt, he]⟩⟩
  · by_cases ha : addr x
    · obtain ⟨hptr, hat⟩ := (h.sound.index x ptr ha).mp hx
      obtain ⟨e, he, hcanon⟩ := Option.map_eq_some_iff.mp hat
      exact ⟨hptr, e, he, .inl hcanon.symm⟩
    · rw [h.slots x ha] at hx
      obtain ⟨a, hslot, hl⟩ := Option.bind_eq_some_iff.mp hx
      obtain ⟨ha, m, hm, hid⟩ := h.rows_of_slots hslot
      obtain ⟨hptr, -⟩ := (h.sound.index a ptr ha).mp hl
      obtain ⟨e, he, -, -⟩ := h.sound.elem hptr
      rw [h.rows a ha, Pool.elemAt, hl, Option.bind_some, he, Option.map_some] at hm
      cases hm
      exact ⟨hptr, e, he, .inr hid.symm⟩

theorem Pool.Represented.mem_of_findById (h : p.Represented) (hx : p.findById x = some endpoint) :
    ∃ m ∈ p.members, m.endpoint = endpoint := by
  obtain ⟨e, he, rfl⟩ := Option.map_eq_some_iff.mp hx
  obtain ⟨ptr, hl, he⟩ := Option.bind_eq_some_iff.mp he
  exact ⟨e.entry, Pool.mem_members.mpr ⟨ptr, (h.refers x ptr hl).1, e, he, rfl⟩, rfl⟩

end

def addressesOf (ops : List PoolOp) (a : Str) : Prop :=
  ∃ op ∈ ops, ∃ e ∈ op.endpoint, e.canonicalAddr = a

def IdsApart (ops : List PoolOp) : Prop :=
  ∀ op ∈ ops, ∀ e ∈ op.endpoint, ¬ addressesOf ops e.privateInstanceId

instance (ops : List PoolOp) (a : Str) : Decidable (addressesOf ops a) :=
  inferInstanceAs (Decidable (∃ op ∈ ops, ∃ e ∈ op.endpoint, _))

instance (ops : List PoolOp) : Decidable (IdsApart ops) :=
  inferInstanceAs (Decidable (∀ op ∈ ops, ∀ e ∈ op.endpoint, _))

theorem IdsApart.addressed (h : IdsApart ops) (hop : op ∈ ops) :
    ∀ e ∈ op.endpoint, Addressed (addressesOf ops) e :=
  fun e he => ⟨⟨op, hop, e, he, rfl⟩, h op hop e he⟩

/-- Whatever is done to a pool, its representation is sound, and what
`removeEndpoint` removes is the element it is given. -/
theorem pool_represented (retryAfterFailure : Int64) (contextPath : Str) (ops : List PoolOp)
    (hids : IdsApart ops) :
    ∃ p, run Pool.step (newPool retryAfterFailure contextPath) ops = some p ∧ p.Represented ∧
      (∀ x endpoint, p.findById x = some endpoint → ∃ m ∈ p.members, m.endpoint = endpoint) ∧
      ∀ ptr ∈ p.endpoints, ∃ p', p.removeEndpoint ptr = some p' ∧
        p'.endpoints.Perm (p.endpoints.erase ptr) := by
  obtain ⟨p, hp, s, h⟩ := run_returns (I := fun p : Pool => ∃ s, p.Indexes (addressesOf ops) s)
    (fun p op hop ⟨s, h⟩ => by
      obtain ⟨p', s', hp', h', -⟩ := h.step (hids.addressed hop)
      exact ⟨p', hp', s', h'⟩)
    (show ∃ s, (newPool retryAfterFailure contextPath).Indexes (addressesOf ops) s from
      ⟨.empty, newPool_indexes (addressesOf ops)⟩)
  refine ⟨p, hp, h.represented, fun x endpoint => h.represented.mem_of_findById, fun ptr hptr => ?_⟩
  obtain ⟨e, he, -, -⟩ := h.sound.elem hptr
  obtain ⟨p', hp', hperm, -⟩ := h.removeEndpoint hptr he
  exact ⟨p', hp', hperm⟩

namespace Sample

def instanceOf (guid : String) (port : UInt16) (index : UInt32) : Endpoint :=
  newEndpoint index.toNat guid.toList "10.0.0.1".toList port guid.toList 0 ⟨"tag".toList, index⟩

def rekeyed : List PoolOp :=
  [.put (instanceOf "app" 80 1) 0, .put (instanceOf "app" 81 1) 0, .put (instanceOf "other" 80 2) 5,
    .endpointFailed (instanceOf "app" 81 1) 6, .markUpdated 7, .remove (instanceOf "app" 81 1),
    .pruneEndpoints 5 20]

end Sample

theorem rekeyed_represented :
    IdsApart Sample.rekeyed ∧ ∃ p, run Pool.step (newPool 0 "/".toList) Sample.rekeyed = some p ∧
      p.Represented := by
  have hids : IdsApart Sample.rekeyed := by decide
  obtain ⟨p, hp, hrep, -⟩ := pool_represented 0 "/".toList Sample.rekeyed hids
  exact ⟨hids, p, hp, hrep⟩

/-- All members can be found throughout a run exactly when no operation gives a
private id up that another member keeps. -/
theorem members_findable_iff (retryAfterFailure : Int64) (contextPath : Str) (ops : List PoolOp)
    (hids : IdsApart ops) :
    (∀ before, before <+: ops → ∀ p, run Pool.step (newPool retryAfterFailure contextPath) before =
      some p →
      p.Findable) ↔
      Along Pool.step (fun p op => ¬ p.Strands op) (newPool retryAfterFailure contextPath) ops := by
  refine forall_prefix_iff_along (J := fun p => ∃ s, p.Indexes (addressesOf ops) s) ?_ ?_
    ⟨.empty, newPool_indexes (addressesOf ops)⟩ (by simp [Pool.Findable, Pool.members, newPool])
  · rintro p t op hop ⟨s, h⟩ ht
    obtain ⟨p', s', hp', h', -⟩ := h.step (hids.addressed hop)
    rw [ht] at hp'
    cases hp'
    exact ⟨s', h'⟩
  · rintro p t op hop ⟨s, h⟩ hfind ht
    obtain ⟨p', s', hp', h', hiff⟩ := h.step (hids.addressed hop)
    rw [ht] at hp'
    cases hp'
    rw [← h'.findable_iff]
    exact hiff (h.findable_iff.mpr hfind)

namespace Sample

def restarted : List PoolOp :=
  [.put (instanceOf "app" 80 1) 0, .put (instanceOf "other" 81 1) 0, .put (instanceOf "new" 80 2) 5,
    .remove (instanceOf "other" 81 1)]

def scaledDown : List PoolOp :=
  [.put (instanceOf "app" 80 1) 0, .put (instanceOf "app" 81 1) 0, .remove (instanceOf "app" 80 1)]

end Sample

theorem restarted_findable : IdsApart Sample.restarted ∧
    ∀ before, before <+: Sample.restarted →
      ∀ p, run Pool.step (newPool 0 "/".toList) before = some p → p.Findable := by
  have hids : IdsApart Sample.restarted := by decide
  exact ⟨hids, (members_findable_iff 0 "/".toList Sample.restarted hids).mpr (by decide)⟩

/-- The instance that is left has the guid, but it leads nowhere. -/
theorem scaledDown_not_found : IdsApart Sample.scaledDown ∧
    (run Pool.step (newPool 0 "/".toList) Sample.scaledDown).map
      (fun p => (p.members.map Entry.instanceId, p.findById "app".toList)) =
        some (["app".toList], none) := by
  decide

end BigipCtlr.Route
