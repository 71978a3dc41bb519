import BigipCtlr.Go.Map
import BigipCtlr.Lib.List
import BigipCtlr.Lib.Run
import BigipCtlr.Route

/-!
# The pool of a route

`route.Pool`: the endpoints of a route, found by their address or the private
id of their instance. The elements are shared between the slice and the
index, so they stand in a list of their own and a pointer is a place in it.
A Go panic is `none`; the clock is an argument.
-/

namespace BigipCtlr.Route

open Go Lib

structure EndpointElem where
  endpoint : Endpoint
  index : Nat
  updated : Int
  failedAt : Option Int := none
  deriving DecidableEq

structure Entry where
  endpoint : Endpoint
  updated : Int
  deriving DecidableEq

def EndpointElem.entry (e : EndpointElem) : Entry := ⟨e.endpoint, e.updated⟩

structure Pool where
  elems : List EndpointElem
  endpoints : List Nat
  index : GoMap Str Nat
  contextPath : Str
  retryAfterFailure : Int64
  nextIdx : Int
  deriving DecidableEq

def newPool (retryAfterFailure : Int64) (contextPath : Str) : Pool :=
  { elems := []
    endpoints := []
    index := ∅
    contextPath := contextPath
    retryAfterFailure := retryAfterFailure
    nextIdx := -1 }

/-- `Put`, true when the endpoint was added or updated. -/
def Pool.put (now : Int) (p : Pool) (endpoint : Endpoint) : Option (Pool × Bool) :=
  match p.index.lookup endpoint.canonicalAddr with
  | some ptr => do
    let e ← p.elems[ptr]?
    if e.endpoint ≠ endpoint then
      if e.endpoint.modificationTag.succeededBy endpoint.modificationTag then
        let index := if e.endpoint.privateInstanceId ≠ endpoint.privateInstanceId then
          (p.index.erase e.endpoint.privateInstanceId).insert endpoint.privateInstanceId ptr
          else p.index
        let elems := p.elems.set ptr { e with endpoint := endpoint, updated := now }
        some ({ p with elems := elems, index := index }, true)
      else some (p, false)
    else some ({ p with elems := p.elems.set ptr { e with updated := now } }, true)
  | none =>
    let e := p.elems.length
    some ({ p with
        elems := p.elems ++ [⟨endpoint, p.endpoints.length, now, none⟩]
        endpoints := p.endpoints ++ [e]
        index := (p.index.insert endpoint.canonicalAddr e).insert endpoint.privateInstanceId e },
      true)

/-- `removeEndpoint`: the last element takes the place of the one removed,
which is where that one says it is. -/
def Pool.removeEndpoint (p : Pool) (ptr : Nat) : Option Pool := do
  let e ← p.elems[ptr]?
  let last ← p.endpoints[p.endpoints.length - 1]?
  if e.index < p.endpoints.length then
    let moved ← p.elems[last]?
    some { p with
      elems := if e.index < p.endpoints.length - 1 then
        p.elems.set last { moved with index := e.index }
        else p.elems
      endpoints := (p.endpoints.set e.index last).take (p.endpoints.length - 1)
      index := (p.index.erase e.endpoint.canonicalAddr).erase e.endpoint.privateInstanceId }
  else none

def Pool.remove (p : Pool) (endpoint : Endpoint) : Option (Pool × Bool) :=
  if 0 < p.endpoints.length then
    match p.index.lookup endpoint.canonicalAddr with
    | some ptr => do
      let e ← p.elems[ptr]?
      if e.endpoint.modificationTagSameOrNewer endpoint then (p.removeEndpoint ptr).map (·, true)
      else some (p, false)
    | none => some (p, false)
  else some (p, false)

def effectiveThreshold (staleThreshold defaultThreshold : Int64) : Int64 :=
  if 0 < staleThreshold ∧ staleThreshold < defaultThreshold then staleThreshold
    else defaultThreshold

def Entry.effectiveThreshold (m : Entry) (defaultThreshold : Int64) : Int64 :=
  Route.effectiveThreshold m.endpoint.staleThreshold defaultThreshold

/-- A member was not updated within its threshold, or the default one. The
threshold is negated as a machine integer and added to the time. -/
def Entry.stale (e : Entry) (defaultThreshold : Int64) (now : Int) : Bool :=
  e.updated < now + (-(e.effectiveThreshold defaultThreshold)).toInt

def EndpointElem.stale (e : EndpointElem) (defaultThreshold : Int64) (now : Int) : Bool :=
  e.entry.stale defaultThreshold now

def Pool.pruneFrom (defaultThreshold : Int64) (now : Int) :
    Nat → Pool → Nat → Option (Pool × List Endpoint)
  | 0, p, _ => some (p, [])
  | n + 1, p, i => do
    let ptr ← p.endpoints[i]?
    let e ← p.elems[ptr]?
    if e.stale defaultThreshold now then
      let p ← p.removeEndpoint ptr
      let (p, pruned) ← pruneFrom defaultThreshold now n p i
      some (p, e.endpoint :: pruned)
    else pruneFrom defaultThreshold now n p (i + 1)

def Pool.pruneEndpoints (defaultThreshold : Int64) (now : Int) (p : Pool) :
    Option (Pool × List Endpoint) :=
  Pool.pruneFrom defaultThreshold now p.endpoints.length p 0

/-- What `p.index[id]` points to. -/
def Pool.elemAt (p : Pool) (id : Str) : Option EndpointElem :=
  (p.index.lookup id).bind fun ptr => p.elems[ptr]?

def Pool.findById (p : Pool) (id : Str) : Option Endpoint := (p.elemAt id).map EndpointElem.endpoint

def Pool.isEmpty (p : Pool) : Bool := p.endpoints.length = 0

def Pool.markUpdated (p : Pool) (t : Int) : Pool :=
  let mark (elems : List EndpointElem) (ptr : Nat) : List EndpointElem :=
    elems.modify ptr fun e => { e with updated := t }
  { p with elems := p.endpoints.foldl mark p.elems }

def Pool.endpointFailed (now : Int) (p : Pool) (endpoint : Endpoint) : Pool :=
  match p.index.lookup endpoint.canonicalAddr with
  | some ptr => { p with elems := p.elems.modify ptr fun e => { e with failedAt := some now } }
  | none => p

-- ---------------------------------------------------------------------------
-- Members
-- ---------------------------------------------------------------------------

def Pool.entryAt (p : Pool) (ptr : Nat) : Option Entry := p.elems[ptr]?.map EndpointElem.entry

def Pool.members (p : Pool) : List Entry := p.endpoints.filterMap p.entryAt

def Pool.Placed (p : Pool) : Prop :=
  ∀ (i ptr : Nat), p.endpoints[i]? = some ptr → ∃ e, p.elems[ptr]? = some e ∧ e.index = i

section
variable {p p' : Pool}

theorem Pool.Placed.nodup (h : p.Placed) : p.endpoints.Nodup := by
  refine List.nodup_iff_getElem?_ne_getElem?.mpr fun i j hij hj he => ?_
  obtain ⟨ptr, hptr⟩ : ∃ ptr, p.endpoints[j]? = some ptr := ⟨_, List.getElem?_eq_getElem hj⟩
  obtain ⟨e, he₁, hi⟩ := h i ptr (he.trans hptr)
  obtain ⟨e', he₂, hj⟩ := h j ptr hptr
  rw [he₁] at he₂
  cases he₂
  omega

theorem Pool.Placed.elem (h : p.Placed) (hp : ptr ∈ p.endpoints) : ∃ e, p.elems[ptr]? = some e := by
  obtain ⟨i, hi, rfl⟩ := List.getElem_of_mem hp
  obtain ⟨e, he, -⟩ := h i _ (List.getElem?_eq_getElem hi)
  exact ⟨e, he⟩

theorem Pool.mem_members : m ∈ p.members ↔
    ∃ ptr ∈ p.endpoints, ∃ e, p.elems[ptr]? = some e ∧ e.entry = m := by
  simp only [Pool.members, Pool.entryAt, List.mem_filterMap, Option.map_eq_some_iff]

/-- `removeEndpoint` takes the element it is given out of the slice, and the
last one moves to its place. -/
theorem Pool.Placed.removeEndpoint (h : p.Placed) (hends : p.endpoints = as ++ ptr :: bs)
    (he : p.elems[ptr]? = some e) :
    ∃ p', p.removeEndpoint ptr = some p' ∧ p'.Placed ∧ p'.endpoints = as ++ lastFirst bs ∧
      (∀ q, p'.entryAt q = p.entryAt q) ∧
      p'.index = (p.index.erase e.endpoint.canonicalAddr).erase e.endpoint.privateInstanceId := by
  have hlen : p.endpoints.length = as.length + bs.length + 1 := by
    rw [hends, List.length_append, List.length_cons]
    omega
  have hindex : e.index = as.length := by
    obtain ⟨f, hf, hfi⟩ := h as.length ptr (by simp [hends])
    rw [he] at hf
    cases hf
    exact hfi
  obtain ⟨last, hlast⟩ : ∃ last, p.endpoints[as.length + bs.length]? = some last :=
    ⟨_, List.getElem?_eq_getElem (by omega)⟩
  obtain ⟨moved, hmoved, hmovedpos⟩ := h _ _ hlast
  have hlastlt := (List.getElem?_eq_some_iff.mp hmoved).1
  have helem : ∀ q, (if e.index < p.endpoints.length - 1 then
      p.elems.set last { moved with index := e.index }
      else p.elems)[q]? = if q = last ∧ 0 < bs.length then some { moved with index := as.length }
    else p.elems[q]? := by
    intro q
    rw [hlen, hindex]
    by_cases hbs : 0 < bs.length
    · rw [if_pos (by omega), List.getElem?_set]
      by_cases hq : q = last
      · simp [hq, hlastlt, hbs]
      · rw [if_neg (Ne.symm hq), if_neg fun h => hq h.1]
    · rw [if_neg (by omega), if_neg fun h => hbs h.2]
  refine ⟨{ p with
      elems := if e.index < p.endpoints.length - 1 then
        p.elems.set last { moved with index := e.index } else p.elems
      endpoints := (p.endpoints.set e.index last).take (p.endpoints.length - 1)
      index := (p.index.erase e.endpoint.canonicalAddr).erase e.endpoint.privateInstanceId },
    ?_, ?_, ?_, ?_, rfl⟩
  · simp only [Pool.removeEndpoint, he, hlen, Nat.add_sub_cancel, hlast, hmoved, bind,
      Option.bind_some]
    rw [if_pos (by omega)]
  · intro j q hq
    simp only [List.getElem?_take, hlen, Nat.add_sub_cancel, List.getElem?_set, hindex] at hq
    simp only [helem]
    split at hq
    · split at hq
      · next hj =>
        rw [if_pos (by omega)] at hq
        cases hq
        exact ⟨_, if_pos ⟨rfl, by omega⟩, hj⟩
      · next hj =>
        obtain ⟨f, hf, hfj⟩ := h j q hq
        refine ⟨f, ?_, hfj⟩
        rw [if_neg, hf]
        rintro ⟨rfl, -⟩
        rw [hmoved] at hf
        cases hf
        omega
    · cases hq
  · simp only [hlen, Nat.add_sub_cancel, hindex]
    rw [hends] at hlast ⊢
    exact take_set_last as bs hlast
  · intro q
    simp only [Pool.entryAt, helem]
    split
    · next hq =>
      rw [hq.1, hmoved]
      rfl
    · rfl

/-- The loop of `PruneEndpoints` takes exactly the stale elements out that are
still to be looked at, and keeps whatever `removeEndpoint` keeps. -/
theorem Pool.Placed.pruneFrom (h : p.Placed) (hends : p.endpoints = as ++ bs)
    (threshold : Int64) (now : Int) :
    ∃ p' pruned cs, Pool.pruneFrom threshold now bs.length p as.length =
      some (p', pruned) ∧ p'.Placed ∧
      p'.endpoints = as ++ cs ∧ (∀ q, p'.entryAt q = p.entryAt q) ∧
      (cs.filterMap p.entryAt).Perm ((bs.filterMap p.entryAt).filter (!·.stale threshold now)) ∧
      pruned.Perm (((bs.filterMap p.entryAt).filter (·.stale threshold now)).map Entry.endpoint) ∧
      ∀ I : Pool → Prop, (∀ p ptr p', I p → p.Placed → ptr ∈ p.endpoints →
        p.removeEndpoint ptr = some p' → I p') →
        I p → I p' := by
  generalize hn : bs.length = n
  induction n generalizing p as bs with
  | zero =>
    obtain rfl := List.length_eq_zero_iff.mp hn
    exact ⟨p, [], [], rfl, h, hends, fun _ => rfl, .nil, .nil, fun _ _ hI => hI⟩
  | succ n ih =>
    obtain ⟨ptr, bs, rfl⟩ := List.exists_cons_of_length_eq_add_one hn
    have hlen : bs.length = n := by simpa using hn
    have hptr : p.endpoints[as.length]? = some ptr := by simp [hends]
    obtain ⟨e, he, -⟩ := h _ _ hptr
    have hentry : p.entryAt ptr = some e.entry := by rw [Pool.entryAt, he, Option.map_some]
    simp only [Pool.pruneFrom, hptr, he, bind, Option.bind_some, List.filterMap_cons_some hentry,
      List.filter_cons]
    split
    · next hstale =>
      -- the element that moves into the gap is looked at next
      obtain ⟨p₁, hp₁, h₁, hends₁, hsame₁, -⟩ := h.removeEndpoint hends he
      have hperm := lastFirst_perm bs
      obtain ⟨p', pruned, cs, hp', h', hends', hsame, hleft, hpruned, hkeeps⟩ :=
        ih h₁ hends₁ (hperm.length_eq.trans hlen)
      have hfun : p₁.entryAt = p.entryAt := funext hsame₁
      rw [hfun] at hleft hpruned
      have hmoved := hperm.filterMap p.entryAt
      have hst : e.entry.stale threshold now = true := hstale
      refine ⟨p', e.endpoint :: pruned, cs, by simp [hp₁, hp'], h', hends',
        fun q => (hsame q).trans (hsame₁ q), ?_, ?_, ?_⟩
      · simpa [hst] using hleft.trans (hmoved.filter _)
      · rw [if_pos hst, List.map_cons]
        exact (hpruned.trans ((hmoved.filter _).map _)).cons _
      · intro I hI hp
        exact hkeeps I hI (hI p ptr p₁ hp h (List.mem_of_getElem? hptr) hp₁)
    · next hstale =>
      have hst : e.entry.stale threshold now = false := Bool.not_eq_true _ ▸ hstale
      obtain ⟨p', pruned, cs, hp', h', hends', hsame, hleft, hpruned, hkeeps⟩ :=
        ih h (show p.endpoints = (as ++ [ptr]) ++ bs by simpa using hends) hlen
      rw [List.length_append, List.length_singleton] at hp'
      refine ⟨p', pruned, ptr :: cs, hp', h', by simpa using hends', hsame, ?_, ?_, hkeeps⟩
      · rw [List.filterMap_cons_some hentry]
        simpa [hst] using hleft
      · simpa [hst] using hpruned

theorem Pool.Placed.pruneEndpoints (h : p.Placed) (threshold : Int64) (now : Int) :
    ∃ p' pruned, p.pruneEndpoints threshold now = some (p', pruned) ∧ p'.Placed ∧
      p'.members.Perm (p.members.filter (!·.stale threshold now)) ∧
      pruned.Perm ((p.members.filter (·.stale threshold now)).map Entry.endpoint) ∧
      ∀ I : Pool → Prop, (∀ p ptr p', I p → p.Placed → ptr ∈ p.endpoints →
        p.removeEndpoint ptr = some p' → I p') →
        I p → I p' := by
  obtain ⟨p', pruned, cs, hp', h', hends, hsame, hleft, hpruned, hkeeps⟩ :=
    h.pruneFrom (List.nil_append p.endpoints).symm threshold now
  refine ⟨p', pruned, hp', h', ?_, hpruned, hkeeps⟩
  rw [Pool.members, funext hsame, hends]
  exact hleft

end

def Pool.addressAt (p : Pool) (ptr : Nat) : Option Str :=
  p.elems[ptr]?.map fun e => e.endpoint.canonicalAddr

def Pool.addresses (p : Pool) : List Str := p.endpoints.filterMap p.addressAt

/-- Which strings are addresses: that of an endpoint is, its private id is
not. -/
def Addressed (addr : Str → Prop) (e : Endpoint) : Prop :=
  addr e.canonicalAddr ∧ ¬ addr e.privateInstanceId

/-- Every element is where it says, and an address leads to the element that
has it. -/
structure Pool.Sound (addr : Str → Prop) (p : Pool) : Prop where
  placed : ∀ (i ptr : Nat), p.endpoints[i]? = some ptr →
    ∃ e, p.elems[ptr]? = some e ∧ e.index = i ∧ Addressed addr e.endpoint
  index : ∀ a ptr, addr a → (p.index.lookup a = some ptr ↔
    ptr ∈ p.endpoints ∧ p.addressAt ptr = some a)

theorem newPool_sound (addr : Str → Prop) : (newPool retry path).Sound addr :=
  ⟨by simp [newPool], by simp [newPool]⟩

section
variable {addr : Str → Prop} {p p' : Pool}

theorem Pool.Sound.elem (h : p.Sound addr) (hp : ptr ∈ p.endpoints) :
    ∃ e, p.elems[ptr]? = some e ∧ p.endpoints[e.index]? = some ptr ∧ Addressed addr e.endpoint := by
  obtain ⟨i, hi, rfl⟩ := List.getElem_of_mem hp
  obtain ⟨e, he, rfl, haddr⟩ := h.placed i _ (List.getElem?_eq_getElem hi)
  exact ⟨e, he, List.getElem?_eq_getElem hi, haddr⟩

theorem Pool.Sound.isPlaced (h : p.Sound addr) : p.Placed := by
  intro i ptr hi
  obtain ⟨e, he, hpos, -⟩ := h.placed i ptr hi
  exact ⟨e, he, hpos⟩

theorem Pool.mem_addresses : a ∈ p.addresses ↔ ∃ ptr ∈ p.endpoints, p.addressAt ptr = some a :=
  List.mem_filterMap

theorem Pool.Sound.elemAt_eq_some (h : p.Sound addr) (ha : addr a) :
    p.elemAt a = some e ↔ ∃ ptr, p.endpoints[e.index]? = some ptr ∧ p.elems[ptr]? = some e ∧
      e.endpoint.canonicalAddr = a := by
  simp only [Pool.elemAt, Option.bind_eq_some_iff]
  constructor
  · rintro ⟨ptr, hl, he⟩
    obtain ⟨hp, hat⟩ := (h.index a ptr ha).mp hl
    obtain ⟨f, hf, hpos, -⟩ := h.elem hp
    rw [he] at hf
    cases hf
    exact ⟨ptr, hpos, he, by simpa [Pool.addressAt, he] using hat⟩
  · rintro ⟨ptr, hpos, he, hcanon⟩
    exact ⟨ptr, (h.index a ptr ha).mpr
      ⟨List.mem_of_getElem? hpos, by simp [Pool.addressAt, he, hcanon]⟩, he⟩

theorem Pool.Sound.addressed (h : p.Sound addr) (ha : addr a) (he : p.elemAt a = some e) :
    Addressed addr e.endpoint ∧ e.endpoint.canonicalAddr = a := by
  obtain ⟨ptr, hpos, hptr, hcanon⟩ := (h.elemAt_eq_some ha).mp he
  obtain ⟨f, hf, -, haddr⟩ := h.placed _ _ hpos
  rw [hptr] at hf
  cases hf
  exact ⟨haddr, hcanon⟩

theorem Pool.Sound.mem_addresses (h : p.Sound addr) :
    a ∈ p.addresses ↔ addr a ∧ (p.elemAt a).isSome = true := by
  rw [Pool.mem_addresses, Option.isSome_iff_exists]
  constructor
  · rintro ⟨ptr, hp, hat⟩
    obtain ⟨e, he, hpos, haddr⟩ := h.elem hp
    have hcanon : e.endpoint.canonicalAddr = a := by simpa [Pool.addressAt, he] using hat
    have ha : addr a := hcanon ▸ haddr.1
    exact ⟨ha, e, (h.elemAt_eq_some ha).mpr ⟨ptr, hpos, he, hcanon⟩⟩
  · rintro ⟨ha, e, he⟩
    obtain ⟨ptr, hpos, he, hcanon⟩ := (h.elemAt_eq_some ha).mp he
    exact ⟨ptr, List.mem_of_getElem? hpos, by simp [Pool.addressAt, he, hcanon]⟩

theorem Pool.Sound.addresses_nodup (h : p.Sound addr) : p.addresses.Nodup := by
  refine List.pairwise_filterMap.mpr (h.isPlaced.nodup.imp_of_mem ?_)
  rintro x y hx hy hne a hxa b hya rfl
  have ha := (h.mem_addresses.mp (Pool.mem_addresses.mpr ⟨x, hx, hxa⟩)).1
  have hx' := (h.index a x ha).mpr ⟨hx, hxa⟩
  have hy' := (h.index a y ha).mpr ⟨hy, hya⟩
  exact hne (Option.some.inj (hx'.symm.trans hy'))

theorem Pool.addresses_eq (p : Pool) : p.addresses = p.members.map (·.endpoint.canonicalAddr) := by
  rw [Pool.members, List.map_filterMap, Pool.addresses]
  refine List.filterMap_congr fun ptr _ => ?_
  rw [Pool.entryAt, Option.map_map]
  rfl

theorem Pool.Sound.entry_eq_some (h : p.Sound addr) (ha : addr a) :
    (p.elemAt a).map EndpointElem.entry = some m ↔
      m ∈ p.members ∧ m.endpoint.canonicalAddr = a := by
  rw [Option.map_eq_some_iff, Pool.mem_members]
  constructor
  · rintro ⟨e, he, rfl⟩
    obtain ⟨ptr, hpos, he, hcanon⟩ := (h.elemAt_eq_some ha).mp he
    exact ⟨⟨ptr, List.mem_of_getElem? hpos, e, he, rfl⟩, hcanon⟩
  · rintro ⟨⟨ptr, hptr, e, he, rfl⟩, hcanon⟩
    obtain ⟨f, hf, hpos, -⟩ := h.elem hptr
    rw [he] at hf
    cases hf
    exact ⟨e, (h.elemAt_eq_some ha).mpr ⟨ptr, hpos, he, hcanon⟩, rfl⟩

theorem Pool.Sound.addr_of_mem (h : p.Sound addr) (hm : m ∈ p.members) :
    Addressed addr m.endpoint := by
  obtain ⟨ptr, hptr, e, he, rfl⟩ := Pool.mem_members.mp hm
  obtain ⟨f, hf, -, haddr⟩ := h.elem hptr
  rw [he] at hf
  cases hf
  exact haddr

theorem Pool.Sound.lookup_eq_none (h : p.Sound addr) (ha : addr a) :
    p.index.lookup a = none ↔ p.elemAt a = none := by
  simp only [Pool.elemAt]
  cases hl : p.index.lookup a with
  | none => simp
  | some ptr =>
    obtain ⟨e, he, -, -⟩ := h.elem ((h.index a ptr ha).mp hl).1
    simp [he]

theorem Pool.Sound.isEmpty_iff (h : p.Sound addr) :
    p.isEmpty = true ↔ ∀ a, addr a → p.elemAt a = none := by
  simp only [Pool.isEmpty, decide_eq_true_eq, List.length_eq_zero_iff]
  constructor
  · intro he a ha
    by_contra hne
    obtain ⟨e, hsome⟩ := Option.ne_none_iff_exists'.mp hne
    obtain ⟨ptr, hpos, -, -⟩ := (h.elemAt_eq_some ha).mp hsome
    simp [he] at hpos
  · intro hnone
    by_contra hne
    obtain ⟨ptr, hp⟩ := List.exists_mem_of_ne_nil _ hne
    obtain ⟨e, he, hpos, haddr⟩ := h.elem hp
    have := (h.elemAt_eq_some haddr.1).mpr ⟨ptr, hpos, he, rfl⟩
    rw [hnone _ haddr.1] at this
    cases this

-- ---------------------------------------------------------------------------
-- The operations
-- ---------------------------------------------------------------------------

theorem Pool.Sound.replace (h : p.Sound addr) (hp : ptr ∈ p.endpoints) (he : p.elems[ptr]? = some e)
    (e' : EndpointElem) (hpos : e'.index = e.index)
    (hcanon : e'.endpoint.canonicalAddr = e.endpoint.canonicalAddr)
    (hpriv : ¬ addr e'.endpoint.privateInstanceId) (index : GoMap Str Nat)
    (hindex : ∀ a, addr a → index.lookup a = p.index.lookup a) {p' : Pool}
    (hp' : p' = { p with elems := p.elems.set ptr e', index := index }) :
    p'.Sound addr ∧ ∀ a, addr a → p'.elemAt a = if a = e.endpoint.canonicalAddr then some e'
      else p.elemAt a := by
  have hlt : ptr < p.elems.length := (List.getElem?_eq_some_iff.mp he).1
  have helem : ∀ q, p'.elems[q]? = if q = ptr then some e' else p.elems[q]? := by
    intro q
    rw [hp', List.getElem?_set]
    by_cases hq : q = ptr
    · simp [hq, hlt]
    · rw [if_neg (Ne.symm hq), if_neg hq]
  have hat : ∀ q, p'.addressAt q = p.addressAt q := by
    intro q
    simp only [Pool.addressAt, helem]
    split
    · next hq => rw [hq, he, Option.map_some, Option.map_some, hcanon]
    · rfl
  have hcan : addr e.endpoint.canonicalAddr := by
    obtain ⟨f, hf, -, haddr⟩ := h.elem hp
    rw [he] at hf
    cases hf
    exact haddr.1
  refine ⟨⟨fun i q hq => ?_, fun a q ha => ?_⟩, fun a ha => ?_⟩
  · obtain ⟨f, hf, hfi, hfa⟩ := h.placed i q (by rwa [hp'] at hq)
    rw [helem]
    split
    · next hqp =>
      subst hqp
      rw [he] at hf
      cases hf
      exact ⟨e', rfl, hpos.trans hfi, hcanon ▸ hfa.1, hpriv⟩
    · exact ⟨f, hf, hfi, hfa⟩
  · rw [hat, hp', hindex a ha]
    exact h.index a q ha
  · have hl : p'.index.lookup a = p.index.lookup a := by rw [hp', hindex a ha]
    simp only [Pool.elemAt, hl]
    split
    · next hac =>
      rw [hac, (h.index _ ptr hcan).mpr ⟨hp, by simp [Pool.addressAt, he]⟩, Option.bind_some,
        helem, if_pos rfl]
    · next hac =>
      cases hq : p.index.lookup a with
      | none => rfl
      | some q =>
        rw [Option.bind_some, Option.bind_some, helem, if_neg]
        rintro rfl
        have := ((h.index a q ha).mp hq).2
        simp only [Pool.addressAt, he, Option.map_some, Option.some.injEq] at this
        exact hac this.symm

theorem Pool.Sound.append (h : p.Sound addr) (hep : Addressed addr endpoint)
    (hnew : p.elemAt endpoint.canonicalAddr = none) (now : Int) {p' : Pool}
    (hp' : p' = { p with
      elems := p.elems ++ [⟨endpoint, p.endpoints.length, now, none⟩]
      endpoints := p.endpoints ++ [p.elems.length]
      index :=
        (p.index.insert endpoint.canonicalAddr p.elems.length).insert endpoint.privateInstanceId
        p.elems.length }) :
    p'.Sound addr ∧ ∀ a, addr a → p'.elemAt a =
      if a = endpoint.canonicalAddr then some ⟨endpoint, p.endpoints.length, now, none⟩
        else p.elemAt a := by
  have hold : ∀ q ∈ p.endpoints, q < p.elems.length := by
    intro q hq
    obtain ⟨e, he, -, -⟩ := h.elem hq
    exact (List.getElem?_eq_some_iff.mp he).1
  have helem : ∀ q, p'.elems[q]? =
      if q = p.elems.length then some ⟨endpoint, p.endpoints.length, now, none⟩
        else p.elems[q]? := by
    intro q
    rw [hp', List.getElem?_append, List.getElem?_singleton]
    split
    · rw [if_neg (by omega)]
    · by_cases hq : q = p.elems.length
      · simp [hq]
      · rw [if_neg hq, if_neg (by omega), List.getElem?_eq_none (by omega)]
  have hlookup : ∀ a, addr a → p'.index.lookup a =
      if a = endpoint.canonicalAddr then some p.elems.length else p.index.lookup a := by
    intro a ha
    have hne : a ≠ endpoint.privateInstanceId := fun he => hep.2 (he ▸ ha)
    rw [hp', AList.lookup_insert_ne hne, GoMap.lookup_insert_ite]
  refine ⟨⟨fun i q hq => ?_, fun a q ha => ?_⟩, fun a ha => ?_⟩
  · rw [helem]
    rw [hp'] at hq
    simp only [List.getElem?_append, List.getElem?_singleton] at hq
    split at hq
    · obtain ⟨e, he, hei, hea⟩ := h.placed i q hq
      exact ⟨e, by rw [if_neg (Nat.ne_of_lt (hold q (List.mem_of_getElem? hq)))]; exact he,
        hei, hea⟩
    · next hi =>
      split at hq
      · next hi' =>
        cases hq
        exact ⟨_, if_pos rfl, by simp only; omega, hep⟩
      · cases hq
  · rw [hlookup a ha, Pool.addressAt, helem]
    have hmem : q ∈ p'.endpoints ↔ q ∈ p.endpoints ∨ q = p.elems.length := by
      rw [hp', List.mem_append, List.mem_singleton]
    rw [hmem]
    by_cases hq : q = p.elems.length
    · subst hq
      rw [if_pos rfl]
      split
      · next hac => simp [hac]
      · next hac =>
        refine iff_of_false (fun hl => ?_) fun hr => hac (Option.some.inj hr.2).symm
        exact absurd (hold _ ((h.index a _ ha).mp hl).1) (Nat.lt_irrefl _)
    · rw [if_neg hq]
      simp only [hq, or_false]
      split
      · next hac =>
        refine iff_of_false (fun hl => hq (Option.some.inj hl).symm) fun hr => ?_
        have hsome := (h.index a q ha).mpr hr
        rw [hac, (h.lookup_eq_none (hac ▸ ha)).mpr hnew] at hsome
        cases hsome
      · exact h.index a q ha
  · simp only [Pool.elemAt, hlookup a ha]
    split
    · rw [Option.bind_some, helem, if_pos rfl]
    · cases hq : p.index.lookup a with
      | none => rfl
      | some q =>
        rw [Option.bind_some, Option.bind_some, helem, if_neg]
        exact Nat.ne_of_lt (hold q ((h.index a q ha).mp hq).1)

def putElem (now : Int) (endpoint : Endpoint) (length : Nat) : Option EndpointElem → EndpointElem
  | none => ⟨endpoint, length, now, none⟩
  | some e =>
    if e.endpoint ≠ endpoint then
      if e.endpoint.modificationTag.succeededBy endpoint.modificationTag then
        { e with endpoint := endpoint, updated := now }
      else e
    else { e with updated := now }

/-- A Put changes what is at the address of the endpoint, and nothing else. -/
theorem Pool.Sound.put (h : p.Sound addr) (hep : Addressed addr endpoint) (now : Int) :
    ∃ p' added, p.put now endpoint = some (p', added) ∧ p'.Sound addr ∧
      (∀ a, addr a → p'.elemAt a = if a = endpoint.canonicalAddr
        then some (putElem now endpoint p.endpoints.length (p.elemAt endpoint.canonicalAddr))
          else p.elemAt a) ∧
      (p.elemAt endpoint.canonicalAddr = none → added = true) := by
  obtain ⟨ha, hpriv⟩ := hep
  simp only [Pool.put]
  cases hl : p.index.lookup endpoint.canonicalAddr with
  | some ptr =>
    obtain ⟨hp, hat⟩ := (h.index _ ptr ha).mp hl
    obtain ⟨e, he, -, haddr⟩ := h.elem hp
    have hcanon : endpoint.canonicalAddr = e.endpoint.canonicalAddr := by
      simpa [Pool.addressAt, he] using hat.symm
    have hat' : p.elemAt endpoint.canonicalAddr = some e := by
      simp only [Pool.elemAt, hl, Option.bind_some, he]
    simp only [he, bind, Option.bind_some, hat', putElem]
    split
    · split
      · have hindex : ∀ a, addr a →
            (if e.endpoint.privateInstanceId ≠ endpoint.privateInstanceId then
              (p.index.erase e.endpoint.privateInstanceId).insert endpoint.privateInstanceId ptr
              else p.index).lookup a = p.index.lookup a := by
          intro a ha'
          have hne : ∀ {id}, ¬ addr id → a ≠ id := fun hid hae => hid (hae ▸ ha')
          split
          · rw [AList.lookup_insert_ne (hne hpriv), AList.lookup_erase_ne (hne haddr.2)]
          · rfl
        obtain ⟨hsound, helems⟩ :=
          h.replace hp he { e with endpoint := endpoint, updated := now } rfl hcanon hpriv _
            hindex rfl
        exact ⟨_, _, rfl, hsound, by rwa [hcanon], fun _ => rfl⟩
      · refine ⟨_, _, rfl, h, fun a _ => ?_, by simp⟩
        split
        · next hac => rw [hac, hat']
        · rfl
    · obtain ⟨hsound, helems⟩ := h.replace hp he { e with updated := now } rfl rfl haddr.2 p.index
        (fun _ _ => rfl) rfl
      exact ⟨_, _, rfl, hsound, by rwa [hcanon], fun _ => rfl⟩
  | none =>
    have hnew := (h.lookup_eq_none ha).mp hl
    obtain ⟨hsound, helems⟩ := h.append ⟨ha, hpriv⟩ hnew now rfl
    exact ⟨_, _, rfl, hsound, by rwa [hnew, putElem], fun _ => rfl⟩

theorem Pool.Sound.removeEndpoint (h : p.Sound addr) (hptr : ptr ∈ p.endpoints)
    (he : p.elems[ptr]? = some e) :
    ∃ p', p.removeEndpoint ptr = some p' ∧ p'.Sound addr ∧
      ∀ m, m ∈ p'.members ↔ m ∈ p.members ∧ m.endpoint.canonicalAddr ≠
        e.endpoint.canonicalAddr := by
  obtain ⟨as, bs, hends⟩ := List.append_of_mem hptr
  obtain ⟨p', hp', hplaced, hends', hsame, hindex⟩ := h.isPlaced.removeEndpoint hends he
  have haddr : Addressed addr e.endpoint :=
    h.addr_of_mem (Pool.mem_members.mpr ⟨ptr, hptr, e, he, rfl⟩)
  have hmem : ∀ q, q ∈ p'.endpoints ↔ q ∈ p.endpoints ∧ q ≠ ptr := by
    have hnd := h.isPlaced.nodup
    rw [hends, List.nodup_middle, List.nodup_cons] at hnd
    intro q
    rw [hends', List.mem_append, (lastFirst_perm bs).mem_iff, hends, List.mem_append, List.mem_cons]
    by_cases hq : q = ptr
    · subst hq
      simpa using hnd.1
    · simp [hq]
  have hat : ∀ q, p'.addressAt q = p.addressAt q := by
    intro q
    have hq := congrArg (Option.map (·.endpoint.canonicalAddr)) (hsame q)
    rwa [Pool.entryAt, Pool.entryAt, Option.map_map, Option.map_map] at hq
  have hlookup : ∀ a, addr a → p'.index.lookup a =
      if a = e.endpoint.canonicalAddr then none else p.index.lookup a := by
    intro a ha
    have hne : a ≠ e.endpoint.privateInstanceId := fun heq => haddr.2 (heq ▸ ha)
    rw [hindex, AList.lookup_erase_ne hne, GoMap.lookup_erase_ite]
  have hown : p.index.lookup e.endpoint.canonicalAddr = some ptr :=
    (h.index _ ptr haddr.1).mpr ⟨hptr, by simp [Pool.addressAt, he]⟩
  have hsound : p'.Sound addr := by
    refine ⟨fun i q hq => ?_, fun a q ha => ?_⟩
    · obtain ⟨f, hf, hfi⟩ := hplaced i q hq
      have hm : f.entry ∈ p.members := by
        refine List.mem_filterMap.mpr ⟨q, ((hmem q).mp (List.mem_of_getElem? hq)).1, ?_⟩
        rw [← hsame, Pool.entryAt, hf, Option.map_some]
      exact ⟨f, hf, hfi, h.addr_of_mem hm⟩
    · rw [hmem, hat, hlookup a ha]
      split
      · next hac =>
        refine iff_of_false (by simp) fun hr => hr.1.2 ?_
        have hq := (h.index a q ha).mpr ⟨hr.1.1, hr.2⟩
        rw [hac, hown] at hq
        exact (Option.some.inj hq).symm
      · next hac =>
        rw [h.index a q ha]
        refine ⟨fun hr => ⟨⟨hr.1, ?_⟩, hr.2⟩, fun hr => ⟨hr.1.1, hr.2⟩⟩
        rintro rfl
        exact hac (by simpa [Pool.addressAt, he] using hr.2.symm)
  refine ⟨p', hp', hsound, fun m => ?_⟩
  have hperm : p.members.Perm (e.entry :: p'.members) := by
    have hentry : p.entryAt ptr = some e.entry := by rw [Pool.entryAt, he, Option.map_some]
    rw [Pool.members, Pool.members, funext hsame, hends, hends', List.filterMap_append,
      List.filterMap_append, List.filterMap_cons_some hentry]
    exact List.perm_middle.trans ((((lastFirst_perm bs).symm.filterMap _).append_left _).cons _)
  have hnd := h.addresses_nodup
  rw [Pool.addresses_eq, (hperm.map _).nodup_iff, List.map_cons, List.nodup_cons] at hnd
  rw [hperm.mem_iff, List.mem_cons]
  constructor
  · exact fun hm => ⟨.inr hm, fun hac => hnd.1 (List.mem_map.mpr ⟨m, hm, hac⟩)⟩
  · rintro ⟨rfl | hm, hne⟩
    · exact absurd rfl hne
    · exact hm

/-- A Remove takes the element out if the tag is not older, and else changes
nothing. -/
theorem Pool.Sound.remove (h : p.Sound addr) (ha : addr (Endpoint.canonicalAddr endpoint)) :
    ∃ p' removed, p.remove endpoint = some (p', removed) ∧ p'.Sound addr ∧
      (removed = (p.elemAt endpoint.canonicalAddr).any
        (·.endpoint.modificationTagSameOrNewer endpoint)) ∧
      ∀ a, addr a → (p'.elemAt a).map EndpointElem.entry =
        if removed = true ∧ a = endpoint.canonicalAddr then none
          else (p.elemAt a).map EndpointElem.entry := by
  have hkeep : (p.elemAt endpoint.canonicalAddr).any
      (·.endpoint.modificationTagSameOrNewer endpoint) = false →
      ∃ p' removed, some (p, false) = some (p', removed) ∧ p'.Sound addr ∧
        (removed = (p.elemAt endpoint.canonicalAddr).any
          (·.endpoint.modificationTagSameOrNewer endpoint)) ∧
        ∀ a, addr a → (p'.elemAt a).map EndpointElem.entry =
          if removed = true ∧ a = endpoint.canonicalAddr then none
            else (p.elemAt a).map EndpointElem.entry :=
    fun hany => ⟨p, false, rfl, h, hany.symm, by simp⟩
  simp only [Pool.remove]
  split
  · split
    · next ptr hl =>
      obtain ⟨hp, hat⟩ := (h.index _ ptr ha).mp hl
      obtain ⟨e, he, -, -⟩ := h.elem hp
      have hcanon : e.endpoint.canonicalAddr = endpoint.canonicalAddr := by
        simpa [Pool.addressAt, he] using hat
      have hat' : p.elemAt endpoint.canonicalAddr = some e := by
        simp only [Pool.elemAt, hl, Option.bind_some, he]
      simp only [he, bind, Option.bind_some]
      split
      · next htag =>
        obtain ⟨p', hp', hsound, hmembers⟩ := h.removeEndpoint hp he
        refine ⟨p', true, by simp [hp'], hsound, by simp [hat', htag],
          fun a ha' => Option.ext fun m => ?_⟩
        rw [hsound.entry_eq_some ha', hmembers, hcanon]
        simp only [true_and]
        split
        · next hac => simp [hac]
        · next hac =>
          rw [h.entry_eq_some ha']
          constructor
          · exact fun hm => ⟨hm.1.1, hm.2⟩
          · rintro ⟨hm, rfl⟩
            exact ⟨⟨hm, hac⟩, rfl⟩
      · next htag => exact hkeep (by simp [hat', htag])
    · next hl => exact hkeep (by simp [(h.lookup_eq_none ha).mp hl])
  · next hlen =>
    refine hkeep ?_
    have hempty : p.isEmpty = true := by
      simp only [Pool.isEmpty, decide_eq_true_eq]
      omega
    simp [h.isEmpty_iff.mp hempty _ ha]

/-- Pruning takes exactly the stale endpoints out, and returns them. -/
theorem Pool.Sound.pruneEndpoints (h : p.Sound addr) (threshold : Int64) (now : Int) :
    ∃ p' pruned, p.pruneEndpoints threshold now = some (p', pruned) ∧ p'.Sound addr ∧
      (∀ a, addr a → (p'.elemAt a).map EndpointElem.entry =
        ((p.elemAt a).filter fun e => !e.stale threshold now).map EndpointElem.entry) ∧
      (pruned.map Endpoint.canonicalAddr).Nodup ∧
      ∀ x, x ∈ pruned ↔ addr x.canonicalAddr ∧
        ∃ e, p.elemAt x.canonicalAddr = some e ∧ e.endpoint = x ∧ e.stale threshold now = true := by
  obtain ⟨p', pruned, hp', -, hleft, hpruned, hkeeps⟩ := h.isPlaced.pruneEndpoints threshold now
  have hsound : p'.Sound addr := by
    refine hkeeps (Pool.Sound addr) (fun q ptr q' hq _ hptr hrem => ?_) h
    obtain ⟨e, he, -, -⟩ := hq.elem hptr
    obtain ⟨q'', hrem', hq'', -⟩ := hq.removeEndpoint hptr he
    rw [hrem] at hrem'
    cases hrem'
    exact hq''
  refine ⟨p', pruned, hp', hsound, fun a ha => Option.ext fun m => ?_, ?_, fun x => ?_⟩
  · have hfilter : ((p.elemAt a).filter fun e => !e.stale threshold now).map EndpointElem.entry =
        ((p.elemAt a).map EndpointElem.entry).filter (!·.stale threshold now) := by
      rw [Option.filter_map]
      rfl
    rw [hsound.entry_eq_some ha, hleft.mem_iff, List.mem_filter, hfilter, Option.filter_eq_some_iff,
      h.entry_eq_some ha]
    exact and_right_comm
  · have hnd := h.addresses_nodup
    rw [Pool.addresses_eq] at hnd
    rw [(hpruned.map _).nodup_iff, List.map_map]
    exact hnd.sublist (List.filter_sublist.map _)
  · rw [hpruned.mem_iff, List.mem_map]
    constructor
    · rintro ⟨m, hm, rfl⟩
      obtain ⟨hm, hst⟩ := List.mem_filter.mp hm
      have ha := (h.addr_of_mem hm).1
      obtain ⟨e, he, rfl⟩ := Option.map_eq_some_iff.mp ((h.entry_eq_some ha).mpr ⟨hm, rfl⟩)
      exact ⟨ha, e, he, rfl, hst⟩
    · rintro ⟨ha, e, he, rfl, hst⟩
      have hm := (h.entry_eq_some ha).mp (congrArg (Option.map EndpointElem.entry) he)
      exact ⟨e.entry, List.mem_filter.mpr ⟨hm.1, hst⟩, rfl⟩

theorem Pool.Sound.touch (h : p.Sound addr) (f : Nat → EndpointElem → EndpointElem)
    (hf : ∀ q e, (f q e).index = e.index ∧ (f q e).endpoint = e.endpoint)
    (helem : ∀ q, p'.elems[q]? = p.elems[q]?.map (f q)) (hends : p'.endpoints = p.endpoints)
    (hindex : p'.index = p.index) : p'.Sound addr := by
  have hat : ∀ q, p'.addressAt q = p.addressAt q := by
    intro q
    rw [Pool.addressAt, helem, Option.map_map, Pool.addressAt]
    refine Option.map_congr fun e _ => ?_
    rw [Function.comp_apply, (hf q e).2]
  refine ⟨fun i ptr hptr => ?_, fun a ptr ha => ?_⟩
  · obtain ⟨e, he, hpos, haddr⟩ := h.placed i ptr (hends ▸ hptr)
    exact ⟨f ptr e, by rw [helem, he, Option.map_some], (hf ptr e).1.trans hpos,
      (hf ptr e).2 ▸ haddr⟩
  · rw [hindex, hends, hat]
    exact h.index a ptr ha

theorem getElem?_foldl_modify (f : EndpointElem → EndpointElem) (ptrs : List Nat)
    (elems : List EndpointElem) (q : Nat) (hf : ∀ e, f (f e) = f e) :
    (ptrs.foldl (fun elems ptr => elems.modify ptr f) elems)[q]? =
      if q ∈ ptrs then elems[q]?.map f else elems[q]? := by
  induction ptrs generalizing elems with
  | nil => simp
  | cons ptr ptrs ih =>
    rw [List.foldl_cons, ih, List.getElem?_modify]
    by_cases hq : ptr = q
    · subst hq
      cases elems[ptr]? <;> simp [hf]
    · simp [hq, Ne.symm hq]

theorem Pool.elems_markUpdated (p : Pool) (t : Int) (q : Nat) :
    (p.markUpdated t).elems[q]? =
      p.elems[q]?.map fun e => if q ∈ p.endpoints then { e with updated := t } else e := by
  have hloop := getElem?_foldl_modify (fun e => { e with updated := t }) p.endpoints p.elems q
    fun _ => rfl
  refine hloop.trans ?_
  split
  · rfl
  · simp

theorem Pool.Sound.markUpdated (h : p.Sound addr) (t : Int) :
    (p.markUpdated t).Sound addr ∧ ∀ a, addr a →
      (p.markUpdated t).elemAt a = (p.elemAt a).map fun e => { e with updated := t } := by
  refine ⟨h.touch _ (fun q e => ?_) (p.elems_markUpdated t) rfl rfl, fun a ha => ?_⟩
  · split <;> exact ⟨rfl, rfl⟩
  · have hl : (p.markUpdated t).index.lookup a = p.index.lookup a := rfl
    simp only [Pool.elemAt, hl]
    cases hq : p.index.lookup a with
    | none => rfl
    | some q =>
      rw [Option.bind_some, Option.bind_some, p.elems_markUpdated]
      simp only [if_pos ((h.index a q ha).mp hq).1]

theorem Pool.Sound.endpointFailed (h : p.Sound addr) (now : Int) (endpoint : Endpoint) :
    (p.endpointFailed now endpoint).Sound addr := by
  rw [Pool.endpointFailed]
  split
  · next ptr hl =>
    refine h.touch (fun q e => if ptr = q then { e with failedAt := some now } else e)
      (fun q e => ?_) (fun q => ?_) rfl rfl
    · split <;> exact ⟨rfl, rfl⟩
    · rw [List.getElem?_modify]
      by_cases hq : ptr = q <;> simp [hq]
  · exact h

end

end BigipCtlr.Route
