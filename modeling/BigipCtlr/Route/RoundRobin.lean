import BigipCtlr.Go.Duration
import BigipCtlr.Route.PoolIndex
import Mathlib.Data.List.Rotate

/-!
# Choosing an endpoint in turn

`RoundRobin` goes round the endpoints of a pool from where the last call left
off and passes over those that failed a short while ago. When all of them did,
it forgets the failures and takes the first. A panic or an endless loop is
`none`; the clock and the random numbers are arguments.
-/

namespace BigipCtlr.Route

open Go Lib

/-- What a call of `next` draws from outside: a number for `random.Intn`, and
the clock at its readings. -/
structure Draw where
  intn : Nat
  clock : Nat → Int

def EndpointElem.expire (retryAfterFailure : Int64) (now : Int) (e : EndpointElem) : EndpointElem :=
  match e.failedAt with
  | none => e
  | some failedAt =>
    if retryAfterFailure < timeSub now failedAt then { e with failedAt := none } else e

def EndpointElem.clear (e : EndpointElem) : EndpointElem := { e with failedAt := none }

def Pool.clearFailures (p : Pool) : Pool :=
  { p with elems := p.endpoints.foldl (fun elems ptr =>
    elems.modify ptr EndpointElem.clear) p.elems }

/-- The loop of `next` for at most `fuel` rounds, after `read` readings of the
clock. -/
def Pool.nextFrom (clock : Nat → Int) (startIdx : Nat) :
    Nat → Nat → Pool → Nat → Option (Pool × Endpoint)
  | 0, _, _, _ => none
  | fuel + 1, read, p, curIdx => do
    let ptr ← p.endpoints[curIdx]?
    let e ← p.elems[ptr]?
    let curIdx := if curIdx + 1 = p.endpoints.length then 0 else curIdx + 1
    let e := e.expire p.retryAfterFailure (clock read)
    let p := { p with elems := p.elems.set ptr e }
    if e.failedAt = none then some ({ p with nextIdx := curIdx }, e.endpoint)
    else
      let p := if curIdx = startIdx then p.clearFailures else p
      nextFrom clock startIdx fuel (read + 1) p curIdx

def Pool.startIdx (p : Pool) (draw : Draw) : Nat :=
  let last := p.endpoints.length
  if p.nextIdx = -1 then draw.intn % last
  else if last ≤ p.nextIdx then 0
  else p.nextIdx.toNat

/-- `next`. A round over all endpoints and one more look is all it takes. -/
def Pool.next (p : Pool) (draw : Draw) : Option (Pool × Option Endpoint) :=
  let last := p.endpoints.length
  if last = 0 then some (p, none)
  else if p.nextIdx < -1 then none
  else
    let startIdx := p.startIdx draw
    (nextFrom draw.clock startIdx (last + 1) 0 { p with nextIdx := startIdx } startIdx).map
      fun (p, e) => (p, some e)

structure RoundRobin where
  initialEndpoint : Str
  lastEndpoint : Option Endpoint

def RoundRobin.next (r : RoundRobin) (p : Pool) (draw : Draw) :
    Option (RoundRobin × Pool × Option Endpoint) :=
  let initial := if r.initialEndpoint ≠ [] then p.findById r.initialEndpoint else none
  match initial with
  | some e => some (⟨[], some e⟩, p, some e)
  | none => (p.next draw).map fun (p, e) => (⟨[], e⟩, p, e)

def RoundRobin.endpointFailed (now : Int) (r : RoundRobin) (p : Pool) : Pool :=
  match r.lastEndpoint with
  | some e => p.endpointFailed now e
  | none => p

-- ---------------------------------------------------------------------------
-- Pools that calls leave behind
-- ---------------------------------------------------------------------------

/-- Every pointer of the slice leads to an element, and the next index is not
below -1. -/
structure Pool.Formed (p : Pool) : Prop where
  elem : ∀ ptr ∈ p.endpoints, ptr < p.elems.length
  nextIdx : -1 ≤ p.nextIdx

section
variable {p : Pool}

def Pool.elemIdx (p : Pool) (i : Nat) : Option EndpointElem :=
  p.endpoints[i]?.bind fun ptr => p.elems[ptr]?

/-- An endpoint that `next` may take when the clock reads `now`: not failed, or
its window has expired. -/
def Pool.AvailableAt (p : Pool) (now : Int) (i : Nat) : Prop :=
  ∀ e ∈ p.elemIdx i, (e.expire p.retryAfterFailure now).failedAt = none

instance : Decidable (p.AvailableAt now i) := inferInstanceAs (Decidable (∀ e ∈ p.elemIdx i, _))

theorem Pool.startIdx_lt (hne : p.endpoints.length ≠ 0) (draw : Draw) :
    p.startIdx draw < p.endpoints.length := by
  simp only [Pool.startIdx]
  split
  · exact Nat.mod_lt _ (Nat.pos_of_ne_zero hne)
  · split
    · omega
    · omega

theorem wrap_succ (hc : c < n) : (if c + 1 = n then 0 else c + 1) = (c + 1) % n := by
  split
  · next h => rw [h, Nat.mod_self]
  · next h => rw [Nat.mod_eq_of_lt (by omega)]

theorem round_eq_start (hs : s < n) (hk : 0 < k) (hkn : k ≤ n) : (s + k) % n = s ↔ k = n := by
  constructor
  · intro h
    by_contra hne
    by_cases hwrap : s + k < n
    · rw [Nat.mod_eq_of_lt hwrap] at h
      omega
    · rw [Nat.mod_eq_sub_mod (by omega), Nat.mod_eq_of_lt (by omega)] at h
      omega
  · rintro rfl
    rw [Nat.add_mod_right, Nat.mod_eq_of_lt hs]

theorem Pool.Formed.elemIdx (h : p.Formed) (hi : i < p.endpoints.length) :
    ∃ ptr e, p.endpoints[i]? = some ptr ∧ p.elems[ptr]? = some e ∧ p.elemIdx i = some e := by
  have hptr : p.endpoints[i]? = some p.endpoints[i] := List.getElem?_eq_getElem hi
  have hlt := h.elem _ (List.getElem_mem hi)
  have he : p.elems[p.endpoints[i]]? = some p.elems[p.endpoints[i]] := List.getElem?_eq_getElem hlt
  exact ⟨_, _, hptr, he, by rw [Pool.elemIdx, hptr, Option.bind_some, he]⟩

-- ---------------------------------------------------------------------------
-- One call
-- ---------------------------------------------------------------------------

theorem EndpointElem.expire_of_failed {e : EndpointElem}
    (h : (e.expire retry now).failedAt ≠ none) :
    e.expire retry now = e := by
  simp only [EndpointElem.expire] at h ⊢
  split
  · rfl
  · split
    · next hf hexp => simp [hf, hexp] at h
    · rfl

theorem EndpointElem.expire_of_available {e : EndpointElem}
    (h : (e.expire retry now).failedAt = none) :
    e.expire retry now = e.clear := by
  simp only [EndpointElem.expire] at h ⊢
  split
  · next hf => simp [EndpointElem.clear, ← hf]
  · split
    · rfl
    · next hf hexp =>
      simp only [hf, hexp, if_false] at h
      cases h

def Pool.take (p : Pool) (ptr : Nat) (e : EndpointElem) (nextIdx : Nat) : Pool :=
  { p with elems := p.elems.set ptr e.clear, nextIdx := nextIdx }

theorem Pool.nextFrom_take (hptr : p.endpoints[cur]? = some ptr) (he : p.elems[ptr]? = some e)
    (havail : (e.expire p.retryAfterFailure (clock m)).failedAt = none) :
    nextFrom clock s (fuel + 1) m p cur =
      some (p.take ptr e ((cur + 1) % p.endpoints.length), e.endpoint) := by
  have hcur := (List.getElem?_eq_some_iff.mp hptr).1
  simp only [nextFrom, hptr, he, bind, Option.bind_some, if_true, wrap_succ hcur,
    EndpointElem.expire_of_available havail, EndpointElem.clear, Pool.take]

theorem Pool.nextFrom_pass (hptr : p.endpoints[cur]? = some ptr) (he : p.elems[ptr]? = some e)
    (hfailed : (e.expire p.retryAfterFailure (clock m)).failedAt ≠ none) :
    nextFrom clock s (fuel + 1) m p cur = nextFrom clock s fuel (m + 1)
      (if (cur + 1) % p.endpoints.length = s then p.clearFailures else p)
        ((cur + 1) % p.endpoints.length) := by
  have hcur := (List.getElem?_eq_some_iff.mp hptr).1
  have hself : p.elems.set ptr e = p.elems := by
    obtain ⟨hlt, rfl⟩ := List.getElem?_eq_some_iff.mp he
    exact List.set_getElem_self hlt
  have hexpire := EndpointElem.expire_of_failed hfailed
  rw [hexpire] at hfailed
  simp only [nextFrom, hptr, he, bind, Option.bind_some, hexpire, if_neg hfailed,
    wrap_succ hcur, hself]

theorem Pool.clearFailures_elem (p : Pool) (q : Nat) :
    p.clearFailures.elems[q]? = if q ∈ p.endpoints then p.elems[q]?.map EndpointElem.clear
      else p.elems[q]? :=
  getElem?_foldl_modify EndpointElem.clear p.endpoints p.elems q fun _ => rfl

structure Pool.Turned (p p' : Pool) : Prop where
  endpoints : p'.endpoints = p.endpoints
  retryAfterFailure : p'.retryAfterFailure = p.retryAfterFailure
  elems : ∀ q : Nat, p'.elems[q]? = p.elems[q]? ∨ p'.elems[q]? = p.elems[q]?.map EndpointElem.clear

theorem Pool.clearFailures_turned (p : Pool) : p.Turned p.clearFailures := by
  refine ⟨rfl, rfl, fun q => ?_⟩
  rw [Pool.clearFailures_elem]
  split
  · exact .inr rfl
  · exact .inl rfl

theorem Pool.take_turned (he : p.elems[ptr]? = some e) (i : Nat) : p.Turned (p.take ptr e i) := by
  refine ⟨rfl, rfl, fun q => ?_⟩
  by_cases hq : ptr = q
  · subst hq
    obtain ⟨hlt, -⟩ := List.getElem?_eq_some_iff.mp he
    rw [he, Pool.take, List.getElem?_set_self hlt]
    exact .inr rfl
  · simp [Pool.take, hq]

/-- The endpoint in turn: the first available one from the start on, or the
one at the start when all have failed, whose marks are then gone. -/
inductive Pool.InTurn (p : Pool) (clock : Nat → Int) (s : Nat) (p' : Pool) (e : Endpoint) : Prop
  | available (k : Nat) (hk : k < p.endpoints.length)
    (before : ∀ i < k, ¬ p.AvailableAt (clock i) ((s + i) % p.endpoints.length))
    (first : p.AvailableAt (clock k) ((s + k) % p.endpoints.length))
    (endpoint : (p.elemIdx ((s + k) % p.endpoints.length)).map EndpointElem.endpoint = some e)
    (nextIdx : p'.nextIdx = ((s + k + 1) % p.endpoints.length : Nat))
  | allFailed (all : ∀ i < p.endpoints.length,
    ¬ p.AvailableAt (clock i) ((s + i) % p.endpoints.length))
    (endpoint : (p.elemIdx s).map EndpointElem.endpoint = some e)
    (cleared : ∀ i, ∀ e ∈ p'.elemIdx i, e.failedAt = none)
    (nextIdx : p'.nextIdx = ((s + 1) % p.endpoints.length : Nat))

theorem Pool.availableAt_iff (h : p.elemIdx i = some e) :
    p.AvailableAt now i ↔ (e.expire p.retryAfterFailure now).failedAt = none := by
  simp [Pool.AvailableAt, h]

theorem Pool.Formed.nextFrom_cleared (h : p.Formed) (hs : s < p.endpoints.length)
    (hall : ∀ i < p.endpoints.length, ¬ p.AvailableAt (clock i) ((s + i) % p.endpoints.length)) :
    ∃ p' e, nextFrom clock s 1 m p.clearFailures s = some (p', e) ∧ p.Turned p' ∧
      p.InTurn clock s p' e := by
  obtain ⟨ptr, e, hptr, he, hidx⟩ := h.elemIdx hs
  have hmem : ptr ∈ p.endpoints := List.mem_of_getElem? hptr
  have hclear : p.clearFailures.elems[ptr]? = some e.clear := by
    rw [Pool.clearFailures_elem, if_pos hmem, he, Option.map_some]
  have htake : nextFrom clock s 1 m p.clearFailures s =
      some (p.clearFailures.take ptr e.clear ((s + 1) % p.endpoints.length), e.clear.endpoint) :=
    nextFrom_take hptr hclear rfl
  have hsame : (p.clearFailures.take ptr e.clear ((s + 1) % p.endpoints.length)).elems =
      p.clearFailures.elems := by
    obtain ⟨hlt, hget⟩ := List.getElem?_eq_some_iff.mp hclear
    have hself := List.set_getElem_self hlt
    rw [hget] at hself
    exact hself
  refine ⟨_, _, htake, ⟨rfl, rfl, fun q => ?_⟩,
    .allFailed hall (by rw [hidx]; rfl) (fun i f hf => ?_) rfl⟩
  · rw [hsame]
    exact p.clearFailures_turned.elems q
  · obtain ⟨q, hq, hf⟩ := Option.bind_eq_some_iff.mp hf
    have hmem : q ∈ p.endpoints := List.mem_of_getElem? hq
    rw [hsame, Pool.clearFailures_elem, if_pos hmem] at hf
    obtain ⟨g, -, rfl⟩ := Option.map_eq_some_iff.mp hf
    rfl

/-- The loop, once it has passed over the first `k` endpoints, finds the one
in turn in the rounds that are left. -/
theorem Pool.Formed.nextFrom (h : p.Formed) (hs : s < p.endpoints.length)
    (hm : k + m = p.endpoints.length)
    (hbefore : ∀ i < k, ¬ p.AvailableAt (clock i) ((s + i) % p.endpoints.length)) (hk : 0 < m) :
    ∃ p' e, nextFrom clock s (m + 1) k p ((s + k) % p.endpoints.length) = some (p', e) ∧
      p.Turned p' ∧
      p.InTurn clock s p' e := by
  induction m generalizing k with
  | zero => omega
  | succ m ih =>
    have hlt : (s + k) % p.endpoints.length < p.endpoints.length := Nat.mod_lt _ (by omega)
    obtain ⟨ptr, e, hptr, he, hidx⟩ := h.elemIdx hlt
    by_cases havail : (e.expire p.retryAfterFailure (clock k)).failedAt = none
    · refine ⟨_, _, nextFrom_take hptr he havail, take_turned he _, ?_⟩
      refine .available k (by omega) hbefore ((availableAt_iff hidx).mpr havail)
        (by rw [hidx]; rfl) ?_
      rw [Nat.mod_add_mod, Pool.take]
    · have hpass : ∀ i < k + 1, ¬ p.AvailableAt (clock i) ((s + i) % p.endpoints.length) := by
        intro i hi
        rcases Nat.lt_succ_iff_lt_or_eq.mp hi with hi | rfl
        · exact hbefore i hi
        · exact fun ha => havail ((availableAt_iff hidx).mp ha)
      rw [nextFrom_pass hptr he havail, Nat.mod_add_mod, Nat.add_assoc]
      by_cases hround : m = 0
      · have hall : k + 1 = p.endpoints.length := by omega
        have hstart : (s + (k + 1)) % p.endpoints.length = s :=
          (round_eq_start hs (by omega) (by omega)).mpr hall
        rw [hstart, if_pos rfl, hround]
        exact h.nextFrom_cleared hs fun i hi => hpass i (by omega)
      · have hstart : (s + (k + 1)) % p.endpoints.length ≠ s := fun heq => by
          have := (round_eq_start hs (by omega) (by omega)).mp heq
          omega
        rw [if_neg hstart]
        exact ih (by omega) hpass (by omega)

theorem Pool.Formed.next (h : p.Formed) (hne : p.endpoints ≠ []) (draw : Draw) :
    ∃ p' e, p.next draw = some (p', some e) ∧ p.Turned p' ∧
      p.InTurn draw.clock (p.startIdx draw) p' e := by
  have hlen : p.endpoints.length ≠ 0 := fun h0 => hne (List.length_eq_zero_iff.mp h0)
  have hs := p.startIdx_lt hlen draw
  have hnextIdx : ¬ p.nextIdx < -1 := by
    have := h.nextIdx
    omega
  have hf : Pool.Formed { p with nextIdx := p.startIdx draw } := ⟨h.elem, by simp only; omega⟩
  obtain ⟨p', e, hfrom, hturned, hturn⟩ :
      ∃ p' e, Pool.nextFrom draw.clock (p.startIdx draw) (p.endpoints.length + 1) 0
      { p with nextIdx := p.startIdx draw } ((p.startIdx draw + 0) % p.endpoints.length) =
        some (p', e) ∧
      Pool.Turned { p with nextIdx := p.startIdx draw } p' ∧
      Pool.InTurn { p with nextIdx := p.startIdx draw } draw.clock (p.startIdx draw) p' e :=
    hf.nextFrom hs (Nat.zero_add _) (fun i hi => absurd hi (Nat.not_lt_zero i))
      (Nat.pos_of_ne_zero hlen)
  have hstart : (p.startIdx draw + 0) % p.endpoints.length = p.startIdx draw := Nat.mod_eq_of_lt hs
  rw [hstart] at hfrom
  refine ⟨p', e, ?_, ⟨hturned.endpoints, hturned.retryAfterFailure, hturned.elems⟩, ?_⟩
  · simp only [Pool.next]
    rw [if_neg hlen, if_neg hnextIdx, hfrom]
    rfl
  · cases hturn with
    | available k hk before first endpoint nextIdx =>
      exact .available k hk before first endpoint nextIdx
    | allFailed all endpoint cleared nextIdx => exact .allFailed all endpoint cleared nextIdx

-- ---------------------------------------------------------------------------
-- Calls in a row
-- ---------------------------------------------------------------------------

def Pool.nexts (p : Pool) : List Draw → Option (Pool × List (Option Endpoint))
  | [] => some (p, [])
  | draw :: draws => do
    let (p, e) ← p.next draw
    let (p, es) ← p.nexts draws
    some (p, e :: es)

def Pool.endpointIdx (p : Pool) (i : Nat) : Option Endpoint :=
  (p.elemIdx i).map EndpointElem.endpoint

theorem Pool.Turned.elemIdx {p' : Pool} (h : p.Turned p') (i : Nat) :
    p'.elemIdx i = p.elemIdx i ∨ p'.elemIdx i = (p.elemIdx i).map EndpointElem.clear := by
  simp only [Pool.elemIdx, h.endpoints]
  cases p.endpoints[i]? with
  | none => exact .inl rfl
  | some ptr => exact h.elems ptr

theorem Pool.Turned.endpointIdx {p' : Pool} (h : p.Turned p') (i : Nat) :
    p'.endpointIdx i = p.endpointIdx i := by
  simp only [Pool.endpointIdx]
  obtain he | he := h.elemIdx i
  · rw [he]
  · rw [he, Option.map_map]
    rfl

theorem EndpointElem.clear_expire (e : EndpointElem) :
    (e.clear.expire retry now).failedAt = none := rfl

theorem Pool.Turned.availableAt {p' : Pool} (h : p.Turned p') (ha : p.AvailableAt now i) :
    p'.AvailableAt now i := by
  intro e he
  rw [h.retryAfterFailure]
  obtain hsame | hclear := h.elemIdx i
  · rw [hsame] at he
    exact ha e he
  · rw [hclear] at he
    obtain ⟨f, -, rfl⟩ := Option.map_eq_some_iff.mp he
    exact f.clear_expire

theorem Pool.Turned.formed {p' : Pool} (h : p.Turned p') (hf : p.Formed) (hidx : -1 ≤ p'.nextIdx) :
    p'.Formed := by
  refine ⟨fun ptr hptr => ?_, hidx⟩
  rw [h.endpoints] at hptr
  have hlt := hf.elem ptr hptr
  have he : p.elems[ptr]? = some p.elems[ptr] := List.getElem?_eq_getElem hlt
  obtain hsame | hclear := h.elems ptr
  · rw [he] at hsame
    exact (List.getElem?_eq_some_iff.mp hsame).1
  · rw [he] at hclear
    exact (List.getElem?_eq_some_iff.mp hclear).1

theorem Pool.InTurn.nextIdx_lt {p' : Pool} (h : p.InTurn clock s p' e) (hne : p.endpoints ≠ []) :
    0 ≤ p'.nextIdx ∧ p'.nextIdx < p.endpoints.length := by
  have hlt : ∀ k, k % p.endpoints.length < p.endpoints.length := fun k =>
    Nat.mod_lt k (List.length_pos_iff.mpr hne)
  cases h with
  | available k _ _ _ _ nextIdx =>
    have := hlt (s + k + 1)
    omega
  | allFailed _ _ _ nextIdx =>
    have := hlt (s + 1)
    omega

theorem Pool.InTurn.of_available {p' : Pool} (h : p.InTurn clock s p' e)
    (hs : s < p.endpoints.length) (ha : ∀ i < p.endpoints.length, p.AvailableAt (clock 0) i) :
    p.endpointIdx s = some e ∧ p'.nextIdx = ((s + 1) % p.endpoints.length : Nat) := by
  have hstart : (s + 0) % p.endpoints.length = s := Nat.mod_eq_of_lt hs
  cases h with
  | available k hk before first endpoint nextIdx =>
    have hk0 : k = 0 := by
      by_contra hne
      refine before 0 (by omega) ?_
      rw [hstart]
      exact ha s hs
    subst hk0
    rw [hstart] at endpoint
    exact ⟨endpoint, nextIdx⟩
  | allFailed all endpoint _ nextIdx =>
    refine absurd ?_ (all 0 (by omega))
    rw [hstart]
    exact ha s hs

/-- Calls in a row with nothing failed go round from where they start. -/
theorem Pool.Formed.nexts (h : p.Formed) (hne : p.endpoints ≠ [])
    (ha : ∀ draw ∈ draws, ∀ i < p.endpoints.length, p.AvailableAt (draw.clock 0) i)
    (hs : s < p.endpoints.length) (hstart : ∀ draw ∈ draws.head?, p.startIdx draw = s) :
    ∃ p', p.nexts draws = some (p', (List.range draws.length).map fun j =>
      p.endpointIdx ((s + j) % p.endpoints.length)) := by
  induction draws generalizing p s with
  | nil => exact ⟨p, rfl⟩
  | cons draw draws ih =>
    obtain ⟨p₁, e, hnext, hturned, hturn⟩ := h.next hne draw
    rw [hstart draw rfl] at hturn
    obtain ⟨he, hidx⟩ := hturn.of_available hs (ha draw List.mem_cons_self)
    obtain ⟨hlo, hhi⟩ := hturn.nextIdx_lt hne
    have hlen : p₁.endpoints.length = p.endpoints.length := by rw [hturned.endpoints]
    have hstart₁ : ∀ draw, p₁.startIdx draw = (s + 1) % p.endpoints.length := by
      intro draw
      simp only [Pool.startIdx, hlen]
      rw [if_neg (by omega), if_neg (by omega), hidx, Int.toNat_natCast]
    obtain ⟨p', hp'⟩ := @ih p₁ ((s + 1) % p.endpoints.length) (hturned.formed h (by omega))
      (by rw [hturned.endpoints]; exact hne)
      (fun d hd i hi => hturned.availableAt (ha d (List.mem_cons_of_mem _ hd) i (hlen ▸ hi)))
      (by rw [hlen]; omega) (fun d _ => hstart₁ d)
    refine ⟨p', ?_⟩
    have hrest :
        (List.range draws.length).map
          (fun j => p₁.endpointIdx (((s + 1) % p.endpoints.length + j) % p₁.endpoints.length)) =
        (List.range draws.length).map
          fun j => p.endpointIdx ((s + (j + 1)) % p.endpoints.length) := by
      refine List.map_congr_left fun j _ => ?_
      rw [hturned.endpointIdx, hlen, Nat.mod_add_mod, Nat.add_assoc, Nat.add_comm 1 j]
    simp only [Pool.nexts, hnext, hp', hrest, bind, Option.bind_some]
    rw [List.length_cons, List.range_succ_eq_map, List.map_cons, List.map_map, Nat.add_zero,
      Nat.mod_eq_of_lt hs, he]
    rfl

theorem range_map_round (s n : Nat) : (List.range n).map (fun j => (s + j) % n) =
    (List.range n).rotate s := by
  refine List.ext_getElem (by simp) fun j _ _ => ?_
  simp [List.getElem_rotate, Nat.add_comm]

/-- `next` returns, for any marks, any readings of the clock and wherever calls
and removals left the next index: the first endpoint in turn that is available,
or the one at the start, with all marks gone, if none is. The next index stays
in the pool. With nothing failed, as many calls as there are endpoints return
each of them once. -/
theorem next_round_robin {p : Pool} (h : p.Formed) (hne : p.endpoints ≠ []) :
    (∀ draw, p.startIdx draw < p.endpoints.length ∧
      ∃ p' e, p.next draw = some (p', some e) ∧ p.InTurn draw.clock (p.startIdx draw) p' e ∧
        p'.endpoints = p.endpoints ∧ 0 ≤ p'.nextIdx ∧ p'.nextIdx < p.endpoints.length) ∧
    ∀ draws : List Draw, draws.length = p.endpoints.length →
      (∀ draw ∈ draws, ∀ i < p.endpoints.length, p.AvailableAt (draw.clock 0) i) →
      ∃ p' es, p.nexts draws = some (p', es) ∧
        es.Perm ((List.range p.endpoints.length).map p.endpointIdx) := by
  have hlen : p.endpoints.length ≠ 0 := fun h0 => hne (List.length_eq_zero_iff.mp h0)
  refine ⟨fun draw => ?_, fun draws hdraws ha => ?_⟩
  · obtain ⟨p', e, hnext, hturned, hturn⟩ := h.next hne draw
    exact ⟨p.startIdx_lt hlen draw, p', e, hnext, hturn, hturned.endpoints, hturn.nextIdx_lt hne⟩
  · obtain ⟨draw, rest, rfl⟩ := List.exists_cons_of_length_pos (by omega : 0 < draws.length)
    have hs := p.startIdx_lt hlen draw
    obtain ⟨p', hp'⟩ := h.nexts hne ha hs (by rintro d ⟨⟩; rfl)
    refine ⟨p', _, hp', ?_⟩
    rw [hdraws, ← Function.comp_def p.endpointIdx, ← List.map_map, range_map_round]
    exact (List.rotate_perm _ _).map _

end

-- ---------------------------------------------------------------------------
-- Runs
-- ---------------------------------------------------------------------------

inductive PoolUse
  | op (op : PoolOp)
  | next (r : RoundRobin) (draw : Draw)
  | endpointFailed (r : RoundRobin) (now : Int)

def Pool.use (p : Pool) : PoolUse → Option Pool
  | .op op => p.step op
  | .next r draw => (r.next p draw).map fun res => res.2.1
  | .endpointFailed r now => some (r.endpointFailed now p)

section
variable {p p' : Pool}

theorem Pool.Formed.mono (h : p.Formed) (hends : p'.endpoints ⊆ p.endpoints)
    (hlen : p'.elems.length = p.elems.length) (hidx : p'.nextIdx = p.nextIdx) : p'.Formed :=
  ⟨fun ptr hptr => hlen ▸ h.elem ptr (hends hptr), hidx ▸ h.nextIdx⟩

theorem Pool.Formed.put (h : p.Formed) (hput : p.put now endpoint = some (p', b)) : p'.Formed := by
  simp only [Pool.put] at hput
  split at hput
  · obtain ⟨e, -, hput⟩ := Option.bind_eq_some_iff.mp hput
    split at hput
    · split at hput
      · cases hput
        exact h.mono (fun _ hptr => hptr) (by simp) rfl
      · cases hput
        exact h
    · cases hput
      exact h.mono (fun _ hptr => hptr) (by simp) rfl
  · cases hput
    refine ⟨fun ptr hptr => ?_, h.nextIdx⟩
    rw [List.length_append, List.length_singleton]
    rcases List.mem_append.mp hptr with hptr | hptr
    · exact Nat.lt_succ_of_lt (h.elem ptr hptr)
    · rw [List.mem_singleton.mp hptr]
      exact Nat.lt_succ_self _

theorem Pool.Formed.removeEndpoint (h : p.Formed) (hrem : p.removeEndpoint ptr = some p') :
    p'.Formed := by
  simp only [Pool.removeEndpoint] at hrem
  obtain ⟨e, -, hrem⟩ := Option.bind_eq_some_iff.mp hrem
  obtain ⟨last, hlast, hrem⟩ := Option.bind_eq_some_iff.mp hrem
  split at hrem
  · obtain ⟨moved, -, hrem⟩ := Option.bind_eq_some_iff.mp hrem
    cases hrem
    refine h.mono (fun q hq => ?_) ?_ rfl
    · rcases List.mem_or_eq_of_mem_set (List.mem_of_mem_take hq) with hq | rfl
      · exact hq
      · exact List.mem_of_getElem? hlast
    · dsimp only
      split
      · rw [List.length_set]
      · rfl
  · cases hrem

theorem Pool.Formed.pruneFrom (h : p.Formed)
    (hprune : Pool.pruneFrom threshold now n p i = some (p', pruned)) :
    p'.Formed := by
  induction n generalizing p i pruned with
  | zero =>
    cases hprune
    exact h
  | succ n ih =>
    rw [Pool.pruneFrom] at hprune
    obtain ⟨ptr, -, hprune⟩ := Option.bind_eq_some_iff.mp hprune
    obtain ⟨e, -, hprune⟩ := Option.bind_eq_some_iff.mp hprune
    split at hprune
    · obtain ⟨p₁, hrem, hprune⟩ := Option.bind_eq_some_iff.mp hprune
      obtain ⟨⟨p₂, _⟩, hrest, hprune⟩ := Option.bind_eq_some_iff.mp hprune
      cases hprune
      exact ih (h.removeEndpoint hrem) hrest
    · exact ih h hprune

theorem length_foldl_modify (ptrs : List Nat) (f : EndpointElem → EndpointElem)
    (elems : List EndpointElem) :
    (ptrs.foldl (fun elems ptr => elems.modify ptr f) elems).length = elems.length := by
  induction ptrs generalizing elems with
  | nil => rfl
  | cons ptr ptrs ih => rw [List.foldl_cons, ih, List.length_modify]

theorem Pool.Formed.endpointFailed (h : p.Formed) : (p.endpointFailed now endpoint).Formed := by
  rw [Pool.endpointFailed]
  split
  · exact h.mono (fun _ hptr => hptr) (by simp) rfl
  · exact h

theorem Pool.Formed.step (h : p.Formed) (hstep : p.step op = some p') : p'.Formed := by
  cases op with
  | put endpoint now =>
    obtain ⟨⟨_, _⟩, hput, rfl⟩ := Option.map_eq_some_iff.mp hstep
    exact h.put hput
  | remove endpoint =>
    obtain ⟨⟨_, _⟩, hremove, rfl⟩ := Option.map_eq_some_iff.mp hstep
    simp only [Pool.remove] at hremove
    split at hremove
    · split at hremove
      · obtain ⟨e, -, hremove⟩ := Option.bind_eq_some_iff.mp hremove
        split at hremove
        · obtain ⟨_, hrem, hremove⟩ := Option.map_eq_some_iff.mp hremove
          cases hremove
          exact h.removeEndpoint hrem
        · cases hremove
          exact h
      · cases hremove
        exact h
    · cases hremove
      exact h
  | pruneEndpoints threshold now =>
    obtain ⟨⟨_, _⟩, hprune, rfl⟩ := Option.map_eq_some_iff.mp hstep
    exact h.pruneFrom hprune
  | markUpdated t =>
    cases hstep
    exact h.mono (fun _ hptr => hptr) (length_foldl_modify _ _ _) rfl
  | endpointFailed endpoint now =>
    cases hstep
    exact h.endpointFailed

theorem Pool.Formed.next_formed (h : p.Formed) (hnext : p.next draw = some (p', e)) :
    p'.Formed := by
  by_cases hne : p.endpoints = []
  · simp only [Pool.next, hne, List.length_nil, if_true] at hnext
    cases hnext
    exact h
  · obtain ⟨_, _, hp', hturned, hturn⟩ := h.next hne draw
    rw [hnext] at hp'
    cases hp'
    have hidx := (hturn.nextIdx_lt hne).1
    exact hturned.formed h (by omega)

theorem Pool.Formed.use (h : p.Formed) (huse : p.use u = some p') : p'.Formed := by
  cases u with
  | op op => exact h.step huse
  | next r draw =>
    obtain ⟨⟨_, _, _⟩, hnext, rfl⟩ := Option.map_eq_some_iff.mp huse
    simp only [RoundRobin.next] at hnext
    split at hnext
    · cases hnext
      exact h
    · obtain ⟨⟨_, _⟩, hcall, he⟩ := Option.map_eq_some_iff.mp hnext
      cases he
      exact h.next_formed hcall
  | endpointFailed r now =>
    cases huse
    rw [RoundRobin.endpointFailed]
    split
    · exact h.endpointFailed
    · exact h

/-- Every pool that its uses leave behind is formed. -/
theorem formed_of_run (hrun : run Pool.use (newPool retry path) us = some p) : p.Formed :=
  run_invariant_mem (fun _ _ _ _ h huse => h.use huse) ⟨by simp [newPool], by simp [newPool]⟩ hrun

end

namespace Sample

def failedPool : Pool :=
  { newPool 30 "/".toList with
    elems := [⟨instanceOf "app" 80 1, 0, 0, some 0⟩, ⟨instanceOf "app" 81 1, 1, 0, some 0⟩]
    endpoints := [0, 1]
    nextIdx := 2 }

end Sample

theorem next_round_robin_failed :
    Sample.failedPool.Formed ∧ ∃ p' e, Sample.failedPool.next ⟨0, fun _ => 10⟩ = some (p', some e) ∧
      Sample.failedPool.InTurn (fun _ => 10) 0 p' e ∧ p'.nextIdx < 2 := by
  have hf : Sample.failedPool.Formed := ⟨by decide, by decide⟩
  obtain ⟨-, p', e, hnext, hturn, -, -, hlt⟩ := (next_round_robin hf (by decide)).1 ⟨0, fun _ => 10⟩
  exact ⟨hf, p', e, hnext, hturn, hlt⟩

end BigipCtlr.Route
