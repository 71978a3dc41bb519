import BigipCtlr.Route.RoundRobin
import Mathlib.Data.List.Perm.Basic

/-!
# Choosing the endpoint with the fewest connections

`LeastConnection` looks at the endpoints of a pool in a random order and takes
the first with the fewest connections. The counters hang on the endpoints, and
count the requests between `PreRequest` and `PostRequest`.
-/

namespace BigipCtlr.Route

open Go Lib

abbrev Connections := Endpoint → Int64

def preRequest (connections : Connections) (e : Endpoint) : Connections :=
  Function.update connections e (connections e + 1)

def postRequest (connections : Connections) (e : Endpoint) : Connections :=
  Function.update connections e (connections e + -1)

def Pool.leastFrom (connections : Connections) (p : Pool) : List Nat → Endpoint → Option Endpoint
  | [], selected => some selected
  | randIdx :: rest, selected => do
    let cur ← p.endpointIdx randIdx
    p.leastFrom connections rest (if connections cur < connections selected then cur else selected)

/-- `next`, with the permutation that it draws. -/
def Pool.nextLeast (connections : Connections) (randIndices : List Nat) (p : Pool) :
    Option (Option Endpoint) :=
  let total := p.endpoints.length
  if total = 0 then some none
  else if total = 1 then (p.endpointIdx 0).map some
  else do
    let first ← randIndices.head?
    let selected ← p.endpointIdx first
    (p.leastFrom connections randIndices.tail selected).map some

structure LeastConnection where
  initialEndpoint : Str
  lastEndpoint : Option Endpoint

def newLeastConnection (initial : Str) : LeastConnection := ⟨initial, none⟩

def LeastConnection.next (r : LeastConnection) (connections : Connections)
    (randIndices : List Nat) (p : Pool) :
    Option (LeastConnection × Option Endpoint) :=
  let initial := if r.initialEndpoint ≠ [] then p.findById r.initialEndpoint else none
  match initial with
  | some e => some (⟨[], some e⟩, some e)
  | none => (p.nextLeast connections randIndices).map fun e => (⟨[], e⟩, e)

def LeastConnection.endpointFailed (now : Int) (r : LeastConnection) (p : Pool) : Pool :=
  match r.lastEndpoint with
  | some e => p.endpointFailed now e
  | none => p

-- ---------------------------------------------------------------------------
-- Requests
-- ---------------------------------------------------------------------------

/-- A pool with the requests that have chosen an endpoint, and those that are
under way to theirs. -/
structure Traffic where
  pool : Pool
  connections : Connections
  chosen : List Endpoint
  active : List Endpoint

def Traffic.start (p : Pool) : Traffic := ⟨p, fun _ => 0, [], []⟩

/-- A request calls `Next`, then `PreRequest` and in the end `PostRequest`. -/
inductive TrafficEvent
  | next (initial : Str) (randIndices : List Nat)
  | preRequest (e : Endpoint)
  | postRequest (e : Endpoint)
  | failed (r : LeastConnection) (now : Int)
  | use (u : PoolUse)

def Traffic.step (s : Traffic) : TrafficEvent → Option Traffic
  | .next initial randIndices =>
    ((newLeastConnection initial).next s.connections randIndices s.pool).map fun
      | (_, none) => s
      | (_, some e) => { s with chosen := e :: s.chosen }
  | .preRequest e =>
    if e ∈ s.chosen then
      some { s with
        connections := preRequest s.connections e, chosen := s.chosen.erase e, active :=
          e :: s.active }
    else none
  | .postRequest e =>
    if e ∈ s.active then
      some { s with connections := postRequest s.connections e, active := s.active.erase e }
    else none
  | .failed r now => some { s with pool := r.endpointFailed now s.pool }
  | .use u => (s.pool.use u).map fun pool => { s with pool := pool }

def Traffic.Counts (s : Traffic) : Prop := ∀ e, s.connections e = .ofNat (s.active.count e)

section
variable {s t : Traffic} {p : Pool}

theorem Traffic.Counts.open (h : s.Counts) (e : Endpoint) (chosen : List Endpoint) :
    Traffic.Counts { s with
      connections := preRequest s.connections e, chosen := chosen, active := e :: s.active } := by
  intro f
  simp only [preRequest]
  by_cases hf : f = e
  · subst hf
    rw [Function.update_self, List.count_cons_self, Int64.ofNat_add, h]
    rfl
  · rw [Function.update_of_ne hf, List.count_cons_of_ne (Ne.symm hf), h]

theorem Traffic.Counts.close (h : s.Counts) (he : e ∈ s.active) :
    Traffic.Counts { s with connections := postRequest s.connections e,
                            active := s.active.erase e } := by
  intro f
  simp only [postRequest]
  by_cases hf : f = e
  · subst hf
    obtain ⟨n, hn⟩ := Nat.exists_eq_add_of_lt (List.count_pos_iff.mpr he)
    rw [Nat.zero_add] at hn
    rw [Function.update_self, List.count_erase_self, h, hn, Int64.ofNat_add, Nat.add_sub_cancel,
      Int64.add_assoc]
    exact Int64.add_zero _
  · rw [Function.update_of_ne hf, List.count_erase_of_ne hf, h]

theorem Traffic.Counts.step (h : s.Counts) (hstep : s.step e = some t) : t.Counts := by
  cases e with
  | next initial randIndices =>
    obtain ⟨⟨r, o⟩, -, rfl⟩ := Option.map_eq_some_iff.mp hstep
    cases o with
    | none => exact h
    | some e => exact h
  | preRequest e =>
    simp only [Traffic.step, Option.ite_none_right_eq_some, Option.some.injEq] at hstep
    obtain ⟨-, rfl⟩ := hstep
    exact h.open e _
  | postRequest e =>
    simp only [Traffic.step, Option.ite_none_right_eq_some, Option.some.injEq] at hstep
    obtain ⟨he, rfl⟩ := hstep
    exact h.close he
  | failed r now =>
    cases hstep
    exact h
  | use u =>
    obtain ⟨pool, -, rfl⟩ := Option.map_eq_some_iff.mp hstep
    exact h

theorem Traffic.formed_step (h : s.pool.Formed) (hstep : s.step e = some t) : t.pool.Formed := by
  cases e with
  | next initial randIndices =>
    obtain ⟨⟨r, o⟩, -, rfl⟩ := Option.map_eq_some_iff.mp hstep
    cases o with
    | none => exact h
    | some e => exact h
  | preRequest e | postRequest e =>
    simp only [Traffic.step, Option.ite_none_right_eq_some, Option.some.injEq] at hstep
    obtain ⟨-, rfl⟩ := hstep
    exact h
  | failed r now =>
    cases hstep
    simp only [LeastConnection.endpointFailed]
    split
    · exact h.endpointFailed
    · exact h
  | use u =>
    obtain ⟨pool, hpool, rfl⟩ := Option.map_eq_some_iff.mp hstep
    exact h.use hpool

theorem Traffic.Counts.lt_iff (h : s.Counts) (hsmall : s.active.length < Nat.pow 2 63)
    (e f : Endpoint) :
    s.connections e < s.connections f ↔ s.active.count e < s.active.count f := by
  have hlt : ∀ g, s.active.count g < Nat.pow 2 63 := fun g => List.count_le_length.trans_lt hsmall
  rw [h, h, Int64.lt_iff_toInt_lt, Int64.toInt_ofNat_of_lt (hlt e), Int64.toInt_ofNat_of_lt (hlt f)]
  exact Int.ofNat_lt

/-- The loop ends with an endpoint that has the fewest connections of all it has
looked at. -/
theorem Pool.leastFrom_least {load : Endpoint → Nat} {connections : Connections}
    (hload : ∀ e f, connections e < connections f ↔ load e < load f) (hf : p.Formed) (is : List Nat)
    (his : ∀ i ∈ is, i < p.endpoints.length) (selected : Endpoint) :
    ∃ e, p.leastFrom connections is selected = some e ∧
      (e = selected ∨ ∃ i ∈ is, p.endpointIdx i = some e) ∧
      load e ≤ load selected ∧ ∀ i ∈ is, ∀ f ∈ p.endpointIdx i, load e ≤ load f := by
  induction is generalizing selected with
  | nil => exact ⟨selected, rfl, .inl rfl, le_rfl, by simp⟩
  | cons i is ih =>
    obtain ⟨ptr, elem, -, -, hidx⟩ := hf.elemIdx (his i List.mem_cons_self)
    have hcur : p.endpointIdx i = some elem.endpoint := by
      rw [Pool.endpointIdx, hidx, Option.map_some]
    obtain ⟨e, he, hmem, hle, hleast⟩ := ih (fun j hj => his j (List.mem_cons_of_mem _ hj))
      (if connections elem.endpoint < connections selected then elem.endpoint else selected)
    have hboth : load e ≤ load selected ∧ load e ≤ load elem.endpoint := by
      split at hle
      · next hlt =>
        have := (hload _ _).mp hlt
        omega
      · next hge =>
        have := mt (hload _ _).mpr hge
        omega
    refine ⟨e, ?_, ?_, hboth.1, fun j hj f hfj => ?_⟩
    · rw [Pool.leastFrom, hcur]
      exact he
    · rcases hmem with heq | ⟨j, hj, hidx'⟩
      · rw [heq]
        split
        · exact .inr ⟨i, List.mem_cons_self, hcur⟩
        · exact .inl rfl
      · exact .inr ⟨j, List.mem_cons_of_mem _ hj, hidx'⟩
    · rcases List.mem_cons.mp hj with rfl | hj
      · rw [hcur] at hfj
        cases hfj
        exact hboth.2
      · exact hleast j hj f hfj

def Traffic.Least (s : Traffic) (e : Endpoint) : Prop :=
  (∃ i, s.pool.endpointIdx i = some e) ∧ ∀ i, ∀ f ∈ s.pool.endpointIdx i, s.active.count e ≤
    s.active.count f

theorem Pool.endpointIdx_eq_none (h : p.endpoints.length ≤ i) : p.endpointIdx i = none := by
  rw [Pool.endpointIdx, Pool.elemIdx, List.getElem?_eq_none h]
  rfl

/-- A call of `next` returns, and takes a least loaded endpoint. -/
theorem Traffic.Counts.nextLeast (h : s.Counts) (hsmall : s.active.length < Nat.pow 2 63)
    (hf : s.pool.Formed) (hperm : randIndices.Perm (List.range s.pool.endpoints.length))
    (hne : s.pool.endpoints ≠ []) :
    ∃ e, s.pool.nextLeast s.connections randIndices = some (some e) ∧ s.Least e := by
  have hpos : s.pool.endpoints.length ≠ 0 := fun hlen => hne (List.length_eq_zero_iff.mp hlen)
  rw [Pool.nextLeast, if_neg hpos]
  by_cases hone : s.pool.endpoints.length = 1
  · obtain ⟨ptr, elem, -, -, hidx⟩ := hf.elemIdx (i := 0) (by omega)
    have hcur : s.pool.endpointIdx 0 = some elem.endpoint := by
      rw [Pool.endpointIdx, hidx, Option.map_some]
    refine ⟨elem.endpoint, by rw [if_pos hone, hcur, Option.map_some], ⟨0, hcur⟩, fun i f hfi => ?_⟩
    -- no other index leads to an endpoint
    cases i with
    | zero =>
      rw [hcur] at hfi
      cases hfi
      exact le_rfl
    | succ i =>
      rw [Pool.endpointIdx_eq_none (by omega)] at hfi
      cases hfi
  · rw [if_neg hone]
    have hmem : ∀ i, i ∈ randIndices ↔ i < s.pool.endpoints.length := fun i => by
      rw [hperm.mem_iff, List.mem_range]
    cases randIndices with
    | nil => exact absurd ((hmem 0).mpr (by omega)) (by simp)
    | cons first rest =>
      obtain ⟨ptr, elem, -, -, hidx⟩ := hf.elemIdx ((hmem first).mp List.mem_cons_self)
      have hcur : s.pool.endpointIdx first = some elem.endpoint := by
        rw [Pool.endpointIdx, hidx, Option.map_some]
      obtain ⟨e, he, hin, hle, hleast⟩ := Pool.leastFrom_least (h.lt_iff hsmall) hf rest
        (fun i hi => (hmem i).mp (List.mem_cons_of_mem _ hi)) elem.endpoint
      refine ⟨e, ?_, ?_, fun i f hfi => ?_⟩
      · simp only [List.head?_cons, List.tail_cons, Option.bind_eq_bind, Option.bind_some, hcur, he,
          Option.map_some]
      · rcases hin with rfl | ⟨i, -, hi⟩
        · exact ⟨first, hcur⟩
        · exact ⟨i, hi⟩
      · by_cases hi : i < s.pool.endpoints.length
        · rcases List.mem_cons.mp ((hmem i).mpr hi) with rfl | hi
          · rw [hcur] at hfi
            cases hfi
            exact hle
          · exact hleast i hi f hfi
        · rw [Pool.endpointIdx_eq_none (by omega)] at hfi
          cases hfi

theorem run_counts (hrun : run Traffic.step (.start p) es = some s) : s.Counts :=
  run_invariant_mem (fun _ _ _ _ h hstep => h.step hstep) (fun _ => rfl) hrun

theorem Traffic.Counts.next (h : s.Counts) (hsmall : s.active.length < Nat.pow 2 63)
    (hf : s.pool.Formed) (hperm : randIndices.Perm (List.range s.pool.endpoints.length))
    (hne : s.pool.endpoints ≠ []) :
    ∃ e, s.step (.next [] randIndices) = some { s with chosen := e :: s.chosen } ∧ s.Least e := by
  obtain ⟨e, he, hleast⟩ := h.nextLeast hsmall hf hperm hne
  refine ⟨e, ?_, hleast⟩
  simp only [Traffic.step, LeastConnection.next, newLeastConnection, ne_eq,
    not_true_eq_false, if_false, he, Option.map_some]

theorem Traffic.step_preRequest (s : Traffic) (e : Endpoint) :
    Traffic.step { s with chosen := e :: s.chosen } (.preRequest e) =
      some { s with connections := preRequest s.connections e, active := e :: s.active } := by
  simp [Traffic.step]

/-- Whatever requests came before, at whatever point they are, and however the
pool changed, the next request goes to an endpoint with the fewest connections
open. -/
theorem request_least_loaded (hrun : run Traffic.step (.start (newPool retry path)) es = some s)
    (hsmall : s.active.length < Nat.pow 2 63)
    (hperm : randIndices.Perm (List.range s.pool.endpoints.length)) (hne : s.pool.endpoints ≠ []) :
    ∃ t u e, s.step (.next [] randIndices) = some t ∧ t.step (.preRequest e) = some u ∧
      u.active = e :: s.active ∧ s.Least e := by
  have hf : s.pool.Formed :=
    run_invariant_mem (I := fun s => s.pool.Formed)
      (fun _ _ _ _ h hstep => Traffic.formed_step h hstep)
      ⟨by simp [Traffic.start, newPool], by simp [Traffic.start, newPool]⟩ hrun
  obtain ⟨e, ht, hleast⟩ := (run_counts hrun).next hsmall hf hperm hne
  exact ⟨_, _, e, ht, s.step_preRequest e, rfl, hleast⟩

namespace Sample

def oneRequest : List TrafficEvent :=
  [.use (.op (.put (instanceOf "app" 80 1) 0)), .use (.op (.put (instanceOf "app" 81 1) 0)),
    .next [] [1, 0], .preRequest (instanceOf "app" 81 1), .next [] [1, 0]]

end Sample

theorem request_least_loaded_sample :
    ∃ s ∈ run Traffic.step (.start (newPool 0 "/".toList)) Sample.oneRequest,
      ∃ t u e, s.step (.next [] [1, 0]) = some t ∧ t.step (.preRequest e) = some u ∧
        u.active = e :: s.active ∧ s.Least e := by
  have hrun : ∃ s ∈ run Traffic.step (.start (newPool 0 "/".toList)) Sample.oneRequest,
      s.active.length = 1 ∧ s.pool.endpoints.length = 2 := by
    decide
  obtain ⟨s, hrun, hactive, hlen⟩ := hrun
  refine ⟨s, hrun, request_least_loaded hrun (by rw [hactive]; decide) (hlen ▸ by decide)
    fun hnil => ?_⟩
  rw [hnil] at hlen
  cases hlen

/-- A request that opens its connection before another one chooses. -/
def Traffic.request (s : Traffic) (randIndices : List Nat) : Option Traffic := do
  let t ← s.step (.next [] randIndices)
  match t.chosen with
  | e :: _ => t.step (.preRequest e)
  | [] => some t

theorem Traffic.Counts.request (h : s.Counts) (hsmall : s.active.length < Nat.pow 2 63)
    (hf : s.pool.Formed) (hperm : randIndices.Perm (List.range s.pool.endpoints.length))
    (hne : s.pool.endpoints ≠ []) :
    ∃ t e, s.request randIndices = some t ∧ t.Counts ∧ t.pool = s.pool ∧ t.active = e :: s.active ∧
      s.Least e := by
  obtain ⟨e, ht, hleast⟩ := h.next hsmall hf hperm hne
  refine ⟨{ s with connections := preRequest s.connections e, active := e :: s.active }, e, ?_,
    h.open e _, rfl, rfl, hleast⟩
  rw [Traffic.request, ht]
  exact s.step_preRequest e

/-- The requests of a pool that does not change are spread evenly: where each
opens its connection before another one chooses, and none of them ends, the
numbers of two endpoints differ by one at most. -/
theorem requests_balanced (hf : p.Formed) (hne : p.endpoints ≠ []) (draws : List (List Nat))
    (hperm : ∀ randIndices ∈ draws, randIndices.Perm (List.range p.endpoints.length))
    (hsmall : draws.length < Nat.pow 2 63) :
    ∃ s, run Traffic.request (.start p) draws = some s ∧ s.active.length = draws.length ∧
      ∀ i j, ∀ e ∈ p.endpointIdx i, ∀ f ∈ p.endpointIdx j, s.active.count e ≤
        s.active.count f + 1 := by
  suffices h : ∃ s, run Traffic.request (.start p) draws = some s ∧ s.Counts ∧ s.pool = p ∧
      s.active.length = draws.length ∧
      ∀ i j, ∀ e ∈ p.endpointIdx i, ∀ f ∈ p.endpointIdx j, s.active.count e ≤
        s.active.count f + 1 by
    obtain ⟨s, hrun, -, -, hlen, hbalanced⟩ := h
    exact ⟨s, hrun, hlen, hbalanced⟩
  induction draws using List.reverseRecOn with
  | nil => exact ⟨.start p, rfl, fun _ => rfl, rfl, rfl, fun i j e _ f _ => by simp [Traffic.start]⟩
  | append_singleton draws randIndices ih =>
    rw [List.length_append, List.length_singleton] at hsmall
    obtain ⟨s, hrun, hcounts, rfl, hlen, hbalanced⟩ :=
      ih (fun r hr => hperm r (List.mem_append_left _ hr)) (by omega)
    have hdraw := hperm randIndices (List.mem_append_right _ List.mem_cons_self)
    obtain ⟨t, e, ht, hcounts', hpool, hactive, -, hleast⟩ :=
      hcounts.request (by omega) hf hdraw hne
    refine ⟨t, ?_, hcounts', hpool, ?_, fun i j f hfi g hgj => ?_⟩
    · exact run_append_eq_some.mpr ⟨s, hrun, run_cons_eq_some.mpr ⟨t, ht, rfl⟩⟩
    · rw [hactive, List.length_cons, List.length_append, List.length_singleton, hlen]
    · -- only the endpoint that had the fewest gets one more
      have hold := hbalanced i j f hfi g hgj
      have hmin := hleast j g hgj
      have hg : s.active.count g ≤ t.active.count g := by
        rw [hactive]
        exact List.count_le_count_cons
      rw [hactive] at hg ⊢
      by_cases hfe : f = e
      · subst hfe
        rw [List.count_cons_self]
        omega
      · rw [List.count_cons_of_ne (Ne.symm hfe)]
        omega

theorem requests_balanced_sample :
    ∃ s, run Traffic.request (.start Sample.failedPool) [[0, 1], [1, 0], [1, 0]] = some s ∧
      s.active.length = 3 ∧ ∀ i j, ∀ e ∈ Sample.failedPool.endpointIdx i,
        ∀ f ∈ Sample.failedPool.endpointIdx j,
        s.active.count e ≤ s.active.count f + 1 :=
  requests_balanced ⟨by decide, by decide⟩ (by decide) [[0, 1], [1, 0],
    [1, 0]] (by decide) (by decide)

end

end BigipCtlr.Route
