import BigipCtlr.Registry.Mirror

/-!
# No update is sent twice

A registration or an unregistration of a route brings an endpoint of its own,
and the updates of a prune are about endpoints that no update has removed yet.
So no two updates that the registry sends are equal.
-/

namespace BigipCtlr.Registry

open Go Lib Route

def Call.place (lower : Lower) : Call → Option (List Str × Endpoint)
  | .register uri endpoint _ => some (segments (uri.routeKey lower), endpoint)
  | .unregister uri endpoint => some (segments (uri.routeKey lower), endpoint)
  | .prune .. => none

def Sent.mark (s : Sent) : List Str × Operation × Option Endpoint :=
  (s.node, s.update.op, s.update.endpoint)

def Request.mark (q : Request) : List Str × Operation × Option Endpoint :=
  (q.node, q.op, some q.endpoint)

/-- The updates of the calls so far, whose places are `seen`: each was sent
once, and none has removed an endpoint that the table has. -/
structure Single (keys : Set (List Str)) (seen : List (List Str × Endpoint)) (T : RouteTable)
    (sent : List Sent) :
    Prop where
  nodup : (sent.map Sent.mark).Nodup
  proper : ∀ s ∈ sent, s.node ∈ keys ∧ s.update.uri = toPath s.node ∧
    (s.update.op = .add ∨ s.update.op = .remove)
  placed : ∀ s ∈ sent, ∃ e, s.update.endpoint = some e ∧ (s.node, e) ∈ seen
  held : ∀ k a m, T.entries k a = some m → k ∈ keys ∧ (k, m.endpoint) ∈ seen ∧
    (k, Operation.remove, some m.endpoint) ∉ sent.map Sent.mark

theorem single_nil (keys : Set (List Str)) (threshold : Int64) :
    Single keys [] (.empty threshold) [] where
  nodup := .nil
  proper := by simp
  placed := by simp
  held := by simp [RouteTable.empty]

section
variable {keys : Set (List Str)} {seen : List (List Str × Endpoint)} {T : RouteTable}
  {sent : List Sent}
  {r : RouteRegistry}

theorem sendAll_proper (hn : Named keys) (hl : r.listener = true) (reqs : List Request)
    (hproper : ∀ q ∈ reqs, q.Proper keys ∧ (q.op = .add ∨ q.op = .remove))
    (hsend : r.sendAll reqs = some new) :
    new.map (fun s => (s.mark, s.update.uri)) = reqs.map fun q => (q.mark, toPath q.node) := by
  induction reqs generalizing new with
  | nil =>
    cases hsend
    rfl
  | cons q reqs ih =>
    obtain ⟨hq, hop⟩ := hproper q List.mem_cons_self
    obtain ⟨s, hs, hnode, hsop, huri, he⟩ := hq.sends hn hop hl
    rw [← List.singleton_append, sendAll_append, hs, Option.bind_some, Option.map_eq_some_iff]
      at hsend
    obtain ⟨rest, hrest, rfl⟩ := hsend
    rw [List.singleton_append, List.map_cons, List.map_cons,
      ih (fun q hq => hproper q (List.mem_cons_of_mem _ hq)) hrest, Sent.mark, Request.mark,
      hnode, hsop, huri, he]

/-- Different updates have different marks, for the name of a route is its
path. -/
theorem Single.updates_nodup (h : Single keys seen T sent) (hn : Named keys) :
    (sent.map Sent.update).Nodup := by
  have hmarks := List.pairwise_map.mp h.nodup
  refine List.pairwise_map.mpr (hmarks.imp_of_mem fun {s t} hs ht hne heq => hne ?_)
  obtain ⟨hks, hus, -⟩ := h.proper s hs
  obtain ⟨hkt, hut, -⟩ := h.proper t ht
  have hnode : s.node = t.node := by
    refine hn.apart _ hks _ hkt ?_
    rw [← hus, ← hut, heq]
  rw [Sent.mark, Sent.mark, hnode, heq]

theorem Single.append (h : Single keys seen T sent) (hn : Named keys) (hl : r.listener = true)
    {T' : RouteTable} {seen' : List (List Str × Endpoint)} {reqs : List Request}
    (hsub : seen ⊆ seen') (hproper : ∀ q ∈ reqs, q.Proper keys ∧ (q.op = .add ∨ q.op = .remove))
    (hsend : r.sendAll reqs = some new) (hnd : (reqs.map Request.mark).Nodup)
    (hnew : ∀ q ∈ reqs, (q.node, q.endpoint) ∈ seen' ∧ q.mark ∉ sent.map Sent.mark)
    (hheld : ∀ k a m, T'.entries k a = some m → k ∈ keys ∧ (k, m.endpoint) ∈ seen' ∧
      (k, Operation.remove, some m.endpoint) ∉ sent.map Sent.mark ++ reqs.map Request.mark) :
    Single keys seen' T' (sent ++ new) := by
  have hmap := sendAll_proper hn hl reqs hproper hsend
  have hmarks : new.map Sent.mark = reqs.map Request.mark := by
    have hfst := congrArg (List.map Prod.fst) hmap
    rw [List.map_map, List.map_map] at hfst
    exact hfst
  have hfrom : ∀ s ∈ new, ∃ q ∈ reqs, q.mark = s.mark ∧ toPath q.node = s.update.uri := by
    intro s hs
    have hin : (s.mark, s.update.uri) ∈ reqs.map fun q => (q.mark, toPath q.node) := by
      rw [← hmap]
      exact List.mem_map.mpr ⟨s, hs, rfl⟩
    obtain ⟨q, hq, heq⟩ := List.mem_map.mp hin
    exact ⟨q, hq, (Prod.mk.inj heq).1, (Prod.mk.inj heq).2⟩
  constructor
  · rw [List.map_append, hmarks, List.nodup_append']
    refine ⟨h.nodup, hnd, fun x hx hx' => ?_⟩
    obtain ⟨q, hq, rfl⟩ := List.mem_map.mp hx'
    exact (hnew q hq).2 hx
  · intro s hs
    rcases List.mem_append.mp hs with hs | hs
    · exact h.proper s hs
    · obtain ⟨q, hq, hmark, huri⟩ := hfrom s hs
      obtain ⟨hkey, hop⟩ := hproper q hq
      simp only [Request.mark, Sent.mark, Prod.mk.injEq] at hmark
      rw [← hmark.1, ← hmark.2.1]
      exact ⟨hkey.key, huri.symm, hop⟩
  · intro s hs
    rcases List.mem_append.mp hs with hs | hs
    · obtain ⟨e, he, hin⟩ := h.placed s hs
      exact ⟨e, he, hsub hin⟩
    · obtain ⟨q, hq, hmark, -⟩ := hfrom s hs
      simp only [Request.mark, Sent.mark, Prod.mk.injEq] at hmark
      rw [← hmark.1]
      exact ⟨q.endpoint, hmark.2.2.symm, (hnew q hq).1⟩
  · intro k a m hm
    rw [List.map_append, hmarks]
    exact hheld k a m hm

theorem put_endpoint (now : Int) (endpoint : Endpoint) (old : Option Entry) :
    (RouteTable.put now endpoint old).endpoint = endpoint ∨
      ∃ m, old = some m ∧ (RouteTable.put now endpoint old).endpoint = m.endpoint := by
  cases old with
  | none => exact .inl rfl
  | some m =>
    simp only [RouteTable.put]
    split
    · split
      · exact .inl rfl
      · exact .inr ⟨m, rfl, rfl⟩
    · exact .inr ⟨m, rfl, rfl⟩

theorem resume_endpoint (h : (T.resume fresh).entries k a = some m) :
    ∃ m', T.entries k a = some m' ∧ m'.endpoint = m.endpoint := by
  simp only [RouteTable.resume] at h
  split at h
  · obtain ⟨m', hm', rfl⟩ := Option.map_eq_some_iff.mp h
    exact ⟨m', hm', rfl⟩
  · exact ⟨m, h, rfl⟩

theorem Single.mark_notMem (h : Single keys seen T sent) (hx : x ∉ seen) (op : Operation) :
    (x.1, op, some x.2) ∉ sent.map Sent.mark := by
  intro hin
  obtain ⟨s, hs, heq⟩ := List.mem_map.mp hin
  obtain ⟨e, he, hseen⟩ := h.placed s hs
  simp only [Sent.mark, he, Prod.mk.injEq, Option.some.injEq] at heq
  refine hx ?_
  rw [← Prod.mk.eta (p := x), ← heq.1, ← heq.2.2]
  exact hseen

/-- A call that asks for no update but one, which is about a place of its own. -/
theorem Single.one (h : Single keys seen T sent) (hn : Named keys) (hl : r.listener = true)
    {T' : RouteTable} {q : Request} {asked : Prop} [Decidable asked] (hq : q.Proper keys)
    (hop : q.op = .add ∨ q.op = .remove) (hown : (q.node, q.endpoint) ∉ seen)
    (hsend : r.sendAll (if asked then [q] else []) = some new)
    (hheld : ∀ k a m, T'.entries k a = some m →
      (q.op = .add ∧ k = q.node ∧ m.endpoint = q.endpoint) ∨
        ∃ m', T.entries k a = some m' ∧ m'.endpoint = m.endpoint) :
    Single keys ((q.node, q.endpoint) :: seen) T' (sent ++ new) := by
  have hreqs : ∀ q' ∈ (if asked then [q] else []), q' = q := by
    intro q' hq'
    split at hq'
    · exact List.mem_singleton.mp hq'
    · cases hq'
  refine h.append hn hl (List.subset_cons_self _ _) (fun q' hq' => ?_) hsend ?_ (fun q' hq' => ?_)
    fun k a m hm => ?_
  · rw [hreqs q' hq']
    exact ⟨hq, hop⟩
  · split
    · exact List.nodup_singleton _
    · exact .nil
  · rw [hreqs q' hq']
    exact ⟨List.mem_cons_self, h.mark_notMem hown q.op⟩
  · rw [List.mem_append, not_or]
    rcases hheld k a m hm with ⟨hadd, rfl, he⟩ | ⟨m', hm', he⟩
    · rw [he]
      refine ⟨hq.key, List.mem_cons_self, h.mark_notMem hown .remove, fun hin => ?_⟩
      obtain ⟨q', hq', hmark⟩ := List.mem_map.mp hin
      rw [hreqs q' hq', Request.mark, hadd] at hmark
      cases (Prod.mk.inj (Prod.mk.inj hmark).2).1
    · obtain ⟨hk, hseen, hsent⟩ := h.held k a m' hm'
      rw [he] at hseen hsent
      refine ⟨hk, List.mem_cons_of_mem _ hseen, hsent, fun hin => ?_⟩
      obtain ⟨q', hq', hmark⟩ := List.mem_map.mp hin
      rw [hreqs q' hq', Request.mark] at hmark
      simp only [Prod.mk.injEq, Option.some.injEq] at hmark
      refine hown ?_
      rw [hmark.1, hmark.2.2]
      exact hseen

theorem Single.prune (h : Single keys seen T sent) (hn : Named keys) (href : r.Refines T)
    (hl : r.listener = true) {reqs : List Request}
    (hasks : T.Asks lower reqs (.prune suspended fresh now order))
    (hsend : r.sendAll reqs = some new) :
    Single keys seen (T.call lower (.prune suspended fresh now order)) (sent ++ new) := by
  obtain ⟨hnd, hmem⟩ := hasks
  -- an endpoint that is pruned is one that the table has
  have hheld : ∀ q ∈ reqs, q.op = .remove ∧ q.uri = toPath q.node ∧ q.node ∈ keys ∧
      (q.node, q.endpoint) ∈ seen ∧
      q.mark ∉ sent.map Sent.mark := by
    intro q hq
    obtain ⟨-, hop, huri, m, hm, hme, -⟩ := (hmem q).mp hq
    obtain ⟨m', hm', heq⟩ := resume_endpoint hm
    obtain ⟨hk, hseen, hsent⟩ := h.held _ _ m' hm'
    rw [heq, hme] at hseen hsent
    rw [Request.mark, hop]
    exact ⟨rfl, huri, hk, hseen, hsent⟩
  refine h.append hn hl (List.Subset.refl _) (fun q hq => ?_) hsend ?_ (fun q hq => ?_)
    fun k a m hm => ?_
  · obtain ⟨hop, huri, hk, -⟩ := hheld q hq
    exact ⟨⟨hk, huri⟩, .inr hop⟩
  · refine List.pairwise_map.mpr ((List.pairwise_map.mp hnd).imp fun hne heq => hne ?_)
    simp only [Request.mark, Prod.mk.injEq, Option.some.injEq] at heq
    rw [heq.1, heq.2.2]
  · exact ⟨(hheld q hq).2.2.2.1, (hheld q hq).2.2.2.2⟩
  · have hkept : ∃ m', T.entries k a = some m' ∧ m'.endpoint = m.endpoint ∧
        (suspended = false → (T.resume fresh).entries k a = some m ∧
          m.stale T.threshold (now k) = false) := by
      simp only [RouteTable.call] at hm
      split at hm
      · next hsus => exact ⟨m, hm, rfl, fun hno => by rw [hsus] at hno; cases hno⟩
      · simp only [RouteTable.expire, if_true, Option.filter_eq_some_iff, Bool.not_eq_true'] at hm
        obtain ⟨m', hm', heq⟩ := resume_endpoint hm.1
        exact ⟨m', hm', heq, fun _ => ⟨hm.1, T.resume_threshold fresh ▸ hm.2⟩⟩
    obtain ⟨m', hm', heq, hlive⟩ := hkept
    obtain ⟨hk, hseen, hsent⟩ := h.held k a m' hm'
    rw [heq] at hseen hsent
    refine ⟨hk, hseen, ?_⟩
    rw [List.mem_append, not_or]
    refine ⟨hsent, fun hin => ?_⟩
    obtain ⟨q, hq, hmark⟩ := List.mem_map.mp hin
    simp only [Request.mark, Prod.mk.injEq, Option.some.injEq] at hmark
    obtain ⟨rfl, -, he⟩ := hmark
    obtain ⟨hno, -, -, m'', hm'', hme, hstale⟩ := (hmem q).mp hq
    obtain ⟨hentry, hfresh⟩ := hlive hno
    have haddr : q.endpoint.canonicalAddr = a := by
      rw [he]
      exact (href.resume fresh).canonicalAddr hentry
    rw [haddr, hentry] at hm''
    cases hm''
    rw [hfresh] at hstale
    cases hstale

/-- What a call with an endpoint of its own sends was not sent before. -/
theorem Single.call (h : Single keys seen T sent) (hn : Named keys) (href : r.Refines T)
    (hl : r.listener = true) {reqs : List Request} (hasks : T.Asks lower reqs c)
    (hsend : r.sendAll reqs = some new)
    (hkey : ∀ u ∈ Call.uri c, segments (u.routeKey lower) ∈ keys ∧
      toPath (segments (u.routeKey lower)) = u.routeKey lower)
    (hown : ∀ x ∈ c.place lower, x ∉ seen) :
    Single keys ((c.place lower).toList ++ seen) (T.call lower c) (sent ++ new) := by
  cases c with
  | register uri endpoint now =>
    obtain ⟨hk, hpath⟩ := hkey uri rfl
    rw [RouteTable.Asks] at hasks
    rw [hasks] at hsend
    refine h.one hn hl ⟨hk, hpath.symm⟩ (.inl rfl) (hown _ rfl) hsend fun k a m hm => ?_
    simp only [RouteTable.call, RouteTable.register] at hm
    split at hm
    · next hka =>
      obtain ⟨rfl, rfl⟩ := hka
      cases hm
      rcases put_endpoint now endpoint
        (T.entries (segments (Uri.routeKey lower uri)) endpoint.canonicalAddr) with
        hput | ⟨m, hm, hput⟩
      · exact .inl ⟨rfl, rfl, hput⟩
      · exact .inr ⟨m, hm, hput.symm⟩
    · exact .inr ⟨m, hm, rfl⟩
  | unregister uri endpoint =>
    obtain ⟨hk, hpath⟩ := hkey uri rfl
    rw [RouteTable.Asks] at hasks
    rw [hasks] at hsend
    refine h.one hn hl ⟨hk, hpath.symm⟩ (.inr rfl) (hown _ rfl) hsend fun k a m hm => ?_
    simp only [RouteTable.call, RouteTable.unregister] at hm
    split at hm
    · cases hm
    · exact .inr ⟨m, hm, rfl⟩
  | prune suspended fresh now order =>
    rw [Call.place, Option.toList_none, List.nil_append]
    exact h.prune hn href hl hasks hsend

end

end BigipCtlr.Registry
