import BigipCtlr.F5Router.Binding
import BigipCtlr.F5Router.Names
import BigipCtlr.Registry.Registry
import BigipCtlr.ServiceBroker.Broker
import Mathlib.Data.List.TakeWhile

/-!
# The names of the broker and of the registry

The broker names the objects of a route by the route as it was given, the
registry by its route key: in lower case, without a query, and with one more
slash cut off.
-/

namespace BigipCtlr

open Go Registry

-- ---------------------------------------------------------------------------
-- Hexadecimal digits
-- ---------------------------------------------------------------------------

theorem digitChar_inj : ∀ m < 16, ∀ n < 16, Nat.digitChar m = Nat.digitChar n → m = n := by decide

theorem hexBytes_cons (b : UInt8) (bs : List UInt8) :
    hexBytes (b :: bs) = Nat.digitChar (b.toNat / 16) :: Nat.digitChar (b.toNat % 16) ::
      hexBytes bs := rfl

theorem hexBytes_injective (h : hexBytes as = hexBytes bs) : as = bs := by
  induction as generalizing bs with
  | nil =>
    cases bs with
    | nil => rfl
    | cons b bs => cases h
  | cons a as ih =>
    cases bs with
    | nil => cases h
    | cons b bs =>
      rw [hexBytes_cons, hexBytes_cons, List.cons.injEq, List.cons.injEq] at h
      obtain ⟨hhigh, hlow, hrest⟩ := h
      have ha := a.toNat_lt
      have hb := b.toNat_lt
      have hdiv := digitChar_inj (a.toNat / 16) (by omega) (b.toNat / 16) (by omega) hhigh
      have hmod := digitChar_inj (a.toNat % 16) (by omega) (b.toNat % 16) (by omega) hlow
      rw [ih hrest, UInt8.toNat_inj.mp (by omega : a.toNat = b.toNat)]

theorem of_mem_hexBytes (h : c ∈ hexBytes bs) : c ≠ '-' ∧ c ≠ '?' := by
  have hall : ∀ n < 16, Nat.digitChar n ≠ '-' ∧ Nat.digitChar n ≠ '?' := by decide
  obtain ⟨b, -, hb⟩ := List.mem_flatMap.mp h
  have hlt := b.toNat_lt
  simp only [List.mem_cons, List.not_mem_nil, or_false] at hb
  rcases hb with rfl | rfl
  · exact hall _ (by omega)
  · exact hall _ (by omega)

-- ---------------------------------------------------------------------------
-- Names without a wildcard
-- ---------------------------------------------------------------------------

theorem makeObjectName_plain (h : '*' ∉ uri) :
    makeObjectName uri = (index uri '.').map fun i =>
      "cf-".toList ++ uri.take i ++ '-' :: hexBytes ((Sha256.sum256 uri).take 8) := by
  rw [makeObjectName, if_neg, if_neg h]
  rw [hasPrefix_iff]
  rintro ⟨rest, rfl⟩
  exact h (by simp)

/-- Two texts with the same part before the first dot and the same start of
their hashes. -/
def Collide (s t : Str) : Prop :=
  '*' ∉ s ∧ '*' ∉ t ∧ ∃ i j, index s '.' = some i ∧ index t '.' = some j ∧ s.take i = t.take j ∧
    (Sha256.sum256 s).take 8 = (Sha256.sum256 t).take 8

theorem makeObjectName_plain_eq_iff (hs : '*' ∉ s) (ht : '*' ∉ t) (hdot : '.' ∈ s) :
    makeObjectName s = makeObjectName t ↔ Collide s t := by
  obtain ⟨i, hi⟩ := Option.isSome_iff_exists.mp (List.isSome_idxOf?.mpr hdot)
  have hi : index s '.' = some i := hi
  rw [makeObjectName_plain hs, makeObjectName_plain ht, hi, Option.map_some]
  constructor
  · intro h
    obtain ⟨j, hj, hname⟩ := Option.map_eq_some_iff.mp h.symm
    obtain ⟨hhead, hhash⟩ := append_cons_inj_of_notMem (fun h => (of_mem_hexBytes h).1 rfl)
      (fun h => (of_mem_hexBytes h).1 rfl) hname
    exact ⟨hs, ht, i, j, hi, hj, (List.append_cancel_left hhead).symm,
      (hexBytes_injective hhash).symm⟩
  · rintro ⟨-, -, i', j, hi', hj, htake, hhash⟩
    cases hi.symm.trans hi'
    rw [hj, Option.map_some, htake, hhash]

-- ---------------------------------------------------------------------------
-- The route key
-- ---------------------------------------------------------------------------

theorem string_cases (u : Uri) :
    (u.string = u ∧ ¬ "/".toList <:+ u) ∨ u = u.string ++ "/".toList := by
  by_cases h : "/".toList <:+ u
  · obtain ⟨t, rfl⟩ := h
    exact .inr (by rw [Uri.string, trimSuffix_append])
  · exact .inl ⟨trimSuffix_of_not h, h⟩

theorem string_initial (u : Uri) : u.string <+: u := by
  obtain ⟨h, -⟩ | h := string_cases u
  · exact ⟨[], by rw [h, List.append_nil]⟩
  · exact ⟨_, h.symm⟩

theorem mem_string (h : c ≠ '/') {u : Uri} : c ∈ u.string ↔ c ∈ u := by
  refine ⟨fun hc => (string_initial u).subset hc, fun hc => ?_⟩
  obtain ⟨hu, -⟩ | hu := string_cases u
  · rwa [hu]
  · rw [hu] at hc
    exact (List.mem_append.mp hc).resolve_right fun hc => h (List.mem_singleton.mp hc)

theorem map_eq_self_iff {f : α → α} {l : List α} : l.map f = l ↔ ∀ a ∈ l, f a = a := by
  nth_rewrite 2 [← List.map_id l]
  exact List.map_eq_map_iff

section
variable (lower : Lower) (s : Uri)

theorem key_initial : (Uri.routeKey lower s).string <+: s.string.map lower.toLower :=
  (string_initial _).trans (List.takeWhile_prefix _)

theorem query_notMem_key : '?' ∉ (Uri.routeKey lower s).string := by
  intro h
  have hne := List.mem_takeWhile_imp ((mem_string (by decide)).mp h)
  simp at hne

def Canonical : Prop :=
  (∀ c ∈ s.string, lower.toLower c = c) ∧ '?' ∉ s.string ∧ ¬ "/".toList <:+ s.string

theorem key_eq_iff : (Uri.routeKey lower s).string = s.string ↔ Canonical lower s := by
  constructor
  · intro h
    have hlen : (Uri.routeKey lower s).string.length = (s.string.map lower.toLower).length := by
      rw [h, List.length_map]
    have hlower : s.string.map lower.toLower = s.string :=
      ((key_initial lower s).eq_of_length hlen).symm.trans h
    refine ⟨map_eq_self_iff.mp hlower, h ▸ query_notMem_key lower s, ?_⟩
    -- the key itself is between its string and the route
    have hkey : Uri.routeKey lower s = s.string := by
      have hup : Uri.routeKey lower s <+: s.string := hlower ▸ List.takeWhile_prefix _
      have hdown : s.string <+: Uri.routeKey lower s := h ▸ string_initial _
      exact hup.eq_of_length (Nat.le_antisymm hup.length_le hdown.length_le)
    obtain ⟨-, hslash⟩ | heq := string_cases (Uri.routeKey lower s)
    · rwa [hkey] at hslash
    · rw [h, hkey] at heq
      simpa using congrArg List.length heq
  · rintro ⟨hlower, hquery, hslash⟩
    have hkey : Uri.routeKey lower s = s.string := by
      rw [Uri.routeKey, Uri.toLower, map_eq_self_iff.mpr hlower, (cut_of_notMem hquery).1]
    rw [hkey]
    exact trimSuffix_of_not hslash

theorem star_mem_key (h : '*' ∈ s.string) (hquery : '?' ∉ s.string) :
    '*' ∈ (Uri.routeKey lower s).string := by
  have hquery : '?' ∉ s.string.map lower.toLower :=
    mt (lower.mem_map_iff (by decide) (by decide)).mp hquery
  rw [mem_string (by decide), Uri.routeKey, Uri.toLower, (cut_of_notMem hquery).1]
  exact (lower.mem_map_iff (by decide) (by decide)).mpr h

theorem dotted_key_iff : Dotted (Uri.routeKey lower s).string ↔ Dotted s.string := by
  have hstar : ∀ c, lower.toLower c = '*' ↔ c = '*' :=
    fun c => lower.toLower_eq_iff (by decide) (by decide)
  have hdot : ∀ c, lower.toLower c = '.' ↔ c = '.' :=
    fun c => lower.toLower_eq_iff (by decide) (by decide)
  constructor
  · intro h
    obtain ⟨rest, hrest⟩ := List.IsPrefix.trans h (key_initial lower s)
    obtain ⟨c, u, hc, hstar', hu⟩ := List.map_eq_cons_iff.mp hrest.symm
    obtain ⟨d, v, rfl, hdot', -⟩ := List.map_eq_cons_iff.mp hu
    rw [(hstar c).mp hstar', (hdot d).mp hdot'] at hc
    exact ⟨v, hc.symm⟩
  · rintro ⟨rest, hrest⟩
    have hkey : Uri.routeKey lower s = '*' :: '.' ::
        (rest.map lower.toLower).takeWhile (· ≠ '?') := by
      rw [Uri.routeKey, Uri.toLower, ← hrest]
      simp [(hstar '*').mpr rfl, (hdot '.').mpr rfl]
    obtain ⟨hsame, -⟩ | hcut := string_cases (Uri.routeKey lower s)
    · rw [hsame, hkey]
      exact ⟨_, rfl⟩
    · generalize (Uri.routeKey lower s).string = k at hcut
      rw [hkey] at hcut
      match k with
      | [] => simp at hcut
      | [c] => simp at hcut
      | c :: d :: t =>
        simp only [List.cons_append, List.cons.injEq] at hcut
        obtain ⟨rfl, rfl, -⟩ := hcut
        exact ⟨t, rfl⟩

end

/-- Lower-casing makes no `*`, so replacing that keeps what it changed. -/
theorem replace_map_lower (lower : Lower) {b : Str}
    (h : replace b '*' '_' = replace (b.map lower.toLower) '*' '_') :
    b = b.map lower.toLower := by
  simp only [replace, List.map_map, List.map_eq_map_iff, Function.comp_apply,
    lower.toLower_eq_iff (d := '*') (by decide) (by decide)] at h
  refine (map_eq_self_iff.mpr fun c hc => ?_).symm
  have hchar := h c hc
  split at hchar
  · next hstar =>
    subst hstar
    exact (lower.toLower_eq_iff (by decide) (by decide)).mpr rfl
  · exact hchar.symm

theorem names_eq_iff (lower : Lower) {s : Uri} (hdot : '.' ∈ s) :
    makeObjectName s.string = makeObjectName (Uri.routeKey lower s).string ↔
      Canonical lower s ∨ Collide s.string (Uri.routeKey lower s).string := by
  have hpre := key_initial lower s
  rw [← key_eq_iff]
  by_cases hstar : '*' ∈ s.string
  · have hno : ¬ Collide s.string (Uri.routeKey lower s).string := fun h => h.1 hstar
    rw [or_iff_left hno]
    refine ⟨fun h => ?_, fun h => by rw [h]⟩
    by_cases hd : Dotted s.string
    · obtain ⟨b, hb⟩ := id hd
      obtain ⟨k, hk⟩ := (dotted_key_iff lower s).mpr hd
      rw [← hb, ← hk, makeObjectName_dotted, makeObjectName_dotted, Option.some.injEq] at h
      rw [← hb, ← hk, List.append_cancel_left h]
    · have hdk : ¬ Dotted (Uri.routeKey lower s).string := mt (dotted_key_iff lower s).mp hd
      rw [makeObjectName_undotted hd hstar] at h
      by_cases hkstar : '*' ∈ (Uri.routeKey lower s).string
      · rw [makeObjectName_undotted hdk hkstar, Option.some.injEq] at h
        have hreplace := List.append_cancel_left h
        have hlen : (Uri.routeKey lower s).string.length = (s.string.map lower.toLower).length := by
          simpa [replace] using (congrArg List.length hreplace).symm
        have hkey := hpre.eq_of_length hlen
        rw [hkey] at hreplace ⊢
        exact (replace_map_lower lower hreplace).symm
      · -- the `*` stands behind a query, and so the name of the route has a `?`
        have hquery : '?' ∈ s.string := by
          by_contra hquery
          exact hkstar (star_mem_key lower s hstar hquery)
        rw [makeObjectName_plain hkstar] at h
        obtain ⟨i, -, hname⟩ := Option.map_eq_some_iff.mp h.symm
        have hmem : '?' ∈ "cf-".toList ++ replace s.string '*' '_' :=
          List.mem_append_right _ (List.mem_map.mpr ⟨'?', hquery, rfl⟩)
        rw [← hname] at hmem
        simp only [List.mem_append, List.mem_cons] at hmem
        rcases hmem with (hmem | hmem) | hmem | hmem
        · exact absurd hmem (by decide)
        · exact absurd (List.mem_of_mem_take hmem) (query_notMem_key lower s)
        · cases hmem
        · exact absurd rfl (of_mem_hexBytes hmem).2
  · have hkstar : '*' ∉ (Uri.routeKey lower s).string := fun h =>
      hstar ((lower.mem_map_iff (by decide) (by decide)).mp (hpre.subset h))
    have hiff := makeObjectName_plain_eq_iff hstar hkstar ((mem_string (by decide)).mpr hdot)
    refine ⟨fun h => .inr (hiff.mp h), ?_⟩
    rintro (h | h)
    · rw [h]
    · exact hiff.mpr h

-- ---------------------------------------------------------------------------
-- The updates for a route
-- ---------------------------------------------------------------------------

def F5Router.Makes (r : F5Router) (s : Uri) (ru : UpdateHTTP) : Prop :=
  (∃ planID, r.bindUpdate ⟨planID, some s⟩ = some (.ok ru)) ∨
    ∃ bindID, r.getRouteURIFromBindID bindID = s ∧ r.unbindUpdate bindID = some (.ok ru)

def RegistrySends (lower : Lower) (s : Uri) (u : UpdateHTTP) : Prop :=
  ∃ (r r' : RouteRegistry) (e : Endpoint) (sent : List Sent),
    ((∃ now, r.register lower now s e = some (r', sent)) ∨
      r.unregister lower s e = some (r', sent)) ∧
      ∃ x ∈ sent, x.update = u

structure NamedAlike (lower : Lower) (r : F5Router) (s : Uri) : Prop where
  added : ∃ u, RegistrySends lower s u ∧ u.op = .add
  same : ∀ ru u, r.Makes s ru → RegistrySends lower s u → ru.name = u.name

theorem updateIf_uri {r : RouteRegistry} (h : r.updateIf changed node op uri e = some sent)
    (hx : x ∈ sent) :
    x.update.uri = uri := by
  simp only [RouteRegistry.updateIf] at h
  split at h
  · obtain ⟨res, hnew, rfl⟩ := Option.map_eq_some_iff.mp h
    cases res with
    | error err => cases hx
    | ok update =>
      rw [List.mem_singleton.mp hx]
      exact (newUpdate_ok hnew).2.1
  · cases h
    cases hx

theorem RegistrySends.name (h : RegistrySends lower s u) :
    makeObjectName (Uri.routeKey lower s).string = some u.name := by
  obtain ⟨r, r', e, sent, hcall, x, hx, rfl⟩ := h
  have huri : x.update.uri = Uri.routeKey lower s := by
    rcases hcall with ⟨now, hreg⟩ | hunreg
    · obtain ⟨⟨pool, added⟩, -, hreg⟩ := Option.bind_eq_some_iff.mp hreg
      obtain ⟨sent', hsent, hreg⟩ := Option.bind_eq_some_iff.mp hreg
      rw [← (Prod.mk.inj (Option.some.inj hreg)).2] at hx
      exact updateIf_uri hsent hx
    · simp only [RouteRegistry.unregister] at hunreg
      split at hunreg
      · cases hunreg
        cases hx
      · obtain ⟨⟨pool, removed⟩, -, hunreg⟩ := Option.bind_eq_some_iff.mp hunreg
        obtain ⟨byURI, -, hunreg⟩ := Option.bind_eq_some_iff.mp hunreg
        obtain ⟨sent', hsent, hunreg⟩ := Option.bind_eq_some_iff.mp hunreg
        rw [← (Prod.mk.inj (Option.some.inj hunreg)).2] at hx
        exact updateIf_uri hsent hx
  rw [← huri]
  exact x.update.named

theorem F5Router.Makes.name {r : F5Router} (h : r.Makes s ru) :
    makeObjectName (Uri.string s) = some ru.name := by
  have huri : ru.uri = s := by
    obtain ⟨planID, h⟩ | ⟨bindID, hroute, h⟩ := h
    · simp only [F5Router.bindUpdate] at h
      split at h
      · cases h
      · cases h
      · next hsome =>
        cases hsome
        split at h
        · cases h
        · exact (newUpdate_ok h).2.1
    · simp only [F5Router.unbindUpdate, hroute] at h
      split at h
      · cases h
      · exact (newUpdate_ok h).2.1
  rw [← huri]
  exact ru.named

theorem makes_bind {r : F5Router} (hplan : r.verifyPlanExists planID = .ok ())
    (hname : makeObjectName (Uri.string s) = some name) : ∃ ru, r.Makes s ru := by
  obtain ⟨ru, hru, -⟩ := newUpdate_spec .bind none planID hname
  refine ⟨ru, .inl ⟨planID, ?_⟩⟩
  cases s with
  | nil => cases hru
  | cons c s => simpa [F5Router.bindUpdate, hplan] using hru

theorem registrySends_add (lower : Lower)
    (hname : makeObjectName (Uri.routeKey lower s).string = some name) :
    ∃ u, RegistrySends lower s u ∧ u.op = .add := by
  let e : Endpoint := ⟨0, [], [], 0, [], 0, ⟨[], 0⟩⟩
  obtain ⟨u, hu, hop, -⟩ := newUpdate_spec .add (some e) [] hname
  have hfind : (newRouteRegistry 0 true).byURI.find (Uri.routeKey lower s) = none := by
    rw [Trie.find_eq]
    rfl
  obtain ⟨pool, hput⟩ : ∃ pool, (Route.newPool (0 / 4) (parseContextPath s)).put 0 e =
    some (pool, true) :=
    ⟨_, rfl⟩
  have hregister : ∃ r', (newRouteRegistry 0 true).register lower 0 s e =
      some (r', [⟨segments (Uri.routeKey lower s), u⟩]) := by
    simp only [RouteRegistry.register, hfind]
    rw [show (newRouteRegistry 0 true).dropletStaleThreshold = 0 from rfl, hput]
    simp only [bind, Option.bind_some, RouteRegistry.updateIf, updateRouter, hu]
    exact ⟨_, rfl⟩
  obtain ⟨r', hr'⟩ := hregister
  exact ⟨u, ⟨_, r', e, _, .inl ⟨0, hr'⟩, _, List.mem_singleton_self _, rfl⟩, hop⟩

theorem verifyPlanExists_ok {r : F5Router} (hne : planID ≠ []) (h : planID ∈ r.plansMap) :
    r.verifyPlanExists planID = .ok () := by
  rw [F5Router.verifyPlanExists, if_neg hne, if_pos h]

end BigipCtlr
