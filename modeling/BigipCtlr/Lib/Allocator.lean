import Mathlib.Data.List.Nodup
import Mathlib.Data.Set.Insert
import Mathlib.Logic.Function.Basic
import Mathlib.Logic.Relation

/-!
# An allocator with a cursor and a free list

Names own addresses. An address is taken from the free list, or from a cursor
that walks along a fixed sequence of positions past the addresses marked as
used; one that is released goes to the free list. The marks need not be
complete: what matters is that an owned or free address without a mark lies
where the cursor does not come any more.
-/

namespace BigipCtlr.Lib

section
variable {P A N : Type}

def Ahead (addr : P → A) (next : P → Option P) (p : P) (a : A) : Prop :=
  ∃ q, Relation.ReflTransGen (fun p q => next p = some q) p q ∧ addr q = a

structure Allocator (P A N : Type) where
  position : P
  used : Set A
  free : List A
  owner : N → Option A

variable {addr : P → A} {next : P → Option P}

theorem Ahead.of_reaches (h : Relation.ReflTransGen (fun p q => next p = some q) p q)
    (ha : Ahead addr next q a) : Ahead addr next p a := by
  obtain ⟨s, hs, rfl⟩ := ha
  exact ⟨s, h.trans hs, rfl⟩

/-- The cursor goes from one position to another, and leaves none whose address
is not used. -/
abbrev Walks (addr : P → A) (next : P → Option P) (used : Set A) : P → P → Prop :=
  Relation.ReflTransGen fun p q => next p = some q ∧ addr p ∈ used

namespace Walks

theorem reaches (h : Walks addr next used p q) :
    Relation.ReflTransGen (fun p q => next p = some q) p q :=
  Relation.ReflTransGen.mono (fun _ _ hstep => hstep.1) _ _ h

theorem mono (h : Walks addr next used p q) (hsub : used ⊆ used') : Walks addr next used' p q :=
  Relation.ReflTransGen.mono (fun _ _ hstep => ⟨hstep.1, hsub hstep.2⟩) _ _ h

/-- A walk that ends where the cursor cannot go on has used up all that was
ahead of it. -/
theorem exhausts (h : Walks addr next used p q) (hend : next q = none) (hq : addr q ∈ used)
    (hr : Relation.ReflTransGen (fun p q => next p = some q) p r) : addr r ∈ used := by
  induction h using Relation.ReflTransGen.head_induction_on with
  | refl =>
    obtain rfl | ⟨s, hs, -⟩ := hr.cases_head
    · exact hq
    · rw [hend] at hs
      cases hs
  | head hstep _ ih =>
    obtain rfl | ⟨s, hs, hsr⟩ := hr.cases_head
    · exact hstep.2
    · rw [hstep.1, Option.some.injEq] at hs
      exact ih (hs ▸ hsr)

end Walks

/-- Only finitely many positions lie before the end of a cursor's way. -/
theorem exists_positions (h : Relation.ReflTransGen (fun p q => next p = some q) p q)
    (hend : next q = none) :
    ∃ ps : List P, ∀ r, Relation.ReflTransGen (fun p q => next p = some q) p r → r ∈ ps := by
  induction h using Relation.ReflTransGen.head_induction_on with
  | refl =>
    refine ⟨[q], fun r hr => ?_⟩
    obtain rfl | ⟨s, hs, -⟩ := hr.cases_head
    · exact List.mem_singleton_self _
    · rw [hend] at hs
      cases hs
  | @head p s hstep _ ih =>
    obtain ⟨ps, hps⟩ := ih
    refine ⟨p :: ps, fun r hr => ?_⟩
    obtain rfl | ⟨s', hs, hsr⟩ := hr.cases_head
    · exact List.mem_cons_self
    · rw [hstep, Option.some.injEq] at hs
      exact List.mem_cons_of_mem _ (hps r (hs ▸ hsr))

/-- No address has two claims on it, now or in any continuation. -/
structure Allocator.Sound (addr : P → A) (next : P → Option P) (s : Allocator P A N) : Prop where
  owner_injective : ∀ m n a, s.owner m = some a → s.owner n = some a → m = n
  free_nodup : s.free.Nodup
  owner_not_free : ∀ n a, s.owner n = some a → a ∉ s.free
  owner_marked : ∀ n a, s.owner n = some a → a ∈ s.used ∨ ¬ Ahead addr next s.position a
  free_marked : ∀ a ∈ s.free, a ∈ s.used ∨ ¬ Ahead addr next s.position a

/-- What can happen to an allocator between two synchronisations. -/
inductive Allocator.Step [DecidableEq N] (addr : P → A) (next : P → Option P)
    (s : Allocator P A N) :
    Allocator P A N → Prop
  | idle : Step addr next s s
  /-- A search that found nothing. -/
  | move (hq : Relation.ReflTransGen (fun p q => next p = some q) s.position q) :
    Step addr next s { s with position := q }
  /-- An address from the cursor, which has come to `q`. -/
  | fresh (n : N) (hq : Relation.ReflTransGen (fun p q => next p = some q) s.position q)
    (hu : addr q ∉ s.used) (hn : s.owner n = none) :
    Step addr next s
      { s with
        position := q
        used := insert (addr q) s.used
        owner := Function.update s.owner n (some (addr q)) }
  /-- An address from the free list. -/
  | reuse (n : N) (hp : s.free.Perm (a :: rest)) (hn : s.owner n = none) :
    Step addr next s { s with free := rest, owner := Function.update s.owner n (some a) }
  | release (hn : s.owner n = some a) :
    Step addr next s { s with free := s.free ++ [a], owner := Function.update s.owner n none }

def Allocator.Tight (s : Allocator P A N) : Prop :=
  ∀ a ∈ s.used, (∃ n, s.owner n = some a) ∨ a ∈ s.free

theorem Allocator.Tight.step [DecidableEq N] {s t : Allocator P A N} (h : s.Tight)
    (hst : s.Step addr next t) :
    t.Tight := by
  have hkept : ∀ {n m x}, s.owner n = none → ∀ a, s.owner m = some a →
      Function.update s.owner n x m = some a := by
    intro n m x hn a hm
    rw [Function.update_of_ne, hm]
    rintro rfl
    rw [hn] at hm
    cases hm
  cases hst with
  | idle => exact h
  | move => exact h
  | fresh n hq hu hn =>
    rintro a (rfl | ha)
    · exact .inl ⟨n, Function.update_self ..⟩
    · exact (h a ha).imp_left fun ⟨m, hm⟩ => ⟨m, hkept hn a hm⟩
  | @reuse b rest n hp hn =>
    intro a ha
    obtain ⟨m, hm⟩ | hfree := h a ha
    · exact .inl ⟨m, hkept hn a hm⟩
    · obtain rfl | hrest := List.mem_cons.mp (hp.mem_iff.mp hfree)
      · exact .inl ⟨n, Function.update_self ..⟩
      · exact .inr hrest
  | @release n b hn =>
    intro a ha
    obtain ⟨m, hm⟩ | hfree := h a ha
    · by_cases hmn : m = n
      · rw [hmn, hn] at hm
        cases hm
        exact .inr (by simp)
      · exact .inl ⟨m, (Function.update_of_ne hmn ..).trans hm⟩
    · exact .inr (List.mem_append_left _ hfree)

structure Allocator.All (good : A → Prop) (addr : P → A) (next : P → Option P)
    (s : Allocator P A N) : Prop where
  used : ∀ a ∈ s.used, good a
  free : ∀ a ∈ s.free, good a
  owner : ∀ n a, s.owner n = some a → good a
  ahead : ∀ a, Ahead addr next s.position a → good a

theorem Allocator.All.step [DecidableEq N] {s t : Allocator P A N} (h : s.All good addr next)
    (hst : s.Step addr next t) : t.All good addr next := by
  have hupdate : ∀ n x, (∀ a, x = some a → good a) →
      ∀ m a, Function.update s.owner n x m = some a → good a := by
    intro n x hx m a hm
    by_cases hmn : m = n
    · rw [hmn, Function.update_self] at hm
      exact hx a hm
    · rw [Function.update_of_ne hmn] at hm
      exact h.owner m a hm
  cases hst with
  | idle => exact h
  | move hq => exact ⟨h.used, h.free, h.owner, fun a ha => h.ahead a (ha.of_reaches hq)⟩
  | @fresh q n hq hu hn =>
    have hgood : good (addr q) := h.ahead _ ⟨q, hq, rfl⟩
    refine ⟨?_, h.free, hupdate n _ ?_, fun a ha => h.ahead a (ha.of_reaches hq)⟩
    · rintro a (rfl | ha)
      · exact hgood
      · exact h.used a ha
    · rintro _ ⟨⟩
      exact hgood
  | @reuse b rest n hp hn =>
    have hfree : ∀ a ∈ b :: rest, good a := fun a ha => h.free a (hp.mem_iff.mpr ha)
    refine ⟨h.used, fun a ha => hfree a (List.mem_cons_of_mem _ ha), hupdate n _ ?_, h.ahead⟩
    rintro _ ⟨⟩
    exact hfree b List.mem_cons_self
  | @release n b hn =>
    refine ⟨h.used, fun a ha => ?_, hupdate n none (by simp), h.ahead⟩
    rcases List.mem_append.mp ha with ha | ha
    · exact h.free a ha
    · rw [List.mem_singleton.mp ha]
      exact h.owner n b hn

namespace Allocator.Sound

variable {s : Allocator P A N}

theorem of_empty (hfree : s.free = [])
    (hinj : ∀ m n a, s.owner m = some a → s.owner n = some a → m = n)
    (hmarked : ∀ n a, s.owner n = some a → a ∈ s.used) : s.Sound addr next := by
  refine ⟨hinj, ?_, ?_, fun n a hn => .inl (hmarked n a hn), ?_⟩
  · rw [hfree]
    exact List.nodup_nil
  · rw [hfree]
    exact fun n a _ => List.not_mem_nil
  · rw [hfree]
    exact fun a ha => absurd ha List.not_mem_nil

/-- The cursor comes to no address that is owned and not marked. -/
theorem fresh_not_owned (h : s.Sound addr next)
    (hq : Relation.ReflTransGen (fun p q => next p = some q) s.position q) (hu : addr q ∉ s.used)
    (n : N) : s.owner n ≠ some (addr q) := by
  intro hn
  exact (h.owner_marked n _ hn).elim hu fun hf => hf ⟨q, hq, rfl⟩

theorem move (h : s.Sound addr next)
    (hq : Relation.ReflTransGen (fun p q => next p = some q) s.position q) :
    Sound addr next { s with position := q } where
  owner_injective := h.owner_injective
  free_nodup := h.free_nodup
  owner_not_free := h.owner_not_free
  owner_marked n a hn := (h.owner_marked n a hn).imp_right fun hf ha => hf (ha.of_reaches hq)
  free_marked a ha := (h.free_marked a ha).imp_right fun hf hb => hf (hb.of_reaches hq)

variable [DecidableEq N]

theorem give (h : s.Sound addr next) (hfree : a ∉ s.free) (hown : ∀ m, s.owner m ≠ some a)
    (hmark : a ∈ s.used ∨ ¬ Ahead addr next s.position a) :
    Sound addr next { s with owner := Function.update s.owner n (some a) } := by
  have hcases : ∀ m b, Function.update s.owner n (some a) m = some b →
      (m = n ∧ b = a) ∨ (m ≠ n ∧ s.owner m = some b) := by
    intro m b hm
    by_cases hmn : m = n
    · subst hmn
      rw [Function.update_self, Option.some.injEq] at hm
      exact .inl ⟨rfl, hm.symm⟩
    · rw [Function.update_of_ne hmn] at hm
      exact .inr ⟨hmn, hm⟩
  refine ⟨?_, h.free_nodup, ?_, ?_, h.free_marked⟩
  · intro m k b hm hk
    obtain ⟨rfl, hb⟩ | ⟨-, hm'⟩ := hcases m b hm <;> obtain ⟨rfl, hb'⟩ | ⟨-, hk'⟩ := hcases k b hk
    · rfl
    · exact absurd (hb ▸ hk') (hown k)
    · exact absurd (hb' ▸ hm') (hown m)
    · exact h.owner_injective m k b hm' hk'
  · intro m b hm
    obtain ⟨-, rfl⟩ | ⟨-, hm⟩ := hcases m b hm
    · exact hfree
    · exact h.owner_not_free m b hm
  · intro m b hm
    obtain ⟨-, rfl⟩ | ⟨-, hm⟩ := hcases m b hm
    · exact hmark
    · exact h.owner_marked m b hm

theorem fresh (h : s.Sound addr next)
    (hq : Relation.ReflTransGen (fun p q => next p = some q) s.position q) (hu : addr q ∉ s.used) :
    Sound addr next
      { s with
        position := q
        used := insert (addr q) s.used
        owner := Function.update s.owner n (some (addr q)) } := by
  have hmoved := h.move hq
  have hmarked : Sound addr next { s with position := q, used := insert (addr q) s.used } := by
    refine ⟨hmoved.owner_injective, hmoved.free_nodup, hmoved.owner_not_free, ?_, ?_⟩
    · exact fun m a hm => (hmoved.owner_marked m a hm).imp_left (Set.mem_insert_of_mem _)
    · exact fun a ha => (hmoved.free_marked a ha).imp_left (Set.mem_insert_of_mem _)
  refine hmarked.give ?_ (h.fresh_not_owned hq hu) (.inl (Set.mem_insert _ _))
  intro hf
  exact (h.free_marked _ hf).elim hu fun hn => hn ⟨q, hq, rfl⟩

theorem reuse (h : s.Sound addr next) (hp : s.free.Perm (a :: rest)) :
    Sound addr next { s with free := rest, owner := Function.update s.owner n (some a) } := by
  have hnd : (a :: rest).Nodup := hp.nodup_iff.mp h.free_nodup
  have hin : a ∈ s.free := hp.mem_iff.mpr List.mem_cons_self
  have hsub : ∀ b ∈ rest, b ∈ s.free := fun b hb => hp.mem_iff.mpr (List.mem_cons_of_mem _ hb)
  have hshort : Sound addr next { s with free := rest } := by
    refine ⟨h.owner_injective, hnd.of_cons, ?_, h.owner_marked, ?_⟩
    · exact fun m b hm hb => h.owner_not_free m b hm (hsub b hb)
    · exact fun b hb => h.free_marked b (hsub b hb)
  refine hshort.give (List.nodup_cons.mp hnd).1 ?_ (h.free_marked a hin)
  exact fun m hm => h.owner_not_free m a hm hin

theorem release (h : s.Sound addr next) (hn : s.owner n = some a) :
    Sound addr next { s with free := s.free ++ [a], owner := Function.update s.owner n none } := by
  have hcases : ∀ m b, Function.update s.owner n none m = some b → m ≠ n ∧ s.owner m = some b := by
    intro m b hm
    by_cases hmn : m = n
    · rw [hmn, Function.update_self] at hm
      cases hm
    · exact ⟨hmn, by rwa [Function.update_of_ne hmn] at hm⟩
  refine ⟨?_, ?_, ?_, ?_, ?_⟩
  · exact fun m k b hm hk => h.owner_injective m k b (hcases m b hm).2 (hcases k b hk).2
  · exact List.nodup_append'.mpr ⟨h.free_nodup, List.nodup_singleton _,
      List.disjoint_singleton.mpr (h.owner_not_free n a hn)⟩
  · intro m b hm hb
    obtain ⟨hne, hm⟩ := hcases m b hm
    rcases List.mem_append.mp hb with hb | hb
    · exact h.owner_not_free m b hm hb
    · rw [List.mem_singleton.mp hb] at hm
      exact hne (h.owner_injective m n a hm hn)
  · exact fun m b hm => h.owner_marked m b (hcases m b hm).2
  · intro b hb
    rcases List.mem_append.mp hb with hb | hb
    · exact h.free_marked b hb
    · rw [List.mem_singleton.mp hb]
      exact h.owner_marked n a hn

theorem step {t : Allocator P A N} (h : s.Sound addr next) (hst : s.Step addr next t) :
    t.Sound addr next := by
  cases hst with
  | idle => exact h
  | move hq => exact h.move hq
  | fresh n hq hu => exact h.fresh hq hu
  | reuse n hp => exact h.reuse hp
  | release hn => exact h.release hn

omit [DecidableEq N] in
/-- Keep only some owners, mark only the addresses still owned, and
free what loses its mark. It is sound on an empty free list when the cursor
has passed all of that. -/
theorem sync (h : s.Sound addr next) (marks : Set A) (kept : N → Option A) (drop : List A)
    (hempty : s.free = []) (howner : ∀ n a, kept n = some a → s.owner n = some a)
    (hused : ∀ a, a ∈ marks ↔ ∃ n, kept n = some a)
    (hdrop : ∀ a, a ∈ drop ↔ a ∈ s.used ∧ a ∉ marks) (hnodup : drop.Nodup)
    (hpassed : ∀ a ∈ drop, ¬ Ahead addr next s.position a) :
    Sound addr next { s with used := marks, free := s.free ++ drop, owner := kept } := by
  simp only [hempty, List.nil_append]
  refine ⟨?_, hnodup, ?_, ?_, ?_⟩
  · exact fun m k a hm hk => h.owner_injective m k a (howner m a hm) (howner k a hk)
  · exact fun n a hn ha => ((hdrop a).mp ha).2 ((hused a).mpr ⟨n, hn⟩)
  · exact fun n a hn => .inl ((hused a).mpr ⟨n, hn⟩)
  · exact fun a ha => .inr (hpassed a ha)

end Allocator.Sound

end

end BigipCtlr.Lib
