import Mathlib.Data.List.AList

/-!
# Go maps

A map is a list of entries with distinct keys. Go leaves the order of a
`range` loop open, so a loop over a map takes the order it happens to use as
an argument: any rearrangement of the entries.
-/

namespace BigipCtlr.Go

abbrev GoMap (K V : Type) := AList fun _ : K => V

/-- One outcome of Go's choice of an iteration order. -/
structure Order where
  visit : {α : Type} → List α → List α
  perm : ∀ {α : Type} (l : List α), (visit l).Perm l

def Order.stored : Order := ⟨id, fun _ => .refl _⟩

namespace GoMap

def pairs (m : GoMap K V) : List (K × V) := m.entries.map fun e => (e.1, e.2)

def range (o : Order) (m : GoMap K V) : List (K × V) := o.visit m.pairs

def size (m : GoMap K V) : Nat := m.entries.length

def filterKeys (keep : K → Bool) (m : GoMap K V) : GoMap K V :=
  ⟨m.entries.filter fun e => keep e.1, m.nodupKeys.sublist List.filter_sublist⟩

theorem pairs_keys (m : GoMap K V) : m.pairs.map Prod.fst = m.keys := by
  simp only [pairs, AList.keys, List.keys, List.map_map]
  rfl

theorem pairs_keys_nodup (m : GoMap K V) : (m.pairs.map Prod.fst).Nodup := by
  rw [pairs_keys]
  exact m.keys_nodup

theorem range_keys_nodup (o : Order) (m : GoMap K V) : ((m.range o).map Prod.fst).Nodup :=
  ((o.perm _).map Prod.fst).nodup_iff.mpr m.pairs_keys_nodup

theorem length_range (o : Order) (m : GoMap K V) : (m.range o).length = m.size := by
  rw [range, (o.perm _).length_eq, pairs, List.length_map, size]

section
variable [DecidableEq K]

theorem mem_pairs {m : GoMap K V} : (k, v) ∈ m.pairs ↔ m.lookup k = some v := by
  rw [← Option.mem_def, AList.mem_lookup_iff]
  simp only [pairs, List.mem_map, Prod.mk.injEq]
  constructor
  · rintro ⟨⟨k', v'⟩, h, rfl, rfl⟩
    exact h
  · intro h
    exact ⟨_, h, rfl, rfl⟩

theorem mem_range {m : GoMap K V} : (k, v) ∈ m.range o ↔ m.lookup k = some v := by
  rw [range, (o.perm _).mem_iff, mem_pairs]

theorem mem_range_values {m : GoMap K V} :
    v ∈ (m.range o).map Prod.snd ↔ ∃ k, m.lookup k = some v := by
  simp only [List.mem_map, Prod.exists, exists_eq_right, mem_range]

theorem lookup_insert_ite (m : GoMap K V) (k k' : K) (v : V) :
    (m.insert k v).lookup k' = if k' = k then some v else m.lookup k' := by
  split
  · next h => rw [h, AList.lookup_insert]
  · next h => rw [AList.lookup_insert_ne h]

theorem lookup_erase_ite (m : GoMap K V) (k k' : K) :
    (m.erase k).lookup k' = if k' = k then none else m.lookup k' := by
  split
  · next h => rw [h, AList.lookup_erase]
  · next h => rw [AList.lookup_erase_ne h]

theorem lookup_filterKeys (keep : K → Bool) (m : GoMap K V) (k : K) :
    (m.filterKeys keep).lookup k = if keep k then m.lookup k else none := by
  refine Option.ext fun v => ?_
  rw [← Option.mem_def, AList.mem_lookup_iff, filterKeys, List.mem_filter, ← AList.mem_lookup_iff]
  cases keep k <;> simp

theorem mem_iff {m : GoMap K V} : k ∈ m ↔ ∃ v, m.lookup k = some v := by
  rw [← AList.lookup_isSome, Option.isSome_iff_exists]

theorem lookup_foldl_insert_of_ne {l : List α} (key : α → K) (val : α → V) (m : GoMap K V)
    (h : ∀ a ∈ l, key a ≠ k) : (l.foldl (fun m a => m.insert (key a) (val a)) m).lookup k =
      m.lookup k := by
  induction l generalizing m with
  | nil => rfl
  | cons a l ih =>
    rw [List.foldl_cons, ih _ fun b hb => h b (List.mem_cons_of_mem _ hb), lookup_insert_ite,
      if_neg (h a List.mem_cons_self).symm]

theorem lookup_foldl_insert_of_mem {l : List α} (key : α → K) (val : α → V) (m : GoMap K V)
    (h : ∃ a ∈ l, key a = k) :
    ∃ b ∈ l, key b = k ∧ (l.foldl (fun m a => m.insert (key a) (val a)) m).lookup k =
      some (val b) := by
  induction l generalizing m with
  | nil => simp at h
  | cons c l ih =>
    by_cases hl : ∃ b ∈ l, key b = k
    · obtain ⟨b, hb, hkey, hlook⟩ := ih (m.insert (key c) (val c)) hl
      exact ⟨b, List.mem_cons_of_mem _ hb, hkey, hlook⟩
    · have hc : key c = k := by
        obtain ⟨a, ha, hkey⟩ := h
        rcases List.mem_cons.mp ha with rfl | ha
        · exact hkey
        · exact absurd ⟨a, ha, hkey⟩ hl
      refine ⟨c, List.mem_cons_self, hc, ?_⟩
      rw [List.foldl_cons, lookup_foldl_insert_of_ne key val _ fun a ha hkey => hl ⟨a, ha, hkey⟩,
        hc, AList.lookup_insert]

theorem size_eq_zero {m : GoMap K V} : m.size = 0 ↔ ∀ k, m.lookup k = none := by
  constructor
  · intro h k
    have he : m.entries = [] := List.length_eq_zero_iff.mp h
    cases hk : m.lookup k with
    | none => rfl
    | some v =>
      have hp := mem_pairs.mpr hk
      simp [pairs, he] at hp
  · intro h
    cases he : m.pairs with
    | nil => simpa [pairs, size] using he
    | cons p ps =>
      have hp : (p.1, p.2) ∈ m.pairs := by simp [he]
      rw [mem_pairs, h] at hp
      cases hp

end

end GoMap

end BigipCtlr.Go
