import BigipCtlr.F5Router.UpdateLaws

/-!
# The names of wildcard routes

A leading `*.` is cut off, any other `*` becomes an underscore. Both kinds of
names stand in one name space, and two wildcard URIs share a name exactly
when an underscore of one stands where the `*` of the other does.
-/

namespace BigipCtlr

open Go

/-- A URI whose `*` is the whole of its first label. -/
def Dotted (uri : Str) : Prop := "*.".toList <+: uri

instance : DecidablePred Dotted := fun uri => inferInstanceAs (Decidable ("*.".toList <+: uri))

@[simp] theorem makeObjectName_dotted (rest : Str) :
    makeObjectName ("*.".toList ++ rest) = some ("cf-".toList ++ rest) := by
  rw [makeObjectName, if_pos (hasPrefix_iff.mpr (List.prefix_append _ _)), trimPrefix_append]

theorem makeObjectName_undotted (hd : ¬ Dotted uri) (hm : '*' ∈ uri) :
    makeObjectName uri = some ("cf-".toList ++ replace uri '*' '_') := by
  rw [makeObjectName, if_neg (mt hasPrefix_iff.mp hd), if_pos hm]

theorem replace_of_notMem (h : old ∉ s) : replace s old new = s := by
  have hid : s.map (fun c => if c = old then new else c) = s.map id := by
    refine List.map_congr_left fun c hc => if_neg ?_
    rintro rfl
    exact h hc
  rw [replace, hid, List.map_id]

theorem replace_once {s t : Str} (hs : old ∉ s) (ht : old ∉ t) :
    replace (s ++ old :: t) old new = s ++ new :: t := by
  have hsplit : replace (s ++ old :: t) old new = replace s old new ++ new ::
      replace t old new := by
    simp [replace]
  rw [hsplit, replace_of_notMem hs, replace_of_notMem ht]

theorem split_once {s : Str} (h : s.count c = 1) : ∃ a b, s = a ++ c :: b ∧ c ∉ a ∧ c ∉ b := by
  obtain ⟨a, b, rfl⟩ := List.append_of_mem (List.count_pos_iff.mp (by omega : 0 < s.count c))
  rw [List.count_append, List.count_cons_self] at h
  exact ⟨a, b, rfl, List.count_eq_zero.mp (by omega), List.count_eq_zero.mp (by omega)⟩

inductive Clash : Str → Str → Prop
  /-- One is cut, the other has an underscore for its `*`. -/
  | cut (x y : Str) : ¬ Dotted (x ++ '*' :: y) →
    Clash ("*.".toList ++ (x ++ '_' :: y)) (x ++ '*' :: y)
  /-- A `*` and an underscore have changed places. -/
  | swap (x y z : Str) : ¬ Dotted (x ++ '*' :: (y ++ '_' :: z)) →
    ¬ Dotted (x ++ '_' :: (y ++ '*' :: z)) →
    Clash (x ++ '*' :: (y ++ '_' :: z)) (x ++ '_' :: (y ++ '*' :: z))

theorem notMem_append_cons {x y : Str} (hne : d ≠ c) (h : (x ++ d :: y).count c = 0) :
    c ∉ x ∧ c ∉ y := by
  rw [List.count_append, List.count_cons_of_ne hne] at h
  exact ⟨List.count_eq_zero.mp (by omega), List.count_eq_zero.mp (by omega)⟩

theorem Clash.names_eq (h : Clash s t) (hs : s.count '*' = 1) (ht : t.count '*' = 1) :
    makeObjectName s = makeObjectName t := by
  cases h with
  | cut x y hd =>
    rw [List.count_append, List.count_cons_self] at ht
    rw [makeObjectName_dotted, makeObjectName_undotted hd (by simp),
      replace_once (List.count_eq_zero.mp (by omega)) (List.count_eq_zero.mp (by omega))]
  | swap x y z hd hd' =>
    rw [List.count_append, List.count_cons_self] at hs
    have hx : '*' ∉ x := List.count_eq_zero.mp (by omega)
    obtain ⟨hy, hz⟩ := notMem_append_cons (by decide) (by omega : (y ++ '_' :: z).count '*' = 0)
    have hyz : '*' ∉ y ++ '_' :: z := by simp [hy, hz]
    have hxy : '*' ∉ x ++ '_' :: y := by simp [hx, hy]
    have hassoc : x ++ '_' :: (y ++ '*' :: z) = (x ++ '_' :: y) ++ '*' :: z := by simp
    rw [makeObjectName_undotted hd (by simp), makeObjectName_undotted hd' (by simp),
      replace_once hx hyz, hassoc, replace_once hxy hz]
    simp

theorem swapped_of_replace_eq (hs : s.count '*' = 1) (ht : t.count '*' = 1)
    (h : replace s '*' '_' = replace t '*' '_') :
    s = t ∨ (∃ x y z, s = x ++ '*' :: (y ++ '_' :: z) ∧ t = x ++ '_' :: (y ++ '*' :: z)) ∨
      ∃ x y z, t = x ++ '*' :: (y ++ '_' :: z) ∧ s = x ++ '_' :: (y ++ '*' :: z) := by
  obtain ⟨a, b, rfl, ha, hb⟩ := split_once hs
  obtain ⟨c, d, rfl, hc, hd⟩ := split_once ht
  rw [replace_once ha hb, replace_once hc hd, List.append_eq_append_iff] at h
  rcases h with ⟨e, rfl, he⟩ | ⟨e, rfl, he⟩
  · cases e with
    | nil =>
      obtain rfl := (List.cons.inj he).2
      exact .inl (by simp)
    | cons u e =>
      obtain ⟨rfl, rfl⟩ := List.cons.inj he
      exact .inr (.inl ⟨a, e, d, rfl, by simp⟩)
  · cases e with
    | nil =>
      obtain rfl := (List.cons.inj he).2
      exact .inl (by simp)
    | cons u e =>
      obtain ⟨rfl, rfl⟩ := List.cons.inj he
      exact .inr (.inr ⟨c, e, b, rfl, by simp⟩)

theorem clash_of_cut (ht : t.count '*' = 1) (hd : ¬ Dotted t) (h : rest = replace t '*' '_') :
    Clash ("*.".toList ++ rest) t := by
  obtain ⟨x, y, rfl, hx, hy⟩ := split_once ht
  rw [h, replace_once hx hy]
  exact .cut x y hd

/-- Different wildcard URIs have different object names exactly when they do
not clash. -/
theorem wildcard_names_ne_iff {s t : Str} (hs : s.count '*' = 1)
    (ht : t.count '*' = 1) (hne : s ≠ t) :
    makeObjectName s ≠ makeObjectName t ↔ ¬ Clash s t ∧ ¬ Clash t s := by
  refine ⟨fun h => ⟨fun hc => h (hc.names_eq hs ht), fun hc => h (hc.names_eq ht hs).symm⟩, ?_⟩
  rintro ⟨hst, hts⟩ heq
  have hms : '*' ∈ s := List.count_pos_iff.mp (by omega)
  have hmt : '*' ∈ t := List.count_pos_iff.mp (by omega)
  by_cases hds : Dotted s
  · obtain ⟨rest, rfl⟩ := hds
    by_cases hdt : Dotted t
    · obtain ⟨rest', rfl⟩ := hdt
      simp only [makeObjectName_dotted, Option.some.injEq, List.append_cancel_left_eq] at heq
      exact hne (congrArg _ heq)
    · rw [makeObjectName_dotted, makeObjectName_undotted hdt hmt, Option.some.injEq,
        List.append_cancel_left_eq] at heq
      exact hst (clash_of_cut ht hdt heq)
  · by_cases hdt : Dotted t
    · obtain ⟨rest, rfl⟩ := hdt
      rw [makeObjectName_dotted, makeObjectName_undotted hds hms, Option.some.injEq,
        List.append_cancel_left_eq] at heq
      exact hts (clash_of_cut hs hds heq.symm)
    · rw [makeObjectName_undotted hds hms, makeObjectName_undotted hdt hmt, Option.some.injEq,
        List.append_cancel_left_eq] at heq
      rcases swapped_of_replace_eq hs ht heq with h | ⟨x, y, z, rfl, rfl⟩ | ⟨x, y, z, rfl, rfl⟩
      · exact hne h
      · exact hst (.swap x y z hds hdt)
      · exact hts (.swap x y z hdt hds)

theorem wildcard_names_ne_iff_sample :
    "*._.b".toList.count '*' = 1 ∧ "*.b".toList.count '*' = 1 ∧ "*._.b".toList ≠ "*.b".toList ∧
      makeObjectName "*._.b".toList ≠ makeObjectName "*.b".toList ∧
      ¬ Clash "*._.b".toList "*.b".toList ∧ ¬ Clash "*.b".toList "*._.b".toList := by
  have hnames : makeObjectName "*._.b".toList ≠ makeObjectName "*.b".toList := by decide
  exact ⟨by decide, by decide, by decide, hnames,
    (wildcard_names_ne_iff (by decide) (by decide) (by decide)).mp hnames⟩

/-- Two wildcard URIs with one name: the `*.` of the first is cut, the `*` of
the second becomes the underscore. -/
theorem wildcard_names_meet :
    "*._x".toList.count '*' = 1 ∧ "*x".toList.count '*' = 1 ∧ "*._x".toList ≠ "*x".toList ∧
      makeObjectName "*._x".toList = some "cf-_x".toList ∧
      makeObjectName "*x".toList = some "cf-_x".toList := by
  decide

end BigipCtlr
