import Mathlib.Data.List.Basic

/-!
# Go strings

A Go string is the text that its bytes encode, as a list of characters. The
functions are those of the packages `strings`, `strconv` and `fmt` that the
controller calls, at ASCII separators where it uses only those. What reads a
string byte by byte encodes it first.
-/

namespace BigipCtlr.Go

abbrev Str := List Char

def hasPrefix (s p : Str) : Bool := p.isPrefixOf s

def hasSuffix (s p : Str) : Bool := p.isSuffixOf s

def trimPrefix (s p : Str) : Str := if hasPrefix s p then s.drop p.length else s

def trimSuffix (s p : Str) : Str := if hasSuffix s p then s.take (s.length - p.length) else s

/-- `strings.Split` at an ASCII separator. -/
def split (s : Str) (sep : Char) : List Str := s.splitOn sep

/-- `strings.SplitN` with a limit of two pieces. -/
def splitN2 (s : Str) (sep : Char) : List Str :=
  match s.dropWhile (· ≠ sep) with
  | [] => [s]
  | _ :: after => [s.takeWhile (· ≠ sep), after]

/-- `strings.Index` of an ASCII character; `none` is the answer -1. The index
counts characters. -/
def index (s : Str) (c : Char) : Option Nat := s.idxOf? c

def replace (s : Str) (old new : Char) : Str := s.map fun c => if c = old then new else c

/-- `strconv.Itoa`, which is also what `%d` prints. -/
def itoa : Int → Str
  | .ofNat n => Nat.toDigits 10 n
  | .negSucc n => '-' :: Nat.toDigits 10 (n + 1)

def hexBytes (bs : List UInt8) : Str :=
  bs.flatMap fun b => [Nat.digitChar (b.toNat / 16), Nat.digitChar (b.toNat % 16)]

/-- A property of the characters of a literal, checked one by one. `Char` is a
finite type, so that `decide` on the quantifier would run over all of it. -/
theorem forall_mem_of_all {P : Char → Prop} [DecidablePred P] {s : Str} (h : s.all (P ·) = true) :
    ∀ c ∈ s, P c := by
  simpa using h

-- ---------------------------------------------------------------------------
-- Splitting
-- ---------------------------------------------------------------------------

theorem split_append_cons (a b : Str) (sep : Char) :
    split (a ++ sep :: b) sep = split a sep ++ split b sep :=
  List.splitOnP_append_cons a b (by simp)

theorem split_of_notMem (h : sep ∉ s) : split s sep = [s] := by
  refine List.splitOnP_eq_singleton fun c hc => ?_
  have hne : c ≠ sep := fun he => h (he ▸ hc)
  simpa using hne

theorem split_cons_of_notMem (ha : sep ∉ a) (b : Str) :
    split (a ++ sep :: b) sep = a :: split b sep := by
  rw [split_append_cons, split_of_notMem ha, List.singleton_append]

theorem split_length (s : Str) (sep : Char) : (split s sep).length = s.count sep + 1 := by
  induction hn : s.length using Nat.strongRecOn generalizing s with
  | ind n ih =>
    by_cases hmem : sep ∈ s
    · obtain ⟨a, b, rfl⟩ := List.append_of_mem hmem
      simp only [List.length_append, List.length_cons] at hn
      rw [split_append_cons, List.length_append, ih a.length (by omega) a rfl,
        ih b.length (by omega) b rfl, List.count_append, List.count_cons_self]
      omega
    · rw [split_of_notMem hmem, List.count_eq_zero_of_not_mem hmem]
      rfl

theorem notMem_of_mem_split {s : Str} (h : x ∈ split s sep) : sep ∉ x := by
  induction hn : s.length using Nat.strongRecOn generalizing s with
  | ind n ih =>
    by_cases hmem : sep ∈ s
    · obtain ⟨a, b, rfl, ha⟩ := List.eq_append_cons_of_mem hmem
      rw [split_cons_of_notMem ha] at h
      simp only [List.length_append, List.length_cons] at hn
      rcases List.mem_cons.mp h with rfl | h
      · exact ha
      · exact ih b.length (by omega) h rfl
    · rw [split_of_notMem hmem, List.mem_singleton] at h
      exact h ▸ hmem

theorem split_eq_pair : split (a ++ sep :: b) sep = [x, y] ↔ sep ∉ a ∧ sep ∉ b ∧ x = a ∧ y = b := by
  constructor
  · intro h
    have hlen := congrArg List.length h
    rw [split_length, List.count_append, List.count_cons_self] at hlen
    simp only [List.length_cons, List.length_nil] at hlen
    have ha : sep ∉ a := List.count_eq_zero.mp (by omega)
    have hb : sep ∉ b := List.count_eq_zero.mp (by omega)
    rw [split_append_cons, split_of_notMem ha, split_of_notMem hb] at h
    cases h
    exact ⟨ha, hb, rfl, rfl⟩
  · rintro ⟨ha, hb, rfl, rfl⟩
    rw [split_append_cons, split_of_notMem ha, split_of_notMem hb]
    rfl

-- ---------------------------------------------------------------------------
-- Prefixes and suffixes
-- ---------------------------------------------------------------------------

theorem hasPrefix_iff : hasPrefix s p = true ↔ p <+: s := by
  simp [hasPrefix]

theorem hasSuffix_iff : hasSuffix s p = true ↔ p <:+ s := by
  simp [hasSuffix]

@[simp] theorem trimPrefix_append (p t : Str) : trimPrefix (p ++ t) p = t := by
  simp [trimPrefix, hasPrefix]

theorem trimPrefix_of_not (h : ¬ p <+: s) : trimPrefix s p = s := by
  simp [trimPrefix, hasPrefix_iff, h]

theorem trimSuffix_of_not (h : ¬ p <:+ s) : trimSuffix s p = s := by
  simp [trimSuffix, hasSuffix_iff, h]

@[simp] theorem trimSuffix_append (t p : Str) : trimSuffix (t ++ p) p = t := by
  simp [trimSuffix, hasSuffix]

theorem trimPrefix_isSuffix (s p : Str) : trimPrefix s p <:+ s := by
  rw [trimPrefix]
  split
  · exact List.drop_suffix _ _
  · exact List.suffix_rfl

theorem trimSuffix_isPrefix (s p : Str) : trimSuffix s p <+: s := by
  rw [trimSuffix]
  split
  · exact List.take_prefix _ _
  · exact List.prefix_rfl

-- ---------------------------------------------------------------------------
-- Cutting at a character
-- ---------------------------------------------------------------------------

theorem takeWhile_append_stop {p : Char → Bool} {s r : Str} (hs : ∀ c ∈ s, p c = true)
    (hr : ∀ c ∈ r.head?, p c = false) :
    (s ++ r).takeWhile p = s ∧ (s ++ r).dropWhile p = r := by
  induction s with
  | nil =>
    cases r with
    | nil => simp
    | cons c r => simp [hr c rfl]
  | cons c s ih =>
    have hc := hs c List.mem_cons_self
    have := ih fun x hx => hs x (List.mem_cons_of_mem _ hx)
    simp [hc, this]

theorem cut_of_notMem {d : Char} {s : Str} (h : d ∉ s) :
    s.takeWhile (· ≠ d) = s ∧ s.dropWhile (· ≠ d) = [] := by
  have := takeWhile_append_stop (p := (· ≠ d)) (s := s) (r := [])
    (fun c hc => decide_eq_true fun (he : c = d) => h (he ▸ hc)) (by simp)
  simpa using this

theorem cut_append {d : Char} {s : Str} (h : d ∉ s) (r : Str) :
    (s ++ d :: r).takeWhile (· ≠ d) = s ∧ (s ++ d :: r).dropWhile (· ≠ d) = d :: r :=
  takeWhile_append_stop (fun c hc => decide_eq_true fun (he : c = d) => h (he ▸ hc)) (by simp)

theorem splitN2_of_notMem {d : Char} {s : Str} (h : d ∉ s) : splitN2 s d = [s] := by
  rw [splitN2, (cut_of_notMem h).2]

theorem splitN2_append {d : Char} {s : Str} (h : d ∉ s) (r : Str) :
    splitN2 (s ++ d :: r) d = [s, r] := by
  rw [splitN2, (cut_append h r).1, (cut_append h r).2]

-- ---------------------------------------------------------------------------
-- Decimal numbers
-- ---------------------------------------------------------------------------

def isDecimal (c : Char) : Bool := c.isDigit || c == '-'

theorem isDecimal_of_mem_itoa (h : c ∈ itoa i) : isDecimal c = true := by
  cases i with
  | ofNat n =>
    have := Nat.isDigit_of_mem_toDigits (by omega) (by omega) h
    simp [isDecimal, this]
  | negSucc n =>
    simp only [itoa, List.mem_cons] at h
    rcases h with rfl | h
    · rfl
    · have := Nat.isDigit_of_mem_toDigits (by omega) (by omega) h
      simp [isDecimal, this]

theorem toDigits_injective (h : Nat.toDigits 10 m = Nat.toDigits 10 n) : m = n := by
  rw [← Nat.ofDigitChars_ten_toDigits (n := m), h, Nat.ofDigitChars_ten_toDigits]

theorem minus_notMem_toDigits : '-' ∉ Nat.toDigits 10 n := by
  intro h
  have := Nat.isDigit_of_mem_toDigits (by omega) (by omega) h
  simp at this

theorem itoa_injective (h : itoa i = itoa j) : i = j := by
  cases i with
  | ofNat m =>
    cases j with
    | ofNat n => rw [toDigits_injective h]
    | negSucc n =>
      refine absurd ?_ (minus_notMem_toDigits (n := m))
      rw [show Nat.toDigits 10 m = _ from h]
      exact List.mem_cons_self
  | negSucc m =>
    cases j with
    | ofNat n =>
      refine absurd ?_ (minus_notMem_toDigits (n := n))
      rw [← show _ = Nat.toDigits 10 n from h]
      exact List.mem_cons_self
    | negSucc n =>
      have hd : Nat.toDigits 10 (m + 1) = Nat.toDigits 10 (n + 1) := (List.cons.inj h).2
      rw [Nat.succ.inj (toDigits_injective hd)]

/-- Two texts that agree split alike at the first character outside a class. -/
theorem append_cons_inj_of_class {p : Char → Bool} {x y : Str} (hx : ∀ e ∈ x, p e = true)
    (hy : ∀ e ∈ y, p e = true) (ha : p a = false) (hb : p b = false)
    (h : x ++ a :: u = y ++ b :: v) : x = y ∧ a = b ∧ u = v := by
  induction x generalizing y with
  | nil =>
    cases y with
    | nil => simpa using h
    | cons e y =>
      obtain ⟨rfl, -⟩ := List.cons.inj h
      simp [hy a List.mem_cons_self] at ha
  | cons e x ih =>
    cases y with
    | nil =>
      obtain ⟨rfl, -⟩ := List.cons.inj h
      simp [hx e List.mem_cons_self] at hb
    | cons e' y =>
      rw [List.cons_append, List.cons_append, List.cons.injEq] at h
      obtain ⟨rfl, htail⟩ := h
      obtain ⟨rfl, rfl, rfl⟩ := ih (fun z hz => hx z (List.mem_cons_of_mem _ hz))
        (fun z hz => hy z (List.mem_cons_of_mem _ hz)) htail
      exact ⟨rfl, rfl, rfl⟩

theorem append_cons_inj_of_notMem {s t : Str} (hx : c ∉ x) (hy : c ∉ y)
    (h : s ++ c :: x = t ++ c :: y) :
    s = t ∧ x = y := by
  have hr := congrArg List.reverse h
  simp only [List.reverse_append, List.reverse_cons, List.append_assoc, List.singleton_append] at hr
  obtain ⟨hxy, -, hst⟩ := append_cons_inj_of_class (p := (· ≠ c))
    (fun e he => decide_eq_true fun heq => hx (heq ▸ List.mem_reverse.mp he))
    (fun e he => decide_eq_true fun heq => hy (heq ▸ List.mem_reverse.mp he)) (by simp) (by simp) hr
  exact ⟨List.reverse_injective hst, List.reverse_injective hxy⟩

/-- A text followed by a separator and a number reads back: the separator is
the last character that no number contains. -/
theorem append_sep_itoa_inj (hc : isDecimal c = false) (hd : isDecimal d = false)
    (h : s ++ c :: itoa i = t ++ d :: itoa j) : s = t ∧ c = d ∧ i = j := by
  have hr := congrArg List.reverse h
  simp only [List.reverse_append, List.reverse_cons, List.append_assoc, List.singleton_append] at hr
  obtain ⟨hi, rfl, hs⟩ := append_cons_inj_of_class
    (fun e he => isDecimal_of_mem_itoa (List.mem_reverse.mp he))
    (fun e he => isDecimal_of_mem_itoa (List.mem_reverse.mp he)) hc hd hr
  exact ⟨List.reverse_injective hs, rfl, itoa_injective (List.reverse_injective hi)⟩

end BigipCtlr.Go
