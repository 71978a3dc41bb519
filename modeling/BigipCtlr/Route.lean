import BigipCtlr.Go.Strings

/-!
# Routes and endpoints

`route.Uri` with the spellings its methods derive, and the data of an
endpoint. `strings.ToLower` maps each character with the tables of Unicode,
which are not reproduced: what lower-cases takes the mapping as an argument.
-/

namespace BigipCtlr

open Go

/-- `unicode.ToLower`: ASCII letters as usual; the lower case of any other
character is not ASCII or a letter. -/
structure Lower where
  toLower : Char → Char
  ascii : ∀ c, c.toNat < 128 → toLower c = c.toLower
  other : ∀ c, 128 ≤ c.toNat → (toLower c).isAlpha = true ∨ 128 ≤ (toLower c).toNat
  idempotent : ∀ c, toLower (toLower c) = toLower c

theorem ascii_toLower {c : Char} (h : c.toNat < 128) :
    c.toLower.toNat < 128 ∧ c.toLower.toLower = c.toLower := by
  have hall : ∀ n < 128,
      (Char.ofNat n).toLower.toNat < 128 ∧ (Char.ofNat n).toLower.toLower =
        (Char.ofNat n).toLower := by
    decide
  simpa using hall c.toNat h

def Lower.asciiOnly : Lower where
  toLower c := if c.toNat < 128 then c.toLower else c
  ascii c h := if_pos h
  other c h := by
    rw [if_neg (by omega)]
    exact .inr h
  idempotent c := by
    by_cases h : c.toNat < 128
    · simp only [if_pos h, if_pos (ascii_toLower h).1, (ascii_toLower h).2]
    · simp only [if_neg h]

/-- No character becomes an ASCII one other than a letter, which stays. -/
theorem Lower.toLower_eq_iff (lower : Lower) (hd : d.toNat < 128) (ha : d.isAlpha = false) :
    lower.toLower c = d ↔ c = d := by
  have hall : ∀ n < 128, (Char.ofNat n).toLower = Char.ofNat n ∨
      (Char.ofNat n).isAlpha = true ∧ (Char.ofNat n).toLower.isAlpha = true := by
    decide
  by_cases hc : c.toNat < 128
  · rw [lower.ascii c hc]
    rcases (by
      simpa using hall c.toNat hc : c.toLower = c ∨
        c.isAlpha = true ∧ c.toLower.isAlpha = true) with
      heq | ⟨hc, hlow⟩
    · rw [heq]
    · exact iff_of_false (fun h => by simp [h, ha] at hlow) (fun h => by simp [h, ha] at hc)
  · have hne : c ≠ d := fun h => hc (h ▸ hd)
    refine iff_of_false (fun h => ?_) hne
    rcases lower.other c (by omega) with hother | hother
    · rw [h, ha] at hother
      cases hother
    · rw [h] at hother
      omega

theorem Lower.mem_map_iff (lower : Lower) (hd : d.toNat < 128) (ha : d.isAlpha = false) {s : Str} :
    d ∈ s.map lower.toLower ↔ d ∈ s := by
  simp [lower.toLower_eq_iff hd ha]

abbrev Uri := Str

def Uri.string (u : Uri) : Str := trimSuffix u "/".toList

def Uri.nextWildcard (u : Uri) : Option Uri :=
  let uri := trimPrefix u.string "*.".toList
  (index uri '.').map fun i => "*.".toList ++ uri.drop (i + 1)

def Uri.toLower (lower : Lower) (u : Uri) : Uri := u.string.map lower.toLower

/-- `u.RouteKey()`: lower-cased, without a query. -/
def Uri.routeKey (lower : Lower) (u : Uri) : Uri := (u.toLower lower).takeWhile (· ≠ '?')

structure ModificationTag where
  guid : Str
  index : UInt32
  deriving DecidableEq, Repr

def ModificationTag.succeededBy (m other : ModificationTag) : Bool :=
  if m.guid = [] ∨ other.guid = [] then true
  else m.guid ≠ other.guid || m.index < other.index

/-- An endpoint as a pointer to its data: `ptr` tells two endpoints with
equal data apart, as Go's `!=` on pointers does. Durations are in nanoseconds. -/
structure Endpoint where
  ptr : Nat
  applicationId : Str
  address : Str
  port : UInt16
  privateInstanceId : Str := []
  staleThreshold : Int64 := 0
  modificationTag : ModificationTag := ⟨[], 0⟩
  deriving DecidableEq, Repr

/-- `NewEndpoint`. The seconds are multiplied as machine integers. -/
def newEndpoint (ptr : Nat) (appId host : Str) (port : UInt16) (privateInstanceId : Str)
    (staleThresholdInSeconds : Int64) (modificationTag : ModificationTag) : Endpoint where
  ptr := ptr
  applicationId := appId
  address := host
  port := port
  privateInstanceId := privateInstanceId
  staleThreshold := staleThresholdInSeconds * 1000000000
  modificationTag := modificationTag

def Endpoint.modificationTagSameOrNewer (e other : Endpoint) : Bool :=
  e.modificationTag = other.modificationTag || e.modificationTag.succeededBy other.modificationTag

def Endpoint.canonicalAddr (e : Endpoint) : Str := e.address ++ ':' :: itoa e.port.toNat

end BigipCtlr
