import BigipCtlr.Go.Net
import BigipCtlr.Go.Utf8

/-!
# Go's package `net/url`

`urlParse` follows `url.Parse`: fragment, scheme, query, authority and path,
with the package's rules on which bytes may stand where. It works on the bytes
of its argument. Of the parsed URL only the host and the two forms of the path
are kept, the host as a text. `urlParse_plain` says what it makes of
`scheme://host/path` with characters that need no escapes.
-/

namespace BigipCtlr.Go

inductive Encoding
  | path
  | host
  | zone
  | userPassword
  | fragment
  deriving DecidableEq, Repr

structure Url where
  host : Str
  path : Str
  rawPath : Str
  deriving DecidableEq, Repr

def isAlnum (c : Char) : Bool :=
  ('A' ≤ c && c ≤ 'Z') || ('a' ≤ c && c ≤ 'z') || ('0' ≤ c && c ≤ '9')

/-- Section 2.3 of RFC 3986. -/
def isUnreserved (c : Char) : Bool := isAlnum c || "-_.~".toList.contains c

def shouldEscape (mode : Encoding) (c : Char) : Bool :=
  if isAlnum c then false
  else if (mode = .host ∨ mode = .zone) ∧ "!$&'()*+,;=:[]<>\"".toList.contains c then false
  else if "-_.~".toList.contains c then false
  else if "$&+,/:;=?@".toList.contains c then
    match mode with
    | .path => c = '?'
    | .userPassword => c = '@' || c = '/' || c = '?' || c = ':'
    | .fragment => false
    | .host | .zone => true
  else true

def escapeAllowed (mode : Encoding) (x y : Nat) : Bool :=
  match mode with
  | .host => 8 ≤ x || (x = 2 && y = 5)
  | .zone =>
    (x = 2 && y = 5) || (x = 2 && y = 0) || !shouldEscape .host (Char.ofNat (16 * x + y))
  | _ => true

def unescape (mode : Encoding) : Str → Option Str
  | [] => some []
  | '%' :: x :: y :: rest =>
    match hexVal x, hexVal y with
    | some x, some y =>
      if escapeAllowed mode x y then (unescape mode rest).map (Char.ofNat (16 * x + y) :: ·)
      else none
    | _, _ => none
  | c :: rest =>
    if c = '%' then none
    else if (mode = .host ∨ mode = .zone) ∧ c.toNat < 0x80 ∧ shouldEscape mode c then none
    else (unescape mode rest).map (c :: ·)

def upperHex (n : Nat) : Char := "0123456789ABCDEF".toList.getD n '0'

def escape (mode : Encoding) (s : Str) : Str :=
  s.flatMap fun c =>
    if shouldEscape mode c then ['%', upperHex (c.toNat / 16), upperHex (c.toNat % 16)] else [c]

def validEncodedPath (s : Str) : Bool :=
  s.all fun c => "!$&'()*+,;=:@[]%".toList.contains c || !shouldEscape .path c

def Url.escapedPath (u : Url) : Str :=
  if u.rawPath ≠ [] ∧ validEncodedPath u.rawPath = true ∧
    unescape .path u.rawPath = some u.path then
    u.rawPath
  else if u.path = "*".toList then "*".toList
  else escape .path u.path

def isLetter (c : Char) : Bool := ('a' ≤ c && c ≤ 'z') || ('A' ≤ c && c ≤ 'Z')

def isSchemeByte (c : Char) : Bool :=
  isLetter c || ('0' ≤ c && c ≤ '9') || c = '+' || c = '-' || c = '.'

def getScheme (s : Str) : Option (Str × Str) :=
  let scheme := s.takeWhile isSchemeByte
  match s.dropWhile isSchemeByte with
  | ':' :: rest =>
    if scheme = [] then none
    else if scheme.head?.any isLetter then some (scheme, rest)
    else some ([], s)
  | _ => some ([], s)

def validOptionalPort (port : Str) : Bool :=
  match port with
  | [] => true
  | c :: ds => c = ':' && ds.all Char.isDigit

def isInfixAt (p : Str) : Str → Option Nat
  | [] => if p = [] then some 0 else none
  | c :: s => if hasPrefix (c :: s) p then some 0 else (isInfixAt p s).map (· + 1)

def parseHost (host : Str) : Option Str :=
  if hasPrefix host "[".toList then
    match host.reverse.idxOf? ']' with
    | none => none
    | some back =>
      let i := host.length - 1 - back
      if !validOptionalPort (host.drop (i + 1)) then none
      else match isInfixAt "%25".toList (host.take i) with
        | some zone => do
          let host1 ← unescape .host (host.take zone)
          let host2 ← unescape .zone ((host.take i).drop zone)
          let host3 ← unescape .host (host.drop i)
          some (host1 ++ host2 ++ host3)
        | none => unescape .host host
  else unescape .host host

def parseUserinfo (userinfo : Str) : Option Unit :=
  match splitN2 userinfo ':' with
  | [username, password] => do
    let _ ← unescape .userPassword username
    let _ ← unescape .userPassword password
    some ()
  | _ => (unescape .userPassword userinfo).map fun _ => ()

/-- `parseAuthority`, of which the host is kept. -/
def parseAuthority (authority : Str) : Option Str :=
  match authority.reverse.idxOf? '@' with
  | none => parseHost authority
  | some back => do
    let i := authority.length - 1 - back
    let host ← parseHost (authority.drop (i + 1))
    let _ ← parseUserinfo (authority.take i)
    some host

def parsePath (host rest : Str) : Option Url :=
  (unescape .path rest).map fun path =>
    let u : Url := ⟨host, path, []⟩
    if u.escapedPath ≠ rest ∧ validEncodedPath rest = true then ⟨host, path, rest⟩ else u

def parseUrl (s : Str) : Option Url :=
  if s = "*".toList then some ⟨[], "*".toList, []⟩
  else match getScheme s with
    | none => none
    | some (scheme, rest) =>
      let rest := rest.takeWhile (· ≠ '?')
      if hasPrefix rest "/".toList = false ∧ scheme ≠ [] then some ⟨[], [], []⟩
      else if (scheme ≠ [] ∨ hasPrefix rest "///".toList = false) ∧
        hasPrefix rest "//".toList = true then
        let authority := (rest.drop 2).takeWhile (· ≠ '/')
        (parseAuthority authority).bind fun host =>
          parsePath host ((rest.drop 2).dropWhile (· ≠ '/'))
      else parsePath [] rest

def parseBytes (s : Str) : Option Url :=
  match splitN2 s '#' with
  | [u, frag] => (parseUrl u).bind fun url => (unescape .fragment frag).map fun _ => url
  | _ => parseUrl s

def urlParse (s : Str) : Option Url :=
  (parseBytes (utf8Encode s)).map fun u => { u with host := utf8Decode u.host }

-- ---------------------------------------------------------------------------
-- Plain URLs
-- ---------------------------------------------------------------------------

theorem unescape_plain {mode : Encoding}
    (h : ∀ c ∈ s, c ≠ '%' ∧
      ((mode = .host ∨ mode = .zone) → c.toNat < 0x80 → shouldEscape mode c = false)) :
    unescape mode s = some s := by
  induction s with
  | nil => simp [unescape]
  | cons c s ih =>
    obtain ⟨hc, hm⟩ := h c List.mem_cons_self
    have hs := ih fun x hx => h x (List.mem_cons_of_mem _ hx)
    rw [unescape, if_neg hc, if_neg, hs]
    · rfl
    · rintro ⟨h1, hlt, h2⟩
      rw [hm h1 hlt] at h2
      cases h2
    · rintro x y rest rfl
      exact absurd rfl hc

theorem escape_plain {mode : Encoding} (h : ∀ c ∈ s, shouldEscape mode c = false) :
    escape mode s = s := by
  induction s with
  | nil => rfl
  | cons c s ih =>
    have hs := ih fun x hx => h x (List.mem_cons_of_mem _ hx)
    simp only [escape, List.flatMap_cons, h c List.mem_cons_self] at hs ⊢
    simp [hs]

theorem shouldEscape_unreserved {mode : Encoding} (h : isUnreserved c = true) :
    shouldEscape mode c = false := by
  simp only [isUnreserved, Bool.or_eq_true] at h
  simp only [shouldEscape]
  rcases h with h | h
  · simp [h]
  · simp only [h, ↓reduceIte, ite_self]

theorem isUnreserved_ne (h : isUnreserved c = true) (hd : isUnreserved d = false) : c ≠ d := by
  rintro rfl
  rw [h] at hd
  cases hd

/-- A byte that stands for itself in a host, and a character whose bytes do. -/
def isHostByte (c : Char) : Bool := 0x80 ≤ c.toNat || !shouldEscape .host c

theorem isHostByte_ne (h : isHostByte c = true) (hd : isHostByte d = false) : c ≠ d := by
  rintro rfl
  rw [h] at hd
  cases hd

theorem isHostByte_unreserved (h : isUnreserved c = true) : isHostByte c = true := by
  simp [isHostByte, shouldEscape_unreserved h]

theorem shouldEscape_hostByte (h : isHostByte c = true) (hlt : c.toNat < 0x80) :
    shouldEscape .host c = false := by
  simp only [isHostByte, Bool.or_eq_true, decide_eq_true_eq, Bool.not_eq_true'] at h
  exact h.resolve_left (Nat.not_le_of_lt hlt)

theorem isHostByte_utf8Encode (h : ∀ c ∈ s, isHostByte c = true) :
    ∀ b ∈ utf8Encode s, isHostByte b = true := by
  induction s with
  | nil => exact fun b hb => absurd hb List.not_mem_nil
  | cons c s ih =>
    intro b hb
    rw [utf8Encode_cons, List.mem_append] at hb
    rcases hb with hb | hb
    · by_cases hc : c.toNat < 0x80
      · rw [encodeChar_ascii hc, List.mem_singleton] at hb
        exact hb ▸ h c List.mem_cons_self
      · simp [isHostByte, encodeChar_other (Nat.le_of_not_lt hc) hb]
    · exact ih (fun x hx => h x (List.mem_cons_of_mem _ hx)) b hb

theorem parseHost_plain (hbracket : ¬ "[".toList <+: host) (h : ∀ c ∈ host, isHostByte c = true) :
    parseHost host = some host := by
  rw [parseHost, if_neg (mt hasPrefix_iff.mp hbracket)]
  exact unescape_plain fun x hx =>
    ⟨isHostByte_ne (h x hx) (by decide), fun _ => shouldEscape_hostByte (h x hx)⟩

theorem escapedPath_plain (h : ∀ c ∈ rest, isUnreserved c = true ∨ c = '/') :
    Url.escapedPath ⟨host, rest, []⟩ = rest := by
  have hesc : ∀ c ∈ rest, shouldEscape .path c = false := fun c hc => by
    rcases h c hc with h | rfl
    · exact shouldEscape_unreserved h
    · decide
  have hstar : rest ≠ "*".toList := by
    rintro rfl
    exact absurd (h '*' (by simp)) (by decide)
  simp only [Url.escapedPath, ne_eq, not_true_eq_false, false_and, ↓reduceIte, if_neg hstar,
    escape_plain hesc]

theorem parsePath_plain (h : ∀ c ∈ rest, isUnreserved c = true ∨ c = '/') :
    parsePath host rest = some ⟨host, rest, []⟩ := by
  have hun : unescape .path rest = some rest := unescape_plain fun c hc => by
    refine ⟨?_, by simp⟩
    rcases h c hc with h | rfl
    · exact isUnreserved_ne h (by decide)
    · decide
  simp only [parsePath, hun, Option.map_some, escapedPath_plain h, ne_eq, not_true_eq_false,
    false_and, ↓reduceIte]

theorem parseBytes_plain (hbracket : ¬ "[".toList <+: host) (hh : ∀ c ∈ host, isHostByte c = true)
    (hp : ∀ c ∈ path, isUnreserved c = true ∨ c = '/') (hs : path = [] ∨ ∃ t, path = '/' :: t) :
    parseBytes ("scheme://".toList ++ host ++ path) = some ⟨host, path, []⟩ := by
  have hclean : ∀ d, d ∉ "scheme://".toList → isHostByte d = false →
      isUnreserved d = false → d ≠ '/' → d ∉ "scheme://".toList ++ host ++ path := by
    intro d h1 h2 h3 h4 hm
    rcases List.mem_append.mp hm with hm | hm
    · rcases List.mem_append.mp hm with hm | hm
      · exact h1 hm
      · exact isHostByte_ne (hh d hm) h2 rfl
    · rcases hp d hm with h | h
      · exact isUnreserved_ne h h3 rfl
      · exact h4 h
  have hfrag := splitN2_of_notMem (hclean '#' (by decide) (by decide) (by decide) (by decide))
  have hscheme : getScheme ("scheme://".toList ++ host ++ path) =
      some ("scheme".toList, "//".toList ++ host ++ path) := by
    obtain ⟨ht, hd⟩ := takeWhile_append_stop (p := isSchemeByte) (s := "scheme".toList)
      (r := ':' :: ("//".toList ++ host ++ path)) (forall_mem_of_all (by decide))
        (by rintro c ⟨⟩; decide)
    rw [show "scheme://".toList ++ host ++ path =
      "scheme".toList ++ ':' :: ("//".toList ++ host ++ path) by simp, getScheme]
    simp only [ht, hd]
    rw [if_neg (by decide), if_pos (by decide)]
  have hquery : ("//".toList ++ host ++ path).takeWhile (· ≠ '?') =
      "//".toList ++ host ++ path := by
    refine (cut_of_notMem fun hm => ?_).1
    apply hclean '?' (by decide) (by decide) (by decide) (by decide)
    rw [show "scheme://".toList = "scheme:".toList ++ "//".toList by decide, List.append_assoc,
      List.append_assoc]
    rw [List.append_assoc] at hm
    exact List.mem_append_right _ hm
  have hslash : ∀ c ∈ host, (c ≠ '/') := fun c hc => isHostByte_ne (hh c hc) (by decide)
  have hauth : (host ++ path).takeWhile (· ≠ '/') = host ∧
      (host ++ path).dropWhile (· ≠ '/') = path := by
    apply takeWhile_append_stop
    · simpa using hslash
    · rcases hs with rfl | ⟨t, rfl⟩ <;> simp
  rw [parseBytes, hfrag]
  simp only [parseUrl, hscheme, hquery]
  rw [if_neg, if_neg (by simp [hasPrefix]), if_pos (by simp [hasPrefix])]
  · have hd : ("//".toList ++ host ++ path).drop 2 = host ++ path := by simp
    simp only [hd, hauth]
    have hat : host.reverse.idxOf? '@' = none := by
      rw [List.idxOf?_eq_none_iff]
      intro hm
      exact isHostByte_ne (hh _ (List.mem_reverse.mp hm)) (by decide) rfl
    rw [parseAuthority, hat]
    simp only [parseHost_plain hbracket hh, Option.bind_some, parsePath_plain hp]
  · intro h
    have := congrArg List.length h
    simp at this

theorem isUnreserved_ascii (h : isUnreserved c = true) : c.toNat < 0x80 := by
  simp only [isUnreserved, isAlnum, Bool.or_eq_true, Bool.and_eq_true, decide_eq_true_eq,
    List.contains_iff_mem] at h
  rcases h with ((⟨-, h⟩ | ⟨-, h⟩) | ⟨-, h⟩) | h
  · exact Nat.lt_of_le_of_lt h (by decide)
  · exact Nat.lt_of_le_of_lt h (by decide)
  · exact Nat.lt_of_le_of_lt h (by decide)
  · exact forall_mem_of_all (P := fun c => c.toNat < 0x80) (by decide) c h

theorem urlParse_plain (hbracket : ¬ "[".toList <+: host) (hh : ∀ c ∈ host, isHostByte c = true)
    (hp : ∀ c ∈ path, isUnreserved c = true ∨ c = '/') (hs : path = [] ∨ ∃ t, path = '/' :: t) :
    urlParse ("scheme://".toList ++ host ++ path) = some ⟨host, path, []⟩ := by
  have hpath : utf8Encode path = path := utf8Encode_ascii fun c hc => by
    rcases hp c hc with h | rfl
    · exact isUnreserved_ascii h
    · decide
  have hscheme : utf8Encode "scheme://".toList = "scheme://".toList := by decide
  have hfirst : ¬ "[".toList <+: utf8Encode host :=
    fun h => hbracket (ascii_initial_of_utf8Encode (by decide) h)
  rw [urlParse, utf8Encode_append, utf8Encode_append, hscheme, hpath,
    parseBytes_plain hfirst (isHostByte_utf8Encode hh) hp hs, Option.map_some,
    utf8Decode_utf8Encode]

end BigipCtlr.Go
