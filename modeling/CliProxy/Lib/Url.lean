import CliProxy.Lib.Percent
import CliProxy.Lib.Text

/-! # URLs

The parser and the serializer of the WHATWG URL standard for `http` and `https`, state by state.
Host names and the URLs of other schemes are left to a `Platform`. -/

namespace CliProxy.Lib

/-! ## Encode sets -/

def c0ControlSet (c : Char) : Bool := c.toNat ≤ 0x1f || 0x7e < c.toNat

def fragmentSet (c : Char) : Bool := c0ControlSet c || [' ', '"', '<', '>', '`'].contains c

def querySet (c : Char) : Bool := c0ControlSet c || [' ', '"', '#', '<', '>'].contains c

def specialQuerySet (c : Char) : Bool := querySet c || c = '\''

def pathSet (c : Char) : Bool := querySet c || ['?', '^', '`', '{', '}'].contains c

def userinfoSet (c : Char) : Bool :=
  pathSet c || ['/', ':', ';', '=', '@', '[', '\\', ']', '|'].contains c

/-! ## Records -/

structure HttpUrl where
  scheme : List Char
  username : List Char
  password : List Char
  /-- Serialized. -/
  host : List Char
  port : Option Nat
  path : List (List Char)
  query : Option (List Char)
  fragment : Option (List Char)
  deriving DecidableEq, Repr

/-- What the getters of a URL of another scheme return. -/
structure OtherUrl where
  protocol : List Char
  username : List Char
  password : List Char
  hostname : List Char
  port : List Char
  pathname : List Char
  search : List Char
  hash : List Char
  href : List Char
  deriving DecidableEq, Repr

inductive Url where
  | http (u : HttpUrl)
  | other (u : OtherUrl)
  deriving DecidableEq, Repr

def httpScheme : List Char := ['h', 't', 't', 'p']

def httpsScheme : List Char := ['h', 't', 't', 'p', 's']

/-- Whether the text ends inside brackets; none if a colon stands outside of them. -/
def brackets : Bool → List Char → Option Bool
  | inside, [] => some inside
  | inside, c :: text =>
    if c = ':' && !inside then none
    else brackets (if c = '[' then true else if c = ']' then false else inside) text

/-- The characters of a serialized host. -/
def isHostChar (c : Char) : Bool :=
  0x20 < c.toNat && c.toNat < 0x7f && !c.isUpper && !(['/', '\\', '?', '#', '@'].contains c)

/-- The host parser, followed by the serializer, and the parser for the other schemes. -/
structure Platform where
  host : List Char → Option (List Char)
  other : List Char → Option Url → Option OtherUrl
  host_host : ∀ {h s}, host h = some s → host s = some s
  host_ne_nil : ∀ {h s}, host h = some s → s ≠ []
  host_chars : ∀ {h s}, host h = some s → ∀ c ∈ s, isHostChar c = true
  host_brackets : ∀ {h s}, host h = some s → brackets false s = some false
  other_protocol : ∀ {text base u}, other text base = some u →
    u.protocol ≠ httpScheme ++ [':'] ∧ u.protocol ≠ httpsScheme ++ [':']

/-- Letters in lower case, digits, hyphens and dots. -/
def isDomainChar (c : Char) : Bool := c.isLower || c.isDigit || c = '-' || c = '.'

theorem isDomainChar_bounds {c : Char} (h : isDomainChar c = true) :
    (97 ≤ c.toNat ∧ c.toNat ≤ 122) ∨ (48 ≤ c.toNat ∧ c.toNat ≤ 57) ∨ c.toNat = 45 ∨
      c.toNat = 46 := by
  simp only [isDomainChar, isLower_iff, Char.isDigit, Bool.or_eq_true, Bool.and_eq_true,
    decide_eq_true_eq, ge_iff_le, UInt32.le_iff_toNat_le] at h
  rcases h with ((h | h) | rfl) | rfl
  · exact .inl h
  · exact .inr (.inl h)
  · exact .inr (.inr (.inl rfl))
  · exact .inr (.inr (.inr rfl))

theorem isUpper_eq_false {c : Char} (h : isDomainChar c = true) : c.isUpper = false := by
  have := isDomainChar_bounds h
  rw [Bool.eq_false_iff]
  intro hupper
  have := isUpper_iff.mp hupper
  omega

theorem toLower_of_isUpper {c : Char} (h : c.isUpper = false) : c.toLower = c := by
  exact dif_neg (of_decide_eq_false h)

theorem toLower_eq_self {c : Char} (h : isDomainChar c = true) : c.toLower = c :=
  toLower_of_isUpper (isUpper_eq_false h)

theorem isHostChar_of_isDomainChar {c : Char} (h : isDomainChar c = true) :
    isHostChar c = true := by
  have hne : ∀ d, isDomainChar d = false → c ≠ d := by
    rintro d hd rfl
    exact Bool.false_ne_true (hd.symm.trans h)
  have := isDomainChar_bounds h
  simp [isHostChar, isUpper_eq_false h, hne '/' rfl, hne '\\' rfl, hne '?' rfl, hne '#' rfl,
    hne '@' rfl]
  omega

theorem brackets_of_isDomainChar {text : List Char} (h : ∀ c ∈ text, isDomainChar c = true) :
    brackets false text = some false := by
  induction text with
  | nil => rfl
  | cons c text ih =>
    rw [List.forall_mem_cons] at h
    have hne : ∀ d, isDomainChar d = false → c ≠ d := by
      rintro d hd rfl
      exact Bool.false_ne_true (hd.symm.trans h.1)
    simp [brackets, hne ':' rfl, hne '[' rfl, hne ']' rfl, ih h.2]

/-- A platform whose hosts are plain names and which knows no other scheme. -/
def plainPlatform : Platform where
  host h :=
    let name := h.map Char.toLower
    if name ≠ [] && name.all isDomainChar then some name else none
  other _ _ := none
  host_host {h s} hs := by
    dsimp only at hs ⊢
    split at hs
    next hname =>
      cases hs
      have hlower : (h.map Char.toLower).map Char.toLower = h.map Char.toLower := by
        rw [Bool.and_eq_true, List.all_eq_true] at hname
        exact (List.map_congr_left fun c hc => toLower_eq_self (hname.2 c hc)).trans (List.map_id _)
      rw [hlower, if_pos hname]
    next => cases hs
  host_ne_nil {h s} hs := by
    dsimp only at hs
    split at hs
    next hname =>
      cases hs
      simp only [Bool.and_eq_true, decide_eq_true_eq] at hname
      exact hname.1
    next => cases hs
  host_chars {h s} hs c hc := by
    dsimp only at hs
    split at hs
    next hname =>
      cases hs
      rw [Bool.and_eq_true, List.all_eq_true] at hname
      exact isHostChar_of_isDomainChar (hname.2 c hc)
    next => cases hs
  host_brackets {h s} hs := by
    dsimp only at hs
    split at hs
    next hname =>
      cases hs
      rw [Bool.and_eq_true, List.all_eq_true] at hname
      exact brackets_of_isDomainChar hname.2
    next => cases hs
  other_protocol h := by cases h

/-! ## The parser -/

def isTabOrNewline (c : Char) : Bool := c = '\t' || c = '\n' || c = '\r'

/-- Without C0 controls and spaces around it and without tabs and newlines. -/
def clean (input : List Char) : List Char :=
  ((input.dropWhile (·.toNat ≤ 0x20)).reverse.dropWhile (·.toNat ≤ 0x20)).reverse.filter
    (!isTabOrNewline ·)

def isSchemeChar (c : Char) : Bool := c.isAlphanum || c = '+' || c = '-' || c = '.'

/-- The scheme in lower case and what follows its colon. -/
def splitScheme : List Char → Option (List Char × List Char)
  | [] => none
  | c :: text =>
    if c.isAlpha then
      match text.dropWhile isSchemeChar with
      | ':' :: rest => some ((c :: text.takeWhile isSchemeChar).map Char.toLower, rest)
      | _ => none
    else none

def isSlash (c : Char) : Bool := c = '/' || c = '\\'

def endsAuthority (c : Char) : Bool := isSlash c || c = '?' || c = '#'

def endsPath (c : Char) : Bool := c = '?' || c = '#'

/-- What stands before the last `@` and after it. -/
def splitUserinfo : List Char → Option (List Char × List Char)
  | [] => none
  | c :: text =>
    match splitUserinfo text with
    | some (userinfo, host) => some (c :: userinfo, host)
    | none => if c = '@' then some ([], text) else none

/-- The host and what follows the first colon outside of brackets. -/
def splitPort : Bool → List Char → List Char × Option (List Char)
  | _, [] => ([], none)
  | inside, c :: text =>
    if c = ':' && !inside then ([], some text)
    else
      let (host, port) := splitPort (if c = '[' then true else if c = ']' then false else inside) text
      (c :: host, port)

def defaultPort (scheme : List Char) : Nat := if scheme = httpsScheme then 443 else 80

def parsePort (scheme : List Char) (digits : List Char) : Option (Option Nat) :=
  if digits = [] then some none
  else if !digits.all Char.isDigit then none
  else
    let port := Nat.ofDigitChars 10 digits 0
    if 65535 < port then none
    else if port = defaultPort scheme then some none
    else some (some port)

def isSingleDot (segment : List Char) : Bool :=
  segment.map Char.toLower = ['.'] || segment.map Char.toLower = ['%', '2', 'e']

def isDoubleDot (segment : List Char) : Bool :=
  [['.', '.'], ['.', '%', '2', 'e'], ['%', '2', 'e', '.'], ['%', '2', 'e', '%', '2', 'e']].contains
    (segment.map Char.toLower)

def splitSegments : List Char → List (List Char)
  | [] => [[]]
  | c :: text =>
    if isSlash c then [] :: splitSegments text
    else (splitSegments text).modifyHead (c :: ·)

/-- The path state at the end of a segment; the last one is not followed by a slash. -/
def addSegment (path : List (List Char)) (text : List Char) (last : Bool) : List (List Char) :=
  let segment := percentEncode pathSet text
  if isDoubleDot segment then path.dropLast ++ if last then [[]] else []
  else if isSingleDot segment then path ++ if last then [[]] else []
  else path ++ [segment]

def addSegments (path : List (List Char)) : List (List Char) → List (List Char)
  | [] => path
  | [segment] => addSegment path segment true
  | segment :: segments => addSegments (addSegment path segment false) segments

namespace HttpUrl

/-- What follows the path. -/
def parseTail (u : HttpUrl) : List Char → HttpUrl
  | '?' :: text =>
    let u := { u with query := some (percentEncode specialQuerySet (text.takeWhile (· ≠ '#'))) }
    match text.dropWhile (· ≠ '#') with
    | _ :: text => { u with fragment := some (percentEncode fragmentSet text) }
    | [] => u
  | '#' :: text => { u with fragment := some (percentEncode fragmentSet text) }
  | _ => u

/-- The path state. -/
def parsePath (u : HttpUrl) (text : List Char) : HttpUrl :=
  let path := addSegments u.path (splitSegments (text.takeWhile (!endsPath ·)))
  { u with path }.parseTail (text.dropWhile (!endsPath ·))

/-- The path start state. -/
def parsePathStart (u : HttpUrl) : List Char → HttpUrl
  | [] => u.parsePath []
  | c :: text => u.parsePath (if isSlash c then text else c :: text)

end HttpUrl

section
variable (P : Platform)

/-- The authority state and what follows it. -/
def parseAuthority (scheme text : List Char) : Option HttpUrl :=
  let authority := text.takeWhile (!endsAuthority ·)
  let (userinfo, authority) := (splitUserinfo authority).getD ([], authority)
  let (host, port) := splitPort false authority
  if host = [] then none else
  match P.host host, parsePort scheme (port.getD []) with
  | some host, some port =>
    let u : HttpUrl := {
      scheme, host, port
      username := percentEncode userinfoSet (userinfo.takeWhile (· ≠ ':'))
      password := percentEncode userinfoSet (userinfo.dropWhile (· ≠ ':')).tail
      path := [], query := none, fragment := none }
    some (u.parsePathStart (text.dropWhile (!endsAuthority ·)))
  | _, _ => none

/-- The special authority ignore slashes state. -/
def parseSlashes (scheme text : List Char) : Option HttpUrl :=
  parseAuthority P scheme (text.dropWhile isSlash)

/-- The relative state and the relative slash state. -/
def parseRelative (base : HttpUrl) : List Char → Option HttpUrl
  | [] => some { base with fragment := none }
  | c :: text =>
    if isSlash c then
      match text with
      | [] => some ({ base with path := [], query := none, fragment := none }.parsePath [])
      | d :: text =>
        if isSlash d then parseSlashes P base.scheme text
        else some ({ base with path := [], query := none, fragment := none }.parsePath (d :: text))
    else if c = '?' then some ({ base with query := none, fragment := none }.parseTail (c :: text))
    else if c = '#' then some ({ base with fragment := none }.parseTail (c :: text))
    else
      some ({ base with path := base.path.dropLast, query := none, fragment := none }.parsePath
        (c :: text))

/-- `new URL(input, base)` -/
def Url.parse (input : List Char) (base : Option Url) : Option Url :=
  let text := clean input
  match splitScheme text with
  | some (scheme, rest) =>
    if scheme = httpScheme || scheme = httpsScheme then
      match base with
      | some (.http base) =>
        if base.scheme = scheme && !(['/', '/'].isPrefixOf rest) then
          (parseRelative P base rest).map .http
        else (parseSlashes P scheme rest).map .http
      | _ => (parseSlashes P scheme rest).map .http
    else (P.other text base).map .other
  | none =>
    match base with
    | some (.http base) => (parseRelative P base text).map .http
    | some (.other base) => (P.other text (some (.other base))).map .other
    | none => none

end

/-! ## The serializer and the getters -/

namespace HttpUrl

variable (u : HttpUrl)

def credentials : List Char :=
  if u.username = [] && u.password = [] then []
  else u.username ++ (if u.password = [] then [] else ':' :: u.password) ++ ['@']

def portText : List Char := (u.port.map (Nat.toDigits 10)).getD []

def authority : List Char :=
  u.credentials ++ u.host ++ if u.port.isSome then ':' :: u.portText else []

def pathname : List Char := u.path.flatMap ('/' :: ·)

def href : List Char :=
  u.scheme ++ [':', '/', '/'] ++ u.authority ++ u.pathname
    ++ (u.query.map ('?' :: ·)).getD [] ++ (u.fragment.map ('#' :: ·)).getD []

end HttpUrl

namespace Url

def protocol : Url → List Char
  | http u => u.scheme ++ [':']
  | other u => u.protocol

def username : Url → List Char
  | http u => u.username
  | other u => u.username

def password : Url → List Char
  | http u => u.password
  | other u => u.password

def hostname : Url → List Char
  | http u => u.host
  | other u => u.hostname

def port : Url → List Char
  | http u => u.portText
  | other u => u.port

def pathname : Url → List Char
  | http u => u.pathname
  | other u => u.pathname

/-- An empty query counts as none. -/
def search : Url → List Char
  | http u => if u.query.getD [] = [] then [] else '?' :: u.query.getD []
  | other u => u.search

/-- An empty fragment counts as none. -/
def hash : Url → List Char
  | http u => if u.fragment.getD [] = [] then [] else '#' :: u.fragment.getD []
  | other u => u.hash

def href : Url → List Char
  | http u => u.href
  | other u => u.href

end Url

end CliProxy.Lib
