import CliProxy.Lib.Scan
import CliProxy.Lib.Text

/-! # What the login adapters read off a terminal

`src/auth/terminal-scrape.ts` and the patterns of `src/auth/adapters/claude-setup-token.ts` and
`src/auth/adapters/codex-device-auth.ts`. None of the expressions ever backtracks: each class
excludes what has to follow it. -/

namespace CliProxy.Auth

open Lib (Reader)
open Lib.Reader (one many atLeast seq orElse boundary literal)

def esc : Char := '\x1b'
def bel : Char := '\x07'

/-- `ST`, the end of an operating system command: BEL is the old form of `ESC \`. -/
def oscEnd : Reader Char := (one (· = bel)).orElse (literal [esc, '\\'])

/-- OSC 8 hyperlink: `ESC ] 8 ; <params> ; <URI> ST`. -/
def OSC8_LINK : Reader Char :=
  (literal [esc, ']', '8', ';']).seq <| (many (· ≠ ';')).seq <| (one (· = ';')).seq <|
    (many fun c => c ≠ esc && c ≠ bel).seq oscEnd

/-- CSI / OSC / single-char escapes, tried in the order OSC, CSI, single. An OSC that nothing
ends loses only its first two characters. -/
def ANSI : Reader Char :=
  ((literal [esc, ']']).seq <| (many fun c => c ≠ bel && c ≠ esc).seq oscEnd).orElse <|
    ((literal [esc, '[']).seq <| (many fun c => c.isDigit || c = ';' || c = '?').seq <|
      (many fun c => ' ' ≤ c && c ≤ '/').seq <| one fun c => '@' ≤ c && c ≤ '~').orElse <|
    (literal [esc]).seq <| one fun c => ('@' ≤ c && c ≤ 'Z') || ('\\' ≤ c && c ≤ '_')

/-- `[^\s'"<>()\\]` -/
def isUrlChar (c : Char) : Bool :=
  !Lib.isTrimmed c && !(['\'', '"', '<', '>', '(', ')', '\\'].contains c)

/-- `[A-Za-z0-9_-]` -/
def isTokenChar (c : Char) : Bool := c.isAlphanum || c = '_' || c = '-'

/-- `\w` -/
def isWordChar (c : Char) : Bool := c.isAlphanum || c = '_'

/-- `https://[^\s'"<>()\\]+` -/
def PLAIN_URL : Reader Char := (literal "https://".toList).seq <| (many isUrlChar).atLeast 1

/-- `sk-ant-oat\d+-[A-Za-z0-9_-]+` -/
def OAUTH_TOKEN : Reader Char :=
  (literal "sk-ant-oat".toList).seq <| (((many Char.isDigit).atLeast 1).seq (one (· = '-'))).seq <|
    (many isTokenChar).atLeast 1

/-- `/OAuth error/i` -/
def OAUTH_ERROR : Reader Char :=
  "oauth error".toList.foldr (fun a => (one (·.toLower = a)).seq) Reader.nothing

/-- `[A-Z0-9]{4,10}` -/
def codeSegment : Reader Char := (many (fun c => c.isUpper || c.isDigit) (some 10)).atLeast 4

/-- `\b[A-Z0-9]{4,10}-[A-Z0-9]{4,10}\b` -/
def USER_CODE : Reader Char :=
  ((boundary isWordChar).seq (codeSegment.seq (one (· = '-')))).seq
    (codeSegment.seq (boundary isWordChar))

def stripAnsi (text : List Char) : List Char := ANSI.erase text

/-- The group of `OSC8_LINK`: the URI of a link. -/
def linkTarget (link : List Char) : List Char :=
  (((link.drop 4).dropWhile (· ≠ ';')).drop 1).takeWhile fun c => c ≠ esc && c ≠ bel

/-- Every OSC-8 hyperlink target present in the buffer, in order, deduplicated. -/
def extractOsc8Links (buffer : List Char) : List (List Char) :=
  (OSC8_LINK.matchAll buffer).foldl (fun links link =>
    let uri := linkTarget link
    if uri ≠ [] ∧ uri ∉ links then links ++ [uri] else links) []

/-- The verification URL the user must open: the target of an OSC-8 link if one is accepted, and
otherwise the first accepted URL in the visible text. -/
def findVerificationUrl (buffer : List Char) (accept : List Char → Bool) : Option (List Char) :=
  ((extractOsc8Links buffer).find? fun uri => "https://".toList.isPrefixOf uri && accept uri).or
    ((PLAIN_URL.matchAll (stripAnsi buffer)).find? accept)

def isAuthorizeUrl : List Char → Bool := Lib.includes "/oauth/authorize".toList

def isDeviceUrl : List Char → Bool := Lib.includes "auth.openai.com".toList

/-- The probe of `ClaudeSetupTokenSession.start`. -/
def authorizeUrl (buffer : List Char) : Option (List Char) :=
  findVerificationUrl buffer isAuthorizeUrl

/-- The probe of `ClaudeSetupTokenSession.submit`. -/
def oauthToken (buffer : List Char) : Option (List Char) :=
  (OAUTH_TOKEN.matchAll (stripAnsi buffer)).head?

def oauthError (buffer : List Char) : Bool :=
  (OAUTH_ERROR.matchAll (stripAnsi buffer)).isEmpty = false

/-- `CodexDeviceAuthSession.scrape`: returning the URL alone would show a page asking for a code
that has not been scraped yet. -/
def deviceCode (buffer : List Char) : Option (List Char × List Char) :=
  match findVerificationUrl buffer isDeviceUrl, (USER_CODE.matchAll (stripAnsi buffer)).head? with
  | some url, some code => some (url, code)
  | _, _ => none

/-- The last three visible lines, joined by blanks. -/
def lastLines (buffer : List Char) : List Char :=
  let lines := (Lib.trim (stripAnsi buffer)).splitOn '\n'
  [' '].intercalate (lines.drop (lines.length - 3))

/-- `text.slice(-n)` -/
def lastChars (n : Nat) (text : List Char) : List Char := text.drop (text.length - n)

end CliProxy.Auth
