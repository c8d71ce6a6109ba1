import Mathlib
import CliProxy.Adapter.PaperclipRunner
import CliProxy.Provision.UrlPolicy

/-! # Git sources

`src/provision/git-source.ts`, `validateGitRepositoryUrl` of `src/provision/installer.ts` and what
`src/provision/state.ts` accepts as the source of an installed snapshot. -/

namespace CliProxy.Provision

open Adapter (Json)
open Lib (Platform Url HttpUrl percentEncode)
open UrlPolicy (Text Thrown isSecure)

/-! ## Names of commits, branches and directories -/

/-- The code units of a text. -/
def utf16Length (text : Text) : Nat := (text.map fun c => if c.toNat < 0x10000 then 1 else 2).sum

def isHexDigit (c : Char) : Bool :=
  (48 ≤ c.toNat && c.toNat ≤ 57) || (65 ≤ c.toNat && c.toNat ≤ 70) ||
    (97 ≤ c.toNat && c.toNat ≤ 102)

def isHex (length : Nat) (text : Text) : Bool := text.length = length && text.all isHexDigit

/-- `GIT_OBJECT_ID_PATTERN` -/
def isObjectIdText (text : Text) : Bool := isHex 40 text || isHex 64 text

def isGitObjectId : Option Json → Bool
  | some (.str value) => isObjectIdText value.toList
  | _ => false

def isBranchStop (c : Char) : Bool :=
  c.toNat ≤ 0x20 || c.toNat = 0x7f || ['~', '^', ':', '?', '*', '[', '\\'].contains c

def isBranchText (value : Text) : Bool :=
  value ≠ [] && utf16Length value ≤ 255 && value ≠ ['@'] && !(['-'].isPrefixOf value)
    && !(['/'].isPrefixOf value) && !(['/'].isSuffixOf value) && !(['.'].isSuffixOf value)
    && !Lib.includes ['.', '.'] value && !Lib.includes ['@', '{'] value
    && !Lib.includes ['/', '/'] value && !value.any isBranchStop
    && (value.splitOn '/').all fun part =>
      part ≠ [] && !(['.'].isPrefixOf part) && !".lock".toList.isSuffixOf part

def isValidGitBranch : Option Json → Bool
  | some (.str value) => isBranchText value.toList
  | _ => false

def isRevisionText (value : Text) : Bool := isObjectIdText value || isBranchText value

def isValidGitRevision (value : Option Json) : Bool := isGitObjectId value || isValidGitBranch value

def isPathText (value : Text) : Bool :=
  value ≠ [] && utf16Length value ≤ 1024
    && !value.any (fun c => c.toNat ≤ 0x1f || c.toNat = 0x7f || c = '\\')
    && !(['/'].isPrefixOf value) && !(['/'].isSuffixOf value)
    && (value.splitOn '/').all fun part => part ≠ [] && part ≠ ['.'] && part ≠ ['.', '.']

def isCanonicalGitPath : Option Json → Bool
  | some (.str value) => isPathText value.toList
  | _ => false

/-! ## URI components -/

/-- The characters that `encodeURIComponent` escapes. -/
def uriComponentSet (c : Char) : Bool :=
  !(c.isAlphanum || ['-', '_', '.', '!', '~', '*', '\'', '(', ')'].contains c)

def encodeURIComponent (text : Text) : Text := percentEncode uriComponentSet text

def hexDigitOf (c : Char) : Option Nat :=
  if isHexDigit c then
    some (if c.toNat ≤ 57 then c.toNat - 48 else if c.toNat ≤ 70 then c.toNat - 55 else c.toNat - 87)
  else none

/-- The bytes of a text, those of an escape for the escape. -/
def unescape : Text → Option (List UInt8)
  | [] => some []
  | '%' :: a :: b :: text =>
    match hexDigitOf a, hexDigitOf b with
    | some a, some b => (unescape text).map (UInt8.ofNat (16 * a + b) :: ·)
    | _, _ => none
  | c :: text => if c = '%' then none else (unescape text).map (String.utf8EncodeChar c ++ ·)

/-- The character with this code if its encoding is this one. -/
def charOf (code : Nat) (bytes : List UInt8) : Option Char :=
  if String.utf8EncodeChar (Char.ofNat code) = bytes then some (Char.ofNat code) else none

/-- The character that one byte encodes, or two, three or four of them. -/
def utf8Decode : List UInt8 → Option Text
  | [] => some []
  | a :: bytes =>
    match charOf a.toNat [a] with
    | some c => (utf8Decode bytes).map (c :: ·)
    | none =>
      match bytes with
      | [] => none
      | b :: bytes =>
        match charOf (a.toNat % 32 * 64 + b.toNat % 64) [a, b] with
        | some c => (utf8Decode bytes).map (c :: ·)
        | none =>
          match bytes with
          | [] => none
          | d :: bytes =>
            match charOf ((a.toNat % 16 * 64 + b.toNat % 64) * 64 + d.toNat % 64) [a, b, d] with
            | some c => (utf8Decode bytes).map (c :: ·)
            | none =>
              match bytes with
              | [] => none
              | e :: bytes =>
                let code := ((a.toNat % 8 * 64 + b.toNat % 64) * 64 + d.toNat % 64) * 64
                  + e.toNat % 64
                match charOf code [a, b, d, e] with
                | some c => (utf8Decode bytes).map (c :: ·)
                | none => none

/-- `none` if it throws. -/
def decodeURIComponent (text : Text) : Option Text := (unescape text).bind utf8Decode

example : decodeURIComponent "a%2Fb%C3%A9".toList = some "a/bé".toList := by decide +kernel

example : decodeURIComponent "%C3".toList = none := by decide +kernel

/-! ## GitHub directories -/

structure GitHubTreeSource where
  url : Text
  rev : Text
  path : Option Text
  deriving DecidableEq, Repr

/-- `repository.replace(/\.git$/, "")` -/
def withoutGit (repository : Text) : Text :=
  if ".git".toList.isSuffixOf repository then repository.take (repository.length - 4)
  else repository

/-- The clone URL of a repository. -/
def cloneUrl (owner repository : Text) : Text :=
  "https://github.com/".toList ++ encodeURIComponent owner ++ '/' ::
    encodeURIComponent (withoutGit repository) ++ ".git".toList

section
variable (P : Platform)

def parseGitHubTreeUrl (rawUrl : Text) : Option GitHubTreeSource :=
  match Url.parse P rawUrl none with
  | none => none
  | some parsed =>
    if parsed.protocol ≠ "https:".toList || parsed.hostname.map Char.toLower ≠ "github.com".toList
        || parsed.port ≠ [] || parsed.username ≠ [] || parsed.password ≠ [] || parsed.search ≠ []
        || parsed.hash ≠ [] then none
    else
      match (parsed.pathname.splitOn '/').tail.mapM decodeURIComponent with
      | some (owner :: repository :: tree :: rev :: pathParts) =>
        if tree ≠ "tree".toList then none
        else if owner = [] || repository = [] || rev = [] || owner.contains '/'
            || repository.contains '/' || rev.contains '/' then none
        else
          let subpath := ['/'].intercalate pathParts
          some ⟨cloneUrl owner repository, rev, if subpath = [] then none else some subpath⟩
      | _ => none

/-- `checkUrl` is the policy, which may throw. -/
def validateGitRepositoryUrl (checkUrl : Text → Except Thrown Unit) (url : Text) :
    Except Thrown Text :=
  if url.contains '\\' then
    .error (.provisionError "Git repository URL contains an invalid backslash".toList
      "url_not_allowed")
  else
    match Url.parse P url none with
    | none => .error (.provisionError "Git repository URL is invalid".toList "invalid_url")
    | some parsed =>
      if parsed.username ≠ [] || parsed.password ≠ [] || !isSecure parsed then
        .error (.provisionError "Git repository URL must use public HTTPS".toList
          "url_not_allowed")
      else if parsed.search ≠ [] || parsed.hash ≠ [] then
        .error (.provisionError "Git repository URLs cannot contain a query or fragment".toList
          "url_not_allowed")
      else
        match checkUrl parsed.href with
        | .error thrown => .error thrown
        | .ok () => .ok parsed.href

end

/-! ## The source of an installed snapshot -/

structure GitProvisionSource where
  url : Text
  rev : Text
  path : Option Text
  deriving DecidableEq, Repr

/-- `InstalledSnapshot["source"]` -/
structure InstalledSource where
  ref : Text
  rev : Text
  path : Option Text
  deriving DecidableEq, Repr

/-- What is written to the lockfile. -/
def InstalledSource.toJson (source : InstalledSource) : Json :=
  .obj ([("type", .str "git"), ("ref", .str (String.ofList source.ref)),
    ("rev", .str (String.ofList source.rev))] ++
      (source.path.map fun path => ("path", .str (String.ofList path))).toList)

/-- `installedSource` of an item with a git source. -/
def installedSource (git : GitProvisionSource) (resolvedGitRevision : Text) : InstalledSource where
  ref := git.rev
  rev := resolvedGitRevision
  path := git.path.filter (· ≠ [])

def textOf : Option Json → Text
  | some (.str s) => s.toList
  | _ => []

/-- The `source` that `installedSnapshot` reads. -/
def snapshotSource (rawSource : Option Json) : Option InstalledSource :=
  match rawSource with
  | some (.obj fields) =>
    let rawGitSource := Json.obj fields
    let rev := rawGitSource.get "rev"
    let gitRef := if Json.nullish (rawGitSource.get "ref") then rev else rawGitSource.get "ref"
    let path := rawGitSource.get "path"
    if Json.isStr (rawGitSource.get "type") "git" && isValidGitRevision gitRef && isGitObjectId rev
        && (path.isNone || isCanonicalGitPath path) then
      some ⟨textOf gitRef, (textOf rev).map Char.toLower, path.map fun _ => textOf path⟩
    else none
  | _ => none

end CliProxy.Provision
