import CliProxy.Provision.GitSource
import CliProxy.Provision.Types

/-! # The manifest

`parseManifest` of `src/provision/manifest.ts`. -/

namespace CliProxy.Provision

open Adapter (Json)
open Lib (Platform Url)
open UrlPolicy (Text Thrown)

/-! ## The source -/

structure ProvisionItem where
  type : String
  name : String
  url : Option Text
  sha256 : Option Text
  git : Option GitProvisionSource
  deriving DecidableEq, Repr

structure ProvisionManifest where
  items : List ProvisionItem
  /-- `runtime?.codex?.fastMode` -/
  fastMode : Option Bool
  deriving DecidableEq, Repr

def MANIFEST_SCHEMA : String := "agent-provisioning/v1"

def SUPPORTED_PROVISION_TYPES : List String := ["skill", "config"]

/-- `toLowerCase`, of which only the ASCII letters matter here. -/
structure Casing where
  lower : Text → Text
  lower_ascii : ∀ text, (∀ c ∈ text, c.toNat < 128) → lower text = text.map Char.toLower

def invalidItem (index : Nat) (reason : String) : Thrown :=
  .provisionError s!"items[{index}]: {reason}".toList "invalid_item"

def invalidManifest (message : String) : Thrown := .provisionError message.toList "invalid_manifest"

/-- `typeof v === "string" && v.trim()` -/
def isFilled : Option Json → Bool
  | some (.str s) => Lib.trim s.toList ≠ []
  | _ => false

def isSha256 : Option Json → Bool
  | some (.str s) => isHex 64 s.toList
  | _ => false

section
variable (P : Platform)

/-- The URL, the revision and the path that `parseGitSource` goes on with. -/
def readGitSource (git : Json) (index : Nat) : Except Thrown (Text × Option Json × Option Json) :=
  let url := Lib.trim (textOf (git.get "url"))
  match parseGitHubTreeUrl P url with
  | some source =>
    if (git.get "rev").isSome || (git.get "path").isSome then
      .error (invalidItem index
        "a GitHub tree URL cannot be combined with `git.rev` or `git.path`")
    else
      .ok (source.url, some (.str (String.ofList source.rev)),
        source.path.map fun path => .str (String.ofList path))
  | none => .ok (url, git.get "rev", git.get "path")

/-- `Object.keys` -/
def keysOf : Json → List String
  | .obj fields => fields.map Prod.fst
  | _ => []

/-- Throws unless the check passes. -/
def require (passes : Bool) (thrown : Thrown) : Except Thrown Unit :=
  if passes then .ok () else .error thrown

def isObject : Json → Bool
  | .obj _ => true
  | _ => false

def parseGitSource (value : Json) (index : Nat) : Except Thrown GitProvisionSource := do
  require (isObject value) (invalidItem index "`git` must be an object")
  require (isFilled (value.get "url")) (invalidItem index "`git.url` is required")
  let (url, rev, rawPath) ← readGitSource P value index
  require (isValidGitRevision rev)
    (invalidItem index "`git.rev` must be a full commit SHA or valid branch name")
  require (rawPath.isNone || isCanonicalGitPath rawPath)
    (invalidItem index "`git.path` must be a canonical repository-relative directory")
  let rev := textOf rev
  return ⟨url, if isObjectIdText rev then rev.map Char.toLower else rev,
    rawPath.map fun _ => textOf rawPath⟩

def carriesArchive (item : Json) : Bool := (item.get "url").isSome || (item.get "sha256").isSome

/-- What a supported item must carry. -/
def checkSupported (item : Json) (index : Nat) : Except Thrown Unit := do
  require (carriesArchive item != (item.get "git").isSome)
    (invalidItem index "must carry exactly one source: `url` + `sha256`, or `git`")
  require (!carriesArchive item || isFilled (item.get "url")) (invalidItem index "missing `url`")
  require (!carriesArchive item || isSha256 (item.get "sha256"))
    (invalidItem index "`sha256` must be 64 hex chars")

/-- An unknown type may carry a shape that this version cannot judge. -/
def checkSource (supported : Bool) (item : Json) (index : Nat) : Except Thrown Unit :=
  if supported then checkSupported item index else .ok ()

def parseGit (supported : Bool) (item : Json) (index : Nat) :
    Except Thrown (Option GitProvisionSource) :=
  match supported, item.get "git" with
  | true, some git => (parseGitSource P git index).map some
  | _, _ => .ok none

def stringOf (v : Option Json) : String := String.ofList (textOf v)

/-- `typeof v === "string" ? v : undefined` -/
def optionalText : Option Json → Option Text
  | some (.str s) => some s.toList
  | _ => none

def isItemName : Option Json → Bool
  | some (.str s) => isValidItemName s
  | _ => false

def isEntry : Json → Bool
  | .obj _ | .arr _ => true
  | _ => false

/-- An entry of `items` after the keys that were seen before. -/
def parseItem (C : Casing) (index : Nat) (seen : List String) (item : Json) :
    Except Thrown ProvisionItem := do
  require (isEntry item) (invalidItem index "must be an object")
  require (isFilled (item.get "type")) (invalidItem index "missing `type`")
  require (isItemName (item.get "name"))
    (invalidItem index "`name` must match [a-z0-9][a-z0-9_-]\x7b0,63\x7d")
  let type := stringOf (item.get "type")
  let name := stringOf (item.get "name")
  let key := toString (Key.mk type name)
  require (!seen.contains key) (invalidItem index s!"duplicate item \"{key}\"")
  require (type != "config" || (item.get "git").isNone)
    (invalidItem index "config items must use `url` + `sha256`, not `git`")
  let supported := SUPPORTED_PROVISION_TYPES.contains type
  checkSource supported item index
  let git ← parseGit P supported item index
  return ⟨type, name, optionalText (item.get "url"),
    (optionalText (item.get "sha256")).map C.lower, git⟩

def ProvisionItem.key (item : ProvisionItem) : Key := ⟨item.type, item.name⟩

def parseItems (C : Casing) : Nat → List String → List Json → Except Thrown (List ProvisionItem)
  | _, _, [] => .ok []
  | index, seen, entry :: entries => do
    let item ← parseItem P C index seen entry
    let items ← parseItems C (index + 1) (seen ++ [toString item.key]) entries
    return item :: items

def strictRuntimeObject (value : Json) (field : String) (allowed : List String) :
    Except Thrown Unit := do
  require (isObject value) (invalidManifest s!"{field} must be an object")
  require ((keysOf value).all allowed.contains)
    (invalidManifest s!"{field} contains unsupported fields")

/-- The `runtime` section: `fastMode` of its `codex`, as far as they are defined. -/
def parseRuntime (runtime : Option Json) : Except Thrown (Option Bool) := do
  match runtime with
  | none => return none
  | some runtime =>
    strictRuntimeObject runtime "runtime" ["codex"]
    match runtime.get "codex" with
    | none => return none
    | some codex =>
      strictRuntimeObject codex "runtime.codex" ["fast_mode"]
      match codex.get "fast_mode" with
      | none => return none
      | some (.bool fastMode) => return some fastMode
      | some _ => .error (invalidManifest "runtime.codex.fast_mode must be a boolean")

def parseManifest (C : Casing) (raw : Json) : Except Thrown ProvisionManifest := do
  require (isObject raw) (invalidManifest "Manifest must be a JSON object")
  require (Json.isStr (raw.get "schema") MANIFEST_SCHEMA)
    (invalidManifest s!"Manifest schema must be \"{MANIFEST_SCHEMA}\"")
  match raw.get "items" with
  | some (.arr entries) =>
    let items ← parseItems P C 0 [] entries
    let fastMode ← parseRuntime (raw.get "runtime")
    return ⟨items, fastMode⟩
  | _ => .error (invalidManifest "Manifest must carry an `items` array")

end

end CliProxy.Provision
