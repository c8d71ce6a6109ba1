import CliProxy.Adapter.PaperclipRunner
import CliProxy.Isolation.IssuedBindings
import CliProxy.Isolation.LinuxUserProvisioner
import CliProxy.Lib.Lines

/-! # Request identities

`src/isolation/request-identity.ts`: what a request is signed for, and the identity it gets. -/

namespace CliProxy.Isolation

open Adapter (Json)
open Lib (isLowerHex hexDigitValue isTrimmed matchesEach)
open WorkerProxy (utf8Length utf16Length validWorkspaceId)

def MAX_ID_LENGTH : Nat := 200
def MAX_CLOCK_SKEW_SECONDS : Nat := 300

structure RequestIdentity where
  tenantId : String
  userId : String
  workspaceId : String
  workspaceScoped : Bool
  deriving DecidableEq, Repr

/-- `validIdentity`. -/
def RequestIdentity.isValid (identity : RequestIdentity) : Bool :=
  utf16Length identity.tenantId.toList ≤ MAX_ID_LENGTH && isStableId identity.tenantId
    && utf16Length identity.userId.toList ≤ MAX_ID_LENGTH && isStableId identity.userId
    && (if identity.workspaceScoped then validWorkspaceId identity.workspaceId
      else identity.workspaceId = identity.userId)

structure Request where
  method : String
  originalUrl : String
  headers : String → Option String

/-- What is used of the platform. -/
structure IdentityPlatform where
  toUpperCase : String → String
  toLowerCase : String → String
  /-- `createHmac("sha256", secret).update(payload).digest()` -/
  hmac : String → List Char → List UInt8
  /-- No character has a line break as its upper case. -/
  upper_newline : ∀ text, '\n' ∈ (toUpperCase text).toList → '\n' ∈ text.toList

/-- What `initRequestIdentity` sets. -/
structure IdentityConfig where
  keyIdentities : List (String × RequestIdentity)
  hmacSecret : Option String
  requireIdentityV2 : Bool

/-! ## The configuration -/

/-- The identity of an entry of `USER_API_KEYS` and its key, `none` if the entry is refused. -/
def mappedIdentity (entry : Json) : Option (String × RequestIdentity) :=
  match entry.get "key", entry.get "tenantId", entry.get "userId" with
  | some (.str key), some (.str tenantId), some (.str userId) =>
    let identity : RequestIdentity := ⟨tenantId, userId, userId, false⟩
    if utf16Length key.toList < 16 || !identity.isValid then none else some (key, identity)
  | _, _, _ => none

def addMapping (mappings : List (String × RequestIdentity)) (entry : Json) :
    Except String (List (String × RequestIdentity)) :=
  match entry with
  | .obj _ | .arr _ =>
    match mappedIdentity entry with
    | none => .error "Each USER_API_KEYS entry requires key, tenantId, and userId"
    | some (key, identity) =>
      if (mappings.lookup key).isSome then .error "USER_API_KEYS contains a duplicate key"
      else .ok (mappings ++ [(key, identity)])
  | _ => .error "Each USER_API_KEYS entry must be an object"

/-- What the environment holds; `userApiKeys` is parsed, `some none` if it is no JSON. -/
structure IdentityEnvironment where
  userApiKeys : Option (Option Json)
  hmacSecret : Option String
  requireIdentityV2 : Option String

def readMappings : Option (Option Json) → Except String (List (String × RequestIdentity))
  | none => .ok []
  | some none => .error "USER_API_KEYS must be valid JSON"
  | some (some (.arr entries)) => entries.foldlM addMapping []
  | some (some _) => .error "USER_API_KEYS must be a JSON array"

def initRequestIdentity (P : IdentityPlatform) (env : IdentityEnvironment) :
    Except String IdentityConfig :=
  match readMappings env.userApiKeys with
  | .error message => .error message
  | .ok keyIdentities =>
    let hmacSecret := (env.hmacSecret.map fun secret => Lib.trim secret.toList).filter (· ≠ [])
    let required := P.toLowerCase (String.ofList (Lib.trim (env.requireIdentityV2.getD "").toList))
    if hmacSecret.any fun secret => utf8Length secret < 32 then
      .error "USER_IDENTITY_HMAC_SECRET must contain at least 32 bytes"
    else .ok ⟨keyIdentities, hmacSecret.map String.ofList,
      ["1", "true", "yes", "enabled"].contains required⟩

/-! ## Signatures -/

def Request.header (req : Request) (name : String) : String := (req.headers name).getD ""

/-- `/^\d{10}$/` -/
def isTimestamp (text : String) : Bool := matchesEach (List.replicate 10 Char.isDigit) text.toList

/-- `Number(timestamp)` -/
def timestampValue (text : String) : Int :=
  Int.ofNat (text.toList.foldl (fun n c => 10 * n + (c.toNat - '0'.toNat)) 0)

/-- `/^[a-f0-9]{64}$/` -/
def isSignature (text : String) : Bool := matchesEach (List.replicate 64 isLowerHex) text.toList

/-- `Buffer.from(signature, "hex")` -/
def hexBytes : List Char → List UInt8
  | c :: d :: text => UInt8.ofNat (16 * hexDigitValue c + hexDigitValue d) :: hexBytes text
  | _ => []

namespace Request

variable (P : IdentityPlatform) (req : Request)

/-- Whether the header is there, be it empty. -/
def workspaceScoped : Bool := (req.headers "x-cli-proxy-workspace-id").isSome

def timestamp : String := req.header "x-cli-proxy-identity-timestamp"

def signature : String := P.toLowerCase (req.header "x-cli-proxy-identity-signature")

/-- The identity that the headers name. -/
def namedIdentity : RequestIdentity where
  tenantId := req.header "x-cli-proxy-tenant-id"
  userId := req.header "x-cli-proxy-user-id"
  workspaceId :=
    if req.workspaceScoped then req.header "x-cli-proxy-workspace-id" else req.header "x-cli-proxy-user-id"
  workspaceScoped := req.workspaceScoped

/-- `originalUrl` up to its first question mark, `/` for an empty text. -/
def requestPath : List Char :=
  match req.originalUrl.toList.takeWhile (· ≠ '?') with
  | [] => ['/']
  | path => path

/-- What is joined for the signature. -/
def signedFields : List (List Char) :=
  let common := [(P.toUpperCase req.method).toList, req.requestPath, req.timestamp.toList,
    (req.header "x-cli-proxy-tenant-id").toList, (req.header "x-cli-proxy-user-id").toList]
  if req.workspaceScoped then
    "v2".toList :: (common ++ [(req.header "x-cli-proxy-workspace-id").toList])
  else "v1".toList :: common

def payload : List Char := ['\n'].intercalate (req.signedFields P)

end Request

def signedIdentity (P : IdentityPlatform) (config : IdentityConfig) (now : Int) (req : Request) :
    Option RequestIdentity :=
  match config.hmacSecret with
  | none => none
  | some secret =>
    let identity := req.namedIdentity
    if !identity.isValid || !isTimestamp req.timestamp || !isSignature (req.signature P) then none
    else if !req.workspaceScoped && config.requireIdentityV2 then none
    else if MAX_CLOCK_SKEW_SECONDS < (now - timestampValue req.timestamp).natAbs then none
    else
      let expected := P.hmac secret (req.payload P)
      let actual := hexBytes (req.signature P).toList
      if actual.length = expected.length ∧ actual = expected then some identity else none

/-- `replace(/^Bearer\s+/i, "").trim()` -/
def bearerToken (req : Request) : String :=
  let value := (req.header "authorization").toList
  let rest := value.drop 6
  if (value.take 6).map Char.toLower = "bearer".toList ∧ rest.takeWhile isTrimmed ≠ [] then
    String.ofList (Lib.trim (rest.dropWhile isTrimmed))
  else String.ofList (Lib.trim value)

/-- The key that `USER_API_KEYS` may map. -/
def userKey (req : Request) : String :=
  if req.header "x-cli-proxy-user-key" ≠ "" then req.header "x-cli-proxy-user-key"
  else bearerToken req

def resolveRequestIdentity (P : IdentityPlatform) (config : IdentityConfig) (now : Int)
    (req : Request) : Option RequestIdentity :=
  match config.keyIdentities.lookup (userKey req) with
  | some mapped => some mapped
  | none => signedIdentity P config now req

/-! ## What is accepted -/

variable {P : IdentityPlatform} {config : IdentityConfig} {now : Int} {req : Request}
  {identity : RequestIdentity}

/-- What a signed identity has passed. -/
structure Verified (P : IdentityPlatform) (secret : String) (req : Request)
    (identity : RequestIdentity) : Prop where
  named : identity = req.namedIdentity
  valid : identity.isValid = true
  timestamp : isTimestamp req.timestamp = true
  digest : hexBytes (req.signature P).toList = P.hmac secret (req.payload P)

theorem signedIdentity_verified (h : signedIdentity P config now req = some identity) :
    ∃ secret, config.hmacSecret = some secret ∧ Verified P secret req identity := by
  unfold signedIdentity at h
  cases hsecret : config.hmacSecret with
  | none =>
    rw [hsecret] at h
    cases h
  | some secret =>
    rw [hsecret] at h
    simp only [Option.ite_none_left_eq_some, Option.ite_none_right_eq_some, Bool.or_eq_true,
      Bool.not_eq_true', not_or, Bool.not_eq_false, Option.some.injEq] at h
    obtain ⟨⟨⟨hvalid, htimestamp⟩, -⟩, -, -, ⟨-, hdigest⟩, rfl⟩ := h
    exact ⟨secret, rfl, rfl, hvalid, htimestamp, hdigest⟩

/-! ## Mapped identities -/

/-- Every mapped identity is a valid one of the legacy layout. -/
def MapsValid (mappings : List (String × RequestIdentity)) : Prop :=
  ∀ mapping ∈ mappings, mapping.2.isValid = true ∧ mapping.2.workspaceScoped = false

theorem mappedIdentity_valid {entry : Json} {key : String}
    (h : mappedIdentity entry = some (key, identity)) :
    identity.isValid = true ∧ identity.workspaceScoped = false := by
  unfold mappedIdentity at h
  split at h
  next =>
    simp only [Option.ite_none_left_eq_some, Bool.or_eq_true, Bool.not_eq_true', not_or,
      Bool.not_eq_false, Option.some.injEq, Prod.mk.injEq] at h
    obtain ⟨⟨-, hvalid⟩, -, rfl⟩ := h
    exact ⟨hvalid, rfl⟩
  next => cases h

theorem addMapping_valid {mappings mappings' : List (String × RequestIdentity)} {entry : Json}
    (H : MapsValid mappings) (h : addMapping mappings entry = .ok mappings') :
    MapsValid mappings' := by
  unfold addMapping at h
  split at h
  case h_3 => cases h
  all_goals
    split at h
    next => cases h
    next key identity hentry =>
      split at h
      next => cases h
      next =>
        cases h
        intro mapping hmem
        rcases List.mem_append.mp hmem with hmem | hmem
        · exact H mapping hmem
        · rw [List.mem_singleton.mp hmem]
          exact mappedIdentity_valid hentry

theorem addMappings_valid {entries : List Json} {mappings mappings' : List (String × RequestIdentity)}
    (H : MapsValid mappings) (h : entries.foldlM addMapping mappings = .ok mappings') :
    MapsValid mappings' := by
  induction entries generalizing mappings with
  | nil =>
    cases h
    exact H
  | cons entry entries ih =>
    rw [List.foldlM_cons] at h
    cases hadd : addMapping mappings entry with
    | error e =>
      rw [hadd] at h
      cases h
    | ok next =>
      rw [hadd] at h
      exact ih (addMapping_valid H hadd) h

theorem readMappings_valid {parsed : Option (Option Json)} {mappings : List (String × RequestIdentity)}
    (h : readMappings parsed = .ok mappings) : MapsValid mappings := by
  unfold readMappings at h
  split at h
  next =>
    cases h
    exact List.forall_mem_nil _
  next => cases h
  next => exact addMappings_valid (List.forall_mem_nil _) h
  next => cases h

theorem initRequestIdentity_valid {env : IdentityEnvironment}
    (h : initRequestIdentity P env = .ok config) : MapsValid config.keyIdentities := by
  unfold initRequestIdentity at h
  split at h
  next => cases h
  next mappings hmappings =>
    dsimp only at h
    split at h
    next => cases h
    next =>
      cases h
      exact readMappings_valid hmappings

theorem mem_of_lookup {key : String} {mappings : List (String × RequestIdentity)}
    (h : mappings.lookup key = some identity) : (key, identity) ∈ mappings := by
  obtain ⟨before, after, rfl, -⟩ := List.lookup_eq_some_iff.mp h
  exact List.mem_append_right _ (.head _)

/-- No identity is invalid, however the request came by it. -/
theorem resolveRequestIdentity_isValid {env : IdentityEnvironment}
    (hconfig : initRequestIdentity P env = .ok config)
    (h : resolveRequestIdentity P config now req = some identity) : identity.isValid = true := by
  unfold resolveRequestIdentity at h
  split at h
  next mapped hmapped =>
    cases h
    exact (initRequestIdentity_valid hconfig _ (mem_of_lookup hmapped)).1
  next =>
    obtain ⟨secret, -, hverified⟩ := signedIdentity_verified h
    exact hverified.valid

/-! ## One signature, one identity -/

/-- The request is accepted through a signature with the secret. -/
def AcceptsSigned (P : IdentityPlatform) (secret : String) (req : Request)
    (identity : RequestIdentity) : Prop :=
  ∃ config now, config.hmacSecret = some secret ∧ config.keyIdentities.lookup (userKey req) = none ∧
    resolveRequestIdentity P config now req = some identity

def Request.SingleLine (req : Request) : Prop :=
  '\n' ∉ req.method.toList ∧ '\n' ∉ req.originalUrl.toList

theorem AcceptsSigned.verified {secret : String} (h : AcceptsSigned P secret req identity) :
    Verified P secret req identity := by
  obtain ⟨config, now, hsecret, hlookup, h⟩ := h
  rw [resolveRequestIdentity, hlookup] at h
  obtain ⟨secret', hsecret', hverified⟩ := signedIdentity_verified h
  exact Option.some.inj (hsecret.symm.trans hsecret') ▸ hverified

theorem newline_notMem_stableId {id : String} (h : isStableId id = true) : '\n' ∉ id.toList := by
  unfold isStableId at h
  split at h
  next => cases h
  next c cs hid =>
    rw [hid]
    simp only [Bool.and_eq_true, decide_eq_true_eq, List.all_eq_true] at h
    intro hmem
    rcases List.mem_cons.mp hmem with rfl | hmem
    · exact absurd h.1.1 (by decide)
    · exact absurd (h.2 _ hmem) (by decide)

theorem newline_notMem_workspaceId {id : String} (h : validWorkspaceId id = true) :
    '\n' ∉ id.toList := by
  unfold validWorkspaceId at h
  split at h
  next => cases h
  next c cs hid =>
    rw [hid]
    simp only [Bool.and_eq_true, decide_eq_true_eq, List.all_eq_true] at h
    intro hmem
    rcases List.mem_cons.mp hmem with rfl | hmem
    · exact absurd h.1.1 (by decide)
    · exact absurd (h.1.2 _ hmem) (by decide)

theorem newline_notMem_timestamp {text : String} (h : isTimestamp text = true) :
    '\n' ∉ text.toList := by
  obtain ⟨-, hdigits⟩ := Lib.matchesEach_replicate.mp h
  exact fun hmem => absurd (hdigits _ hmem) (by decide)

theorem newline_notMem_requestPath (h : '\n' ∉ req.originalUrl.toList) :
    '\n' ∉ req.requestPath := by
  unfold Request.requestPath
  split
  next => decide
  next => exact fun hmem => h (List.takeWhile_subset _ hmem)

namespace Verified

variable {secret : String}

theorem stable (H : Verified P secret req identity) :
    isStableId (req.header "x-cli-proxy-tenant-id") = true ∧
      isStableId (req.header "x-cli-proxy-user-id") = true := by
  have hvalid := H.valid
  rw [H.named, RequestIdentity.isValid] at hvalid
  simp only [Bool.and_eq_true] at hvalid
  exact ⟨hvalid.1.1.1.2, hvalid.1.2⟩

theorem workspace (H : Verified P secret req identity) (h : req.workspaceScoped = true) :
    validWorkspaceId (req.header "x-cli-proxy-workspace-id") = true := by
  have hvalid := H.valid
  rw [H.named, RequestIdentity.isValid] at hvalid
  simp only [Request.namedIdentity, h, if_true, Bool.and_eq_true] at hvalid
  exact hvalid.2

theorem singleLines (H : Verified P secret req identity) (hlines : req.SingleLine) :
    ∀ field ∈ req.signedFields P, '\n' ∉ field := by
  have hcommon : ∀ field ∈ [(P.toUpperCase req.method).toList, req.requestPath,
      req.timestamp.toList, (req.header "x-cli-proxy-tenant-id").toList,
      (req.header "x-cli-proxy-user-id").toList], '\n' ∉ field := by
    simp only [List.forall_mem_cons]
    refine ⟨fun h => hlines.1 (P.upper_newline _ h), newline_notMem_requestPath hlines.2,
      newline_notMem_timestamp H.timestamp, newline_notMem_stableId H.stable.1,
      newline_notMem_stableId H.stable.2, List.forall_mem_nil _⟩
  unfold Request.signedFields
  split
  next h =>
    refine List.forall_mem_cons.mpr ⟨by decide, List.forall_mem_append.mpr ⟨hcommon, ?_⟩⟩
    exact List.forall_mem_singleton.mpr (newline_notMem_workspaceId (H.workspace h))
  next => exact List.forall_mem_cons.mpr ⟨by decide, hcommon⟩

end Verified

theorem signedFields_inj {req req' : Request} (h : req.signedFields P = req'.signedFields P) :
    P.toUpperCase req.method = P.toUpperCase req'.method ∧ req.requestPath = req'.requestPath ∧
      req.timestamp = req'.timestamp ∧ req.namedIdentity = req'.namedIdentity := by
  unfold Request.signedFields at h
  cases hscoped : req.workspaceScoped <;> cases hscoped' : req'.workspaceScoped
  all_goals simp only [hscoped, hscoped', if_true, Bool.false_eq_true, if_false, List.cons_append,
    List.nil_append, List.cons.injEq, String.toList_inj, and_true, true_and] at h
  · obtain ⟨hmethod, hpath, htimestamp, htenant, huser⟩ := h
    refine ⟨hmethod, hpath, htimestamp, ?_⟩
    simp only [Request.namedIdentity, hscoped, hscoped', htenant, huser, Bool.false_eq_true, if_false]
  · exact absurd h.1 (by decide)
  · exact absurd h.1 (by decide)
  · obtain ⟨hmethod, hpath, htimestamp, htenant, huser, hworkspace⟩ := h
    refine ⟨hmethod, hpath, htimestamp, ?_⟩
    simp only [Request.namedIdentity, hscoped, hscoped', htenant, huser, hworkspace]

/-- The first line of a payload tells whether it names a workspace. -/
theorem version_payload :
    ("v1\n".toList <+: req.payload P → req.workspaceScoped = false) ∧
      ("v2\n".toList <+: req.payload P → req.workspaceScoped = true) := by
  have hpayload : ∃ rest, req.payload P =
      (if req.workspaceScoped then "v2\n".toList else "v1\n".toList) ++ rest := by
    unfold Request.payload Request.signedFields
    cases req.workspaceScoped <;> exact ⟨_, List.intercalate_cons_cons⟩
  obtain ⟨rest, hpayload⟩ := hpayload
  rw [hpayload]
  cases req.workspaceScoped with
  | false =>
    refine ⟨fun _ => rfl, fun h => ?_⟩
    exact absurd (List.prefix_of_prefix_length_le h (List.prefix_append _ _) (by decide)) (by decide)
  | true =>
    refine ⟨fun h => ?_, fun _ => rfl⟩
    exact absurd (List.prefix_of_prefix_length_le h (List.prefix_append _ _) (by decide)) (by decide)

theorem Verified.fields_eq {secret : String} {req req' : Request} {identity identity' : RequestIdentity}
    (H : Verified P secret req identity) (H' : Verified P secret req' identity')
    (hlines : req.SingleLine) (hlines' : req'.SingleLine) (h : req.payload P = req'.payload P) :
    P.toUpperCase req.method = P.toUpperCase req'.method ∧ req.requestPath = req'.requestPath ∧
      req.timestamp = req'.timestamp ∧ req.namedIdentity = req'.namedIdentity := by
  have hne : ∀ req : Request, req.signedFields P ≠ [] := by
    intro req
    unfold Request.signedFields
    split <;> exact List.cons_ne_nil _ _
  apply signedFields_inj
  calc req.signedFields P
      = (req.payload P).splitOn '\n' :=
        (List.splitOn_intercalate _ (H.singleLines hlines) (hne req)).symm
    _ = (req'.payload P).splitOn '\n' := congrArg _ h
    _ = req'.signedFields P := List.splitOn_intercalate _ (H'.singleLines hlines') (hne req')

theorem toUpper_eq_newline {c : Char} (h : c.toUpper = '\n') : c = '\n' := by
  by_cases hc : c.val ≥ 'a'.val ∧ c.val ≤ 'z'.val
  · have hval : c.toUpper.val = c.val + ('A'.val - 'a'.val) := by
      rw [Char.toUpper, dif_pos hc]
    have hcode := congrArg UInt32.toNat (h ▸ hval)
    have hlower := UInt32.le_iff_toNat_le.mp hc.1
    have hupper := UInt32.le_iff_toNat_le.mp hc.2
    simp at hcode hlower hupper
    omega
  · rwa [Char.toUpper, dif_neg hc] at h

def signingSecret : String := "identity-secret-that-is-long-enough"

def workspaceText : List Char :=
  "v2\nPOST\n/v1/chat/completions\n1700000000\ntenant-a\nuser-a\nagent-12".toList

def legacyText : List Char := "v1\nGET\n/\n1700000000\ntenant-a\nuser-a".toList

def workspaceSignature : String :=
  "a999e6f2ba0849c43a854721bff7e066285a3980e4f3ecbbcf17c6c27d928df8"

def legacySignature : String :=
  "041e9744eaeb494c4c1fde20be1b4993c3879e410c0cf219c708153b4fda647c"

/-- The digests of two texts with the example secret. -/
def signingPlatform : IdentityPlatform where
  toUpperCase text := String.ofList (text.toList.map Char.toUpper)
  toLowerCase text := String.ofList (text.toList.map Char.toLower)
  hmac _ text :=
    if text = workspaceText then hexBytes workspaceSignature.toList
    else if text = legacyText then hexBytes legacySignature.toList else []
  upper_newline text h := by
    rw [String.toList_ofList, List.mem_map] at h
    obtain ⟨c, hc, hupper⟩ := h
    exact toUpper_eq_newline hupper ▸ hc

def signingConfig : IdentityConfig := ⟨[], some signingSecret, false⟩

/-- A request with the signature of an identity of the legacy layout. -/
def legacyRequest (method originalUrl : String) : Request where
  method := method
  originalUrl := originalUrl
  headers := ([("x-cli-proxy-tenant-id", "tenant-a"), ("x-cli-proxy-user-id", "user-a"),
    ("x-cli-proxy-identity-timestamp", "1700000000"),
    ("x-cli-proxy-identity-signature", legacySignature)].lookup ·)

def workspaceRequest (originalUrl : String) : Request where
  method := "POST"
  originalUrl := originalUrl
  headers := ([("x-cli-proxy-tenant-id", "tenant-a"), ("x-cli-proxy-user-id", "user-a"),
    ("x-cli-proxy-workspace-id", "agent-12"), ("x-cli-proxy-identity-timestamp", "1700000000"),
    ("x-cli-proxy-identity-signature", workspaceSignature)].lookup ·)

theorem accepts_of_resolved {req : Request} {identity : RequestIdentity}
    (h : resolveRequestIdentity signingPlatform signingConfig 1700000001 req = some identity) :
    AcceptsSigned signingPlatform signingSecret req identity :=
  ⟨signingConfig, 1700000001, rfl, rfl, h⟩

end CliProxy.Isolation
