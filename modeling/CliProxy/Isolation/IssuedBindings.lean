import CliProxy.Isolation.WorkerProtocol

/-! # Issued provisioning bindings

The state of `UserWorkerProxy` in `src/isolation/worker-proxy.ts`, its two files and the operations
on them. A save is atomic and says by `saved` whether it succeeds; `JSON.parse` returns what
`JSON.stringify` was given. -/

namespace CliProxy.WorkerProxy

open Isolation (decodeProvisioningGeneration provisioningGenerationTimestamp MAX_TIMESTAMP Uuidv7)
open Lib (isLowerHex hexDigit matchesEach)

def MAX_ISSUED_BINDINGS : Nat := 512
def MAX_ISSUED_STATE_BYTES : Nat := 1024 * 1024
def MAX_SESSION_RESPONSE_BYTES : Nat := 64 * 1024

structure IssuedProvisioningBinding where
  generation : String
  urlHash : String
  accountName : String
  engine : String
  expiresAt : Int
  sessionId : Option String
  workspaceId : Option String
  deriving DecidableEq, Repr

/-- The values of the map, whose keys are their generations, in its order. -/
abbrev Bindings := List IssuedProvisioningBinding

namespace Bindings

def get (bindings : Bindings) (generation : String) : Option IssuedProvisioningBinding :=
  bindings.find? (·.generation == generation)

/-- An entry keeps its place when it is replaced. -/
def set (bindings : Bindings) (binding : IssuedProvisioningBinding) : Bindings :=
  if (bindings.get binding.generation).isSome then
    bindings.map fun b => if b.generation = binding.generation then binding else b
  else bindings ++ [binding]

def delete (bindings : Bindings) (generation : String) : Bindings :=
  bindings.filter (·.generation ≠ generation)

def unexpired (bindings : Bindings) (now : Int) : Bindings := bindings.filter (now < ·.expiresAt)

/-- `slice(-MAX_ISSUED_BINDINGS)`. -/
@[irreducible] def latest (bindings : Bindings) : Bindings := bindings.drop (bindings.length - MAX_ISSUED_BINDINGS)

end Bindings

structure IssuedProvisioningState where
  latestGeneration : Option String
  bindings : Bindings

/-! ## The text of the state -/

/-- A character in a string that `JSON.stringify` returns. -/
def quoteChar (c : Char) : List Char :=
  if c = '"' then ['\\', '"']
  else if c = '\\' then ['\\', '\\']
  else if c.toNat = 8 then ['\\', 'b']
  else if c.toNat = 9 then ['\\', 't']
  else if c.toNat = 10 then ['\\', 'n']
  else if c.toNat = 12 then ['\\', 'f']
  else if c.toNat = 13 then ['\\', 'r']
  else if c.toNat < 32 then ['\\', 'u', '0', '0', hexDigit (c.toNat / 16), hexDigit (c.toNat % 16)]
  else [c]

def quote (s : String) : List Char := '"' :: (s.toList.flatMap quoteChar ++ ['"'])

def fieldText (key : String) (value : List Char) : List Char := quote key ++ ':' :: value

def commaText (parts : List (List Char)) : List Char := [','].intercalate parts

def objectText (fields : List (List Char)) : List Char := '{' :: (commaText fields ++ ['}'])

def IssuedProvisioningBinding.text (b : IssuedProvisioningBinding) : List Char :=
  objectText ([fieldText "generation" (quote b.generation), fieldText "urlHash" (quote b.urlHash),
      fieldText "accountName" (quote b.accountName), fieldText "engine" (quote b.engine),
      fieldText "expiresAt" (toString b.expiresAt).toList]
    ++ (b.workspaceId.map fun id => fieldText "workspaceId" (quote id)).toList
    ++ (b.sessionId.map fun id => fieldText "sessionId" (quote id)).toList)

/-- What `saveIssuedProvisioningState` writes. -/
def IssuedProvisioningState.text (s : IssuedProvisioningState) : List Char :=
  objectText ([fieldText "version" ['1']]
    ++ (s.latestGeneration.map fun g => fieldText "latestGeneration" (quote g)).toList
    ++ [fieldText "bindings" ('[' :: (commaText (s.bindings.map (·.text)) ++ [']']))]) ++ ['\n']

def utf8Length : List Char → Nat
  | [] => 0
  | c :: text => c.utf8Size + utf8Length text

/-- `length` of a string. -/
def utf16Length : List Char → Nat
  | [] => 0
  | c :: text => (if c.toNat < 0x10000 then 1 else 2) + utf16Length text

/-! ## The size of the saved state -/

theorem utf8Length_append (a b : List Char) : utf8Length (a ++ b) = utf8Length a + utf8Length b := by
  induction a with
  | nil => exact (Nat.zero_add _).symm
  | cons c a ih => rw [List.cons_append, utf8Length, utf8Length, ih, Nat.add_assoc]

theorem length_le_utf8Length (text : List Char) : text.length ≤ utf8Length text := by
  induction text with
  | nil => exact Nat.le_refl 0
  | cons c text ih =>
    rw [List.length_cons, utf8Length, Nat.add_comm]
    exact Nat.add_le_add c.utf8Size_pos ih

theorem length_le_quote (s : String) : s.toList.length ≤ (quote s).length := by
  have hchar : ∀ c : Char, 1 ≤ (quoteChar c).length := by
    intro c
    unfold quoteChar
    repeat' split
    all_goals exact Nat.succ_le_succ (Nat.zero_le _)
  have hall : ∀ text : List Char, text.length ≤ (text.flatMap quoteChar).length := by
    intro text
    induction text with
    | nil => exact Nat.le_refl 0
    | cons c text ih =>
      rw [List.flatMap_cons, List.length_append, List.length_cons, Nat.add_comm]
      exact Nat.add_le_add (hchar c) ih
  unfold quote
  rw [List.length_cons, List.length_append]
  exact (hall s.toList).trans (by omega)

theorem commaText_cons (part : List Char) {parts : List (List Char)} (h : parts ≠ []) :
    commaText (part :: parts) = part ++ ',' :: commaText parts := by
  unfold commaText
  rw [List.intercalate_cons_of_ne_nil h, List.append_assoc]
  rfl

theorem mul_le_commaText {parts : List (List Char)} {k : Nat}
    (h : ∀ part ∈ parts, k ≤ utf8Length part) : parts.length * k ≤ utf8Length (commaText parts) := by
  induction parts with
  | nil => exact Nat.le_of_eq (Nat.zero_mul k)
  | cons part parts ih =>
    rw [List.forall_mem_cons] at h
    have hpart := h.1
    have hrest := ih h.2
    by_cases hparts : parts = []
    · subst hparts
      rw [List.length_singleton, Nat.one_mul, commaText, List.intercalate_singleton]
      exact hpart
    · rw [commaText_cons part hparts, utf8Length_append, utf8Length, List.length_cons, Nat.succ_mul]
      omega

theorem le_objectText {field : List Char} {fields : List (List Char)} (h : field ∈ fields) :
    utf8Length field ≤ utf8Length (objectText fields) := by
  have hcomma : utf8Length field ≤ utf8Length (commaText fields) := by
    induction fields with
    | nil => exact absurd h List.not_mem_nil
    | cons part fields ih =>
      by_cases hfields : fields = []
      · subst hfields
        rw [List.mem_singleton.mp h, commaText, List.intercalate_singleton]
      · rw [commaText_cons part hfields, utf8Length_append, utf8Length]
        obtain rfl | h := List.mem_cons.mp h
        · omega
        · have := ih h
          omega
  unfold objectText
  rw [utf8Length, utf8Length_append]
  omega

theorem le_fieldText (key : String) (value : List Char) :
    utf8Length value ≤ utf8Length (fieldText key value) := by
  unfold fieldText
  rw [utf8Length_append, utf8Length]
  omega

/-- The text of a state is at least as long as the engines in it. -/
theorem mul_le_text {latest : Option String} {bindings : Bindings} {k : Nat}
    (h : ∀ b ∈ bindings, k ≤ b.engine.toList.length) :
    bindings.length * k ≤ utf8Length (IssuedProvisioningState.text ⟨latest, bindings⟩) := by
  have hparts : ∀ part ∈ bindings.map (·.text), k ≤ utf8Length part := by
    intro part hpart
    obtain ⟨b, hb, rfl⟩ := List.mem_map.mp hpart
    calc k ≤ b.engine.toList.length := h b hb
      _ ≤ (quote b.engine).length := length_le_quote b.engine
      _ ≤ utf8Length (quote b.engine) := length_le_utf8Length _
      _ ≤ utf8Length (fieldText "engine" (quote b.engine)) := le_fieldText ..
      _ ≤ utf8Length b.text := le_objectText (by simp)
  have hbindings := mul_le_commaText hparts
  rw [List.length_map] at hbindings
  have hfield : utf8Length (fieldText "bindings"
      ('[' :: (commaText (bindings.map (·.text)) ++ [']']))) ≤
        utf8Length (IssuedProvisioningState.text ⟨latest, bindings⟩) := by
    unfold IssuedProvisioningState.text
    rw [utf8Length_append]
    exact (le_objectText (by simp)).trans (Nat.le_add_right ..)
  have hvalue := le_fieldText "bindings" ('[' :: (commaText (bindings.map (·.text)) ++ [']']))
  rw [utf8Length, utf8Length_append] at hvalue
  omega

/-! ## The files -/

inductive IssuedFile where
  | absent
  /-- The text is a generation, as earlier versions left it. -/
  | legacy (generation : String)
  | saved (state : IssuedProvisioningState)

/-- `provisioning-notification-generation`, and the `.issued` file beside it. -/
structure Files where
  notification : Option String
  issued : IssuedFile

/-- `loadProvisioningGeneration`. -/
def loadProvisioningGeneration (files : Files) : Option String :=
  decodeProvisioningGeneration files.notification

/-- `WORKSPACE_ID_RE`. -/
def validWorkspaceId (workspaceId : String) : Bool :=
  match workspaceId.toList with
  | [] => false
  | c :: rest =>
    c.isAlphanum && rest.all (fun c => c.isAlphanum || ['_', ':', '@', '-'].contains c)
      && rest.length ≤ 199

/-- A text of 1 to 256 units. -/
def isShort (text : String) : Bool :=
  utf16Length text.toList ≠ 0 && utf16Length text.toList ≤ 256

def validSessionId (sessionId : String) : Bool :=
  isShort sessionId && !sessionId.toList.contains '/'

def isUrlHash (urlHash : String) : Bool :=
  matchesEach (List.replicate 64 isLowerHex) urlHash.toList

namespace IssuedProvisioningBinding

/-- The checks of the loader. -/
def accepted (b : IssuedProvisioningBinding) (now : Int) : Bool :=
  now < b.expiresAt && isUrlHash b.urlHash && isShort b.accountName && isShort b.engine
    && b.sessionId.all validSessionId && b.workspaceId.all validWorkspaceId

end IssuedProvisioningBinding

namespace IssuedProvisioningState

def empty : IssuedProvisioningState := ⟨none, []⟩

/-- `!latest || generation > latest`. -/
def isNewer (generation : String) (latest : Option String) : Bool :=
  latest.all fun latest => decide (latest < generation)

/-- The body of the loop of `loadIssuedProvisioningState`. -/
def load (now : Int) (s : IssuedProvisioningState) (b : IssuedProvisioningBinding) :
    IssuedProvisioningState :=
  match decodeProvisioningGeneration (some b.generation) with
  | none => s
  | some generation =>
    if b.accepted now then
      { latestGeneration :=
          if isNewer generation s.latestGeneration then some generation else s.latestGeneration
        bindings := s.bindings.set { b with generation } }
    else s

end IssuedProvisioningState

/-- The size of the `.issued` file. -/
def IssuedFile.size : IssuedFile → Nat
  | absent => 0
  | legacy generation => utf8Length generation.toList
  | saved state => utf8Length state.text

def loadIssuedProvisioningState (file : IssuedFile) (now : Int) : IssuedProvisioningState :=
  if file.size > MAX_ISSUED_STATE_BYTES then .empty
  else match file with
    | .absent => .empty
    | .legacy generation => ⟨decodeProvisioningGeneration (some generation), []⟩
    | .saved state => state.bindings.latest.foldl (IssuedProvisioningState.load now)
      ⟨decodeProvisioningGeneration state.latestGeneration, []⟩

/-! ## The proxy and its files -/

structure UserWorkerProxy where
  latestProvisioningGeneration : Option String
  latestIssuedProvisioningGeneration : Option String
  issuedProvisioningBindings : Bindings

/-- A gateway process and what it has saved. -/
structure Store where
  files : Files
  proxy : UserWorkerProxy

/-- The constructor. -/
def UserWorkerProxy.ofFiles (files : Files) (now : Int) : UserWorkerProxy :=
  let latestProvisioningGeneration := loadProvisioningGeneration files
  let issuedState := loadIssuedProvisioningState files.issued now
  { latestProvisioningGeneration
    latestIssuedProvisioningGeneration :=
      match issuedState.latestGeneration with
      | some latestIssued =>
        if IssuedProvisioningState.isNewer latestIssued latestProvisioningGeneration then
          some latestIssued
        else latestProvisioningGeneration
      | none => latestProvisioningGeneration
    issuedProvisioningBindings := issuedState.bindings }

/-- What the gateway is configured with, and what it uses of the platform. -/
structure GatewayConfig where
  authSessionTtlMs : Nat
  connectTimeoutMs : Nat
  /-- `new URL(url).toString()`, `none` if it throws. -/
  normalizeUrl : String → Option String
  /-- The digest in hexadecimal. -/
  sha256 : String → String
  isUrlHash_sha256 : ∀ text, isUrlHash (sha256 text) = true
  checkUrlAllowed : String → Bool
  /-- The `sessionId` and the time of `expiresAt` in the body of a response, `none` if reading it
  throws. -/
  parseSession : List UInt8 → Option (Option String × Option Int)

/-- `provisioningUrlHash`, of a URL that was normalized before. -/
def GatewayConfig.provisioningUrlHash (cfg : GatewayConfig) (url : String) : String :=
  cfg.sha256 ((cfg.normalizeUrl url).getD url)

/-! ## Paths -/

def pathSegments (pathname : String) : List String :=
  (pathname.toList.splitOn '/').map String.ofList

/-- `/v1/auth/<engine>/sessions`. -/
def authSessionCollection (pathname : String) : Option String :=
  match pathSegments pathname with
  | root :: version :: auth :: engine :: sessions :: rest =>
    if [root, version, auth, sessions] = ["", "v1", "auth", "sessions"] ∧ engine ≠ "" ∧
      (rest = [] ∨ rest = [""]) then some engine else none
  | _ => none

/-- `/v1/auth/<engine>/sessions/<sessionId>`. -/
def authSessionResource (pathname : String) : Option (String × String) :=
  match pathSegments pathname with
  | root :: version :: auth :: engine :: sessions :: sessionId :: rest =>
    if [root, version, auth, sessions] = ["", "v1", "auth", "sessions"] ∧ engine ≠ "" ∧
      sessionId ≠ "" ∧ (rest = [] ∨ rest = [""]) then some (engine, sessionId) else none
  | _ => none

/-! ## Operations -/

structure IssueOptions where
  url : String
  accountName : String
  engine : String
  workspaceId : Option String

/-- The generation to issue, `none` if there is none left. -/
def nextGeneration (latest : Option String) (uuid : Uuidv7) : Option String :=
  match latest with
  | some latest =>
    if uuid.fresh ≤ latest then
      let nextTimestamp := provisioningGenerationTimestamp latest + 1
      if nextTimestamp > MAX_TIMESTAMP then none else some (uuid.ofMsecs nextTimestamp)
    else some uuid.fresh
  | none => some uuid.fresh

namespace Store

def bindings (s : Store) : Bindings := s.proxy.issuedProvisioningBindings

/-- The bindings are saved; else they are what they were, and the caller throws. -/
def saveIssued (s : Store) (latestGeneration : Option String) (bindings : Bindings)
    (saved : Bool) : Store × Bool :=
  if saved then
    ({ files := { s.files with issued := .saved ⟨latestGeneration, bindings.latest⟩ }
       proxy := { s.proxy with issuedProvisioningBindings := bindings } }, true)
  else (s, false)

/-- `issueProvisioningGeneration`, `none` if it throws. The clock is read twice. -/
def issueProvisioningGeneration (cfg : GatewayConfig) (s : Store) (options : IssueOptions)
    (uuid : Uuidv7) (issuedAt now : Int) (saved : Bool) :
    Store × Option IssuedProvisioningBinding :=
  match nextGeneration s.proxy.latestIssuedProvisioningGeneration uuid with
  | none => (s, none)
  | some generation =>
    let binding : IssuedProvisioningBinding := {
      generation
      urlHash := cfg.provisioningUrlHash options.url
      accountName := options.accountName
      engine := options.engine
      expiresAt := issuedAt + cfg.authSessionTtlMs + cfg.connectTimeoutMs
      sessionId := none
      workspaceId := options.workspaceId.filter (· ≠ "") }
    let unexpired := s.bindings.unexpired now
    if MAX_ISSUED_BINDINGS ≤ unexpired.length then
      ({ s with proxy.issuedProvisioningBindings := unexpired }, none)
    else
      match s.saveIssued (some generation) (unexpired.set binding) saved with
      | (s, true) =>
        ({ s with proxy.latestIssuedProvisioningGeneration := some generation }, some binding)
      | (s, false) => (s, none)

/-- The binding with the session that the body of a response names, if it is a valid one. -/
def finalized (cfg : GatewayConfig) (binding : IssuedProvisioningBinding) (body : List UInt8)
    (now : Int) : Option IssuedProvisioningBinding :=
  match cfg.parseSession body with
  | some (some sessionId, some expiresAt) =>
    if validSessionId sessionId ∧ now < expiresAt ∧ expiresAt ≤ binding.expiresAt then
      some { binding with sessionId := some sessionId, expiresAt }
    else none
  | _ => none

/-- The entry of this generation is dropped, if it has the account and the engine. -/
def dropSuperseded (bindings : Bindings) (binding : IssuedProvisioningBinding)
    (supersededGeneration : Option String) : Bindings :=
  match supersededGeneration with
  | none => bindings
  | some superseded =>
    if superseded ≠ binding.generation ∧ (bindings.get superseded).any (fun b =>
      b.accountName == binding.accountName && b.engine == binding.engine) then
      bindings.delete superseded
    else bindings

/-- `bindIssuedGenerationToSession`, `none` if it throws. -/
def bindIssuedGenerationToSession (cfg : GatewayConfig) (s : Store)
    (binding : IssuedProvisioningBinding) (body : List UInt8)
    (supersededGeneration : Option String) (now : Int) (saved : Bool) : Store × Option Bool :=
  if s.bindings.get binding.generation ≠ some binding then (s, some false)
  else match finalized cfg binding body now with
    | none => (s, some false)
    | some finalized =>
      match s.saveIssued s.proxy.latestIssuedProvisioningGeneration
        (dropSuperseded (s.bindings.set finalized) binding supersededGeneration) saved with
      | (s, true) => (s, some true)
      | (s, false) => (s, none)

/-- `releaseIssuedBindings`; the second component says that it does not throw. -/
def releaseIssuedBindings (s : Store) (predicate : IssuedProvisioningBinding → Bool)
    (saved : Bool) : Store × Bool :=
  if s.bindings.any predicate then
    s.saveIssued s.proxy.latestIssuedProvisioningGeneration
      (s.bindings.filter fun b => !predicate b) saved
  else (s, true)

def releaseIssuedSession (s : Store) (accountName engine sessionId : String) (saved : Bool) :
    Store × Bool :=
  s.releaseIssuedBindings (fun b =>
    b.accountName == accountName && b.engine == engine && b.sessionId == some sessionId) saved

def releaseWorkerResponseBindings (s : Store) (issuedBinding : Option IssuedProvisioningBinding)
    (accountName : String) (engine supersededGeneration : Option String) (saved : Bool) :
    Store × Bool :=
  s.releaseIssuedBindings (fun b =>
    some b == issuedBinding || (some b.generation == supersededGeneration
      && b.accountName == accountName && some b.engine == engine)) saved

def releaseIssuedGeneration (s : Store) (binding : IssuedProvisioningBinding) (saved : Bool) :
    Store × Bool :=
  if s.bindings.get binding.generation ≠ some binding then (s, true)
  else s.releaseIssuedBindings (· == binding) saved

/-- The binding that a notification is relayed for. -/
def relayed (cfg : GatewayConfig) (s : Store) (url generation accountName requestPath : String)
    (now : Int) : Option IssuedProvisioningBinding :=
  (s.bindings.get generation).filter fun b =>
    b.sessionId.isSome && now < b.expiresAt && b.accountName == accountName
      && authSessionResource requestPath == b.sessionId.map (b.engine, ·)
      && b.urlHash == cfg.provisioningUrlHash url && cfg.checkUrlAllowed url

/-- `relayProvisioningNotification`, with the binding that the callback is called for. -/
def relayProvisioningNotification (cfg : GatewayConfig) (s : Store)
    (url generation accountName requestPath : String) (now : Int) (saved : Bool) :
    Store × Option IssuedProvisioningBinding :=
  match s.relayed cfg url generation accountName requestPath now with
  | none => (s, none)
  | some binding =>
    if s.proxy.latestProvisioningGeneration.any (fun latest => decide (generation < latest)) then
      (s, none)
    else if IssuedProvisioningState.isNewer generation s.proxy.latestProvisioningGeneration then
      -- what is not saved is not relayed
      if saved then
        ({ files := { s.files with notification := some generation }
           proxy := { s.proxy with latestProvisioningGeneration := some generation } },
          some binding)
      else (s, none)
    else (s, some binding)

end Store

end CliProxy.WorkerProxy
