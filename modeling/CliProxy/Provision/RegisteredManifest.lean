import CliProxy.Adapter.JsonParse
import CliProxy.Lib.Base64Url
import CliProxy.Lib.Utf8
import Mathlib

/-! # The registered manifest URL

`saveRegisteredManifestUrl` and `loadRegisteredManifestUrl` of `src/provision/state.ts`: the record
that holds the encrypted URL, byte by byte. -/

namespace CliProxy.Provision

open Adapter (Json parseJson stringify)
open Lib (utf8Encode utf8Decode)
open Lib.Base64 (encodeUrl decodeUrl isUrlChar)

/-! ## The source -/

abbrev Buffer := List UInt8

def MAX_REGISTERED_MANIFEST_BYTES : Nat := 16 * 1024
def MAX_REGISTERED_MANIFEST_URL_BYTES : Nat := 8 * 1024

def MANIFEST_CIPHER_AAD : Buffer := utf8Encode "cli-openai-proxy/provision-manifest/v1".toList

/-- What is used of the platform. -/
structure ManifestPlatform where
  /-- `scryptSync(key, salt, 32)` -/
  scrypt : List Char → Buffer → Buffer
  /-- AES-256-GCM under a key, an IV and additional data: the ciphertext and its tag. -/
  encrypt : Buffer → Buffer → Buffer → Buffer → Buffer × Buffer
  /-- The inverse of `encrypt`, `none` if `final` throws. -/
  decrypt : Buffer → Buffer → Buffer → Buffer × Buffer → Option Buffer
  /-- The text that `String` makes of a number text. -/
  number : List Char → String
  decrypt_encrypt : ∀ key iv aad plain, decrypt key iv aad (encrypt key iv aad plain) = some plain
  length_encrypt : ∀ key iv aad plain, (encrypt key iv aad plain).1.length = plain.length
  length_tag : ∀ key iv aad plain, (encrypt key iv aad plain).2.length = 16
  number_one : number "1".toList = "1"

/-- What `saveRegisteredManifestUrl` throws. -/
inductive SaveError where
  | error (message : String)
  | provisionError (message code : String)
  /-- The file system refuses. -/
  | fileSystem
  deriving DecidableEq

/-- What `randomBytes` returned. -/
structure Nonces where
  salt : Buffer
  iv : Buffer
  length_salt : salt.length = 16
  length_iv : iv.length = 12

section

variable (P : ManifestPlatform)

def encryptUrl (nonces : Nonces) (url key : List Char) : Buffer × Buffer :=
  P.encrypt (P.scrypt key nonces.salt) nonces.iv MANIFEST_CIPHER_AAD (utf8Encode url)

def manifestRecord (nonces : Nonces) (url key : List Char) : Json :=
  let encrypted := encryptUrl P nonces url key
  .obj [("version", .num "1"),
    ("salt", .str (String.ofList (encodeUrl nonces.salt))),
    ("iv", .str (String.ofList (encodeUrl nonces.iv))),
    ("tag", .str (String.ofList (encodeUrl encrypted.2))),
    ("ciphertext", .str (String.ofList (encodeUrl encrypted.1)))]

def manifestFile (nonces : Nonces) (url key : List Char) : Buffer :=
  utf8Encode (stringify (manifestRecord P nonces url key) ++ ['\n'])

/-- What is thrown, and the file after it. The file changes with the `renameSync` only;
`fileSystem` tells whether it and what is done before it succeed. -/
def saveRegisteredManifestUrl (nonces : Nonces) (fileSystem : Bool) (url : List Char)
    (key : Option (List Char)) (file : Option Buffer) : Option SaveError × Option Buffer :=
  match key.filter (· ≠ []) with
  | none =>
    (some (.error "Cannot persist an auth-delivered manifest URL without an auth-admin key."), file)
  | some key =>
    if MAX_REGISTERED_MANIFEST_URL_BYTES < (utf8Encode url).length then
      (some (.provisionError "Manifest URL is too long to persist." "invalid_provisioning_url"), file)
    else if fileSystem then (none, some (manifestFile P nonces url key))
    else (some .fileSystem, file)

def isVersion1 : Option Json → Bool
  | some (.num text) => text = "1"
  | _ => false

def decodeField (value : Option Json) (expectedBytes : Option Nat) : Option Buffer :=
  match value with
  | some (.str s) =>
    let decoded := decodeUrl s.toList
    if s.toList ≠ [] ∧ s.toList.all isUrlChar ∧ expectedBytes.all (· = decoded.length) then
      some decoded
    else none
  | _ => none

/-- What a key opens. -/
def openUrl (salt iv : Buffer) (encrypted : Buffer × Buffer) (key : List Char) : Option (List Char) :=
  (P.decrypt (P.scrypt key salt) iv MANIFEST_CIPHER_AAD encrypted).bind fun plain =>
    let url := utf8Decode plain
    if url ≠ [] ∧ (utf8Encode url).length ≤ MAX_REGISTERED_MANIFEST_BYTES then some url else none

def openRecord (keys : List (List Char)) (record : Json) : Option (List Char) :=
  match record with
  | .obj _ =>
    if isVersion1 (record.get "version") then
      match decodeField (record.get "salt") (some 16), decodeField (record.get "iv") (some 12),
        decodeField (record.get "tag") (some 16), decodeField (record.get "ciphertext") none with
      | some salt, some iv, some tag, some ciphertext =>
        if ciphertext = [] then none else keys.findSome? (openUrl P salt iv (ciphertext, tag))
      | _, _, _, _ => none
    else none
  | _ => none

def loadRegisteredManifestUrl (keys : List (List Char)) (file : Option Buffer) :
    Option (List Char) :=
  match file with
  | none => none
  | some bytes =>
    if MAX_REGISTERED_MANIFEST_BYTES < bytes.length then none
    else (parseJson P.number (utf8Decode bytes)).bind (openRecord P keys)

end

/-! ## The record is read back -/

variable {P : ManifestPlatform} {nonces : Nonces} {url key : List Char}

theorem decodeField_encodeUrl {bytes : Buffer} (expectedBytes : Option Nat) (hne : bytes ≠ [])
    (hexpected : ∀ n, expectedBytes = some n → bytes.length = n) :
    decodeField (some (.str (String.ofList (encodeUrl bytes)))) expectedBytes = some bytes := by
  have hdecode := Lib.Base64.decodeUrl_encodeUrl bytes
  have htext : encodeUrl bytes ≠ [] := by
    intro h
    rw [h] at hdecode
    exact hne hdecode.symm
  have hchars : (encodeUrl bytes).all isUrlChar = true :=
    List.all_eq_true.mpr (Lib.Base64.isUrlChar_encodeUrl bytes)
  have hlength : expectedBytes.all (· = bytes.length) = true := by
    cases expectedBytes with
    | none => rfl
    | some n => exact decide_eq_true (hexpected n rfl).symm
  rw [decodeField]
  simp only [String.toList_ofList, hdecode]
  exact if_pos ⟨htext, hchars, hlength⟩

theorem canonical_manifestRecord (P : ManifestPlatform) (nonces : Nonces) (url key : List Char) :
    Adapter.Canonical P.number (manifestRecord P nonces url key) :=
  ⟨by simp, ⟨rfl, P.number_one⟩, trivial, trivial, trivial, trivial, trivial⟩

theorem parse_manifestFile (P : ManifestPlatform) (nonces : Nonces) (url key : List Char) :
    parseJson P.number (utf8Decode (manifestFile P nonces url key)) =
      some (manifestRecord P nonces url key) := by
  rw [manifestFile, Lib.utf8Decode_encode]
  exact Adapter.parseJson_stringify (canonical_manifestRecord P nonces url key)
    (List.forall_mem_singleton.mpr rfl)

theorem openRecord_manifestRecord (keys : List (List Char)) (hurl : url ≠ []) :
    openRecord P keys (manifestRecord P nonces url key) =
      keys.findSome? (openUrl P nonces.salt nonces.iv (encryptUrl P nonces url key)) := by
  have hsalt := nonces.length_salt
  have hiv := nonces.length_iv
  have htag : (encryptUrl P nonces url key).2.length = 16 := P.length_tag ..
  have hcipher : (encryptUrl P nonces url key).1.length = (utf8Encode url).length :=
    P.length_encrypt ..
  have hbytes : (utf8Encode url).length ≠ 0 := by
    intro h
    have hdecode := Lib.utf8Decode_encode url
    rw [List.eq_nil_of_length_eq_zero h] at hdecode
    exact hurl hdecode.symm
  have hne : ∀ {bytes : Buffer} {n : Nat}, bytes.length = n → n ≠ 0 → bytes ≠ [] := by
    rintro bytes n rfl hn rfl
    exact hn rfl
  have hsaltField := decodeField_encodeUrl (some 16) (hne hsalt (by decide))
    fun _ h => Option.some.inj h ▸ hsalt
  have hivField := decodeField_encodeUrl (some 12) (hne hiv (by decide))
    fun _ h => Option.some.inj h ▸ hiv
  have htagField := decodeField_encodeUrl (some 16) (hne htag (by decide))
    fun _ h => Option.some.inj h ▸ htag
  have hcipherField := decodeField_encodeUrl none (hne hcipher hbytes)
    fun _ h => absurd h.symm (Option.some_ne_none _)
  have hcipherNe : (encryptUrl P nonces url key).1 ≠ [] := hne hcipher hbytes
  simp only [openRecord, manifestRecord, Json.get, List.lookup, String.reduceBEq, isVersion1,
    decide_true, if_true, hsaltField, hivField, htagField, hcipherField, if_neg hcipherNe]

/-! ## The size of the file -/

theorem isUrlChar_bounds {c : Char} (h : isUrlChar c = true) :
    45 ≤ c.toNat ∧ c.toNat ≤ 122 ∧ c ≠ '\\' := by
  have hne : c ≠ '\\' := by
    rintro rfl
    cases h
  simp only [isUrlChar, Bool.or_eq_true, Bool.and_eq_true, decide_eq_true_eq] at h
  rcases h with (((h | h) | h) | rfl) | rfl
  · exact ⟨by omega, by omega, hne⟩
  · exact ⟨by omega, by omega, hne⟩
  · exact ⟨by omega, by omega, hne⟩
  · decide
  · decide

theorem escapeJson_urlChar {c : Char} (h : isUrlChar c = true) : Adapter.escapeJson c = [c] := by
  obtain ⟨hlower, -, hescape⟩ := isUrlChar_bounds h
  have hquote : c ≠ '"' := by
    rintro rfl
    cases h
  unfold Adapter.escapeJson
  rw [if_neg (by simp [hquote, hescape]), if_neg (by omega), if_neg (by omega), if_neg (by omega),
    if_neg (by omega), if_neg (by omega), if_neg (by omega)]

theorem flatMap_escapeJson {text : List Char} (h : ∀ c ∈ text, isUrlChar c = true) :
    text.flatMap Adapter.escapeJson = text := by
  induction text with
  | nil => rfl
  | cons c text ih =>
    rw [List.forall_mem_cons] at h
    rw [List.flatMap_cons, ih h.2, escapeJson_urlChar h.1, List.singleton_append]

theorem quoteJson_encodeUrl (bytes : Buffer) :
    Adapter.quoteJson (String.ofList (encodeUrl bytes)) = '"' :: (encodeUrl bytes ++ ['"']) := by
  rw [Adapter.quoteJson, String.toList_ofList,
    flatMap_escapeJson (Lib.Base64.isUrlChar_encodeUrl bytes)]

theorem stringify_manifestRecord (P : ManifestPlatform) (nonces : Nonces) (url key : List Char) :
    stringify (manifestRecord P nonces url key) =
      "\x7b\"version\":1,\"salt\":\"".toList ++ (encodeUrl nonces.salt ++
        ("\",\"iv\":\"".toList ++ (encodeUrl nonces.iv ++
          ("\",\"tag\":\"".toList ++ (encodeUrl (encryptUrl P nonces url key).2 ++
            ("\",\"ciphertext\":\"".toList ++ (encodeUrl (encryptUrl P nonces url key).1 ++
              "\"\x7d".toList))))))) := by
  simp only [manifestRecord, stringify, Adapter.stringifyFields, quoteJson_encodeUrl,
    List.cons_append, List.append_assoc, List.nil_append]
  rfl

theorem ascii_manifestText (P : ManifestPlatform) (nonces : Nonces) (url key : List Char) :
    ∀ c ∈ stringify (manifestRecord P nonces url key) ++ ['\n'], c.toNat < 128 := by
  have hliteral {text : List Char} (h : text.all (fun c => decide (c.toNat < 128)) = true) :
      ∀ c ∈ text, c.toNat < 128 := fun c hc => of_decide_eq_true (List.all_eq_true.mp h c hc)
  have hfield : ∀ bytes : Buffer, ∀ c ∈ encodeUrl bytes, c.toNat < 128 := by
    intro bytes c hc
    have := isUrlChar_bounds (Lib.Base64.isUrlChar_encodeUrl bytes c hc)
    omega
  rw [stringify_manifestRecord]
  simp only [List.forall_mem_append]
  exact ⟨⟨hliteral rfl, hfield _, hliteral rfl, hfield _, hliteral rfl, hfield _, hliteral rfl,
    hfield _, hliteral rfl⟩, hliteral rfl⟩

theorem length_manifestFile (P : ManifestPlatform) (nonces : Nonces) (url key : List Char) :
    (manifestFile P nonces url key).length = 117 + (4 * (utf8Encode url).length + 2) / 3 := by
  have hcipher : (encryptUrl P nonces url key).1.length = (utf8Encode url).length :=
    P.length_encrypt ..
  have htag : (encryptUrl P nonces url key).2.length = 16 := P.length_tag ..
  rw [manifestFile, Lib.length_utf8Encode_ascii (ascii_manifestText P nonces url key),
    stringify_manifestRecord]
  simp only [List.length_append, Lib.Base64.length_encodeUrl, hcipher, htag, nonces.length_salt,
    nonces.length_iv]
  simp
  omega

/-! ## What was saved is loaded -/

/-- No key of the list opens the record unless it derives the key of the record. -/
def Authentic (P : ManifestPlatform) (nonces : Nonces) (url key : List Char)
    (keys : List (List Char)) : Prop :=
  ∀ k ∈ keys, (P.decrypt (P.scrypt k nonces.salt) nonces.iv MANIFEST_CIPHER_AAD
    (encryptUrl P nonces url key)).isSome = true → P.scrypt k nonces.salt = P.scrypt key nonces.salt

theorem openUrl_own {k : List Char} (hurl : url ≠ [])
    (hlength : (utf8Encode url).length ≤ MAX_REGISTERED_MANIFEST_URL_BYTES)
    (hk : P.scrypt k nonces.salt = P.scrypt key nonces.salt) :
    openUrl P nonces.salt nonces.iv (encryptUrl P nonces url key) k = some url := by
  have hmax : (utf8Encode url).length ≤ MAX_REGISTERED_MANIFEST_BYTES :=
    hlength.trans (by decide)
  rw [openUrl, hk, encryptUrl, P.decrypt_encrypt, Option.bind_some, Lib.utf8Decode_encode]
  exact if_pos ⟨hurl, hmax⟩

theorem openUrl_other {k : List Char} (h : ¬(P.decrypt (P.scrypt k nonces.salt) nonces.iv
      MANIFEST_CIPHER_AAD (encryptUrl P nonces url key)).isSome = true) :
    openUrl P nonces.salt nonces.iv (encryptUrl P nonces url key) k = none := by
  rw [openUrl, Option.not_isSome_iff_eq_none.mp h, Option.bind_none]

theorem findSome?_openUrl {keys : List (List Char)} (hurl : url ≠ [])
    (hlength : (utf8Encode url).length ≤ MAX_REGISTERED_MANIFEST_URL_BYTES) (hkey : key ∈ keys)
    (hauth : Authentic P nonces url key keys) :
    keys.findSome? (openUrl P nonces.salt nonces.iv (encryptUrl P nonces url key)) = some url := by
  induction keys with
  | nil => cases hkey
  | cons k keys ih =>
    rw [List.findSome?_cons]
    by_cases hopens : (P.decrypt (P.scrypt k nonces.salt) nonces.iv MANIFEST_CIPHER_AAD
      (encryptUrl P nonces url key)).isSome = true
    · rw [openUrl_own hurl hlength (hauth k (.head _) hopens)]
    · rw [openUrl_other hopens]
      rcases List.mem_cons.mp hkey with rfl | hkey
      · rw [encryptUrl, P.decrypt_encrypt] at hopens
        exact absurd rfl hopens
      · exact ih hkey fun k hk => hauth k (.tail _ hk)

theorem length_manifestFile_le
    (hlength : (utf8Encode url).length ≤ MAX_REGISTERED_MANIFEST_URL_BYTES) :
    (manifestFile P nonces url key).length ≤ MAX_REGISTERED_MANIFEST_BYTES := by
  rw [length_manifestFile]
  unfold MAX_REGISTERED_MANIFEST_URL_BYTES at hlength
  unfold MAX_REGISTERED_MANIFEST_BYTES
  omega

theorem loadRegisteredManifestUrl_manifestFile {keys : List (List Char)} (hurl : url ≠ [])
    (hlength : (utf8Encode url).length ≤ MAX_REGISTERED_MANIFEST_URL_BYTES) (hkey : key ∈ keys)
    (hauth : Authentic P nonces url key keys) :
    loadRegisteredManifestUrl P keys (some (manifestFile P nonces url key)) = some url := by
  unfold loadRegisteredManifestUrl
  dsimp only
  rw [if_neg (Nat.not_lt.mpr (length_manifestFile_le hlength)), parse_manifestFile, Option.bind_some,
    openRecord_manifestRecord keys hurl, findSome?_openUrl hurl hlength hkey hauth]

/-- A save that throws leaves the file alone, and it throws exactly for a missing key, a URL that
is too long and a file system that refuses. Else the file is small enough and every list of keys
that holds the key loads the URL. -/
theorem registeredManifestUrl_readable (P : ManifestPlatform) (nonces : Nonces) (fileSystem : Bool)
    {url : List Char} (hurl : url ≠ []) (key : Option (List Char)) (file : Option Buffer) :
    let saved := saveRegisteredManifestUrl P nonces fileSystem url key file
    (saved.1 = none ↔ (key ≠ none ∧ key ≠ some []) ∧
      (utf8Encode url).length ≤ MAX_REGISTERED_MANIFEST_URL_BYTES ∧ fileSystem = true) ∧
    (saved.1 ≠ none → saved.2 = file) ∧
    (saved.1 = none → ∃ k bytes, key = some k ∧ saved.2 = some bytes ∧
      bytes.length ≤ MAX_REGISTERED_MANIFEST_BYTES ∧
      ∀ keys, k ∈ keys → Authentic P nonces url k keys →
        loadRegisteredManifestUrl P keys (some bytes) = some url) := by
  dsimp only
  unfold saveRegisteredManifestUrl
  have hfilter : key.filter (· ≠ []) = none ↔ ¬(key ≠ none ∧ key ≠ some []) := by
    cases key <;> simp
  cases hkey : key.filter (· ≠ []) with
  | none =>
    refine ⟨iff_of_false (Option.some_ne_none _) fun h => hfilter.mp hkey h.1, fun _ => rfl, ?_⟩
    exact fun h => absurd h (Option.some_ne_none _)
  | some k =>
    have hpresent : key ≠ none ∧ key ≠ some [] :=
      not_not.mp fun h => Option.some_ne_none k (hkey.symm.trans (hfilter.mpr h))
    have hk : key = some k := (Option.filter_eq_some_iff.mp hkey).1
    dsimp only
    split
    next hlong =>
      refine ⟨iff_of_false (Option.some_ne_none _) fun h => Nat.not_lt.mpr h.2.1 hlong,
        fun _ => rfl, ?_⟩
      exact fun h => absurd h (Option.some_ne_none _)
    next hshort =>
      have hlength := Nat.not_lt.mp hshort
      cases fileSystem with
      | false =>
        refine ⟨iff_of_false (Option.some_ne_none _) fun h => Bool.false_ne_true h.2.2,
          fun _ => rfl, ?_⟩
        exact fun h => absurd h (Option.some_ne_none _)
      | true =>
        refine ⟨iff_of_true rfl ⟨hpresent, hlength, rfl⟩, fun h => absurd rfl h, fun _ => ?_⟩
        exact ⟨k, _, hk, rfl, length_manifestFile_le hlength, fun keys hmem hauth =>
          loadRegisteredManifestUrl_manifestFile hurl hlength hmem hauth⟩

/-! ## An example -/

def exampleUrl : List Char := "https://a.example/é.json".toList

def exampleNonces : Nonces :=
  ⟨(List.range 16).map UInt8.ofNat, (List.range 12).map UInt8.ofNat, by decide, by decide⟩

def adminKey : Buffer :=
  [0xfe, 0x13, 0xcf, 0x73, 0x7d, 0x69, 0x01, 0x2f, 0xeb, 0x47, 0x85, 0xbf, 0x68, 0x67, 0xcd, 0xa3,
   0x8d, 0xf3, 0x7d, 0x73, 0xdb, 0x06, 0xea, 0xb4, 0xa1, 0x8a, 0x90, 0x43, 0x90, 0x96, 0x66, 0xbf]

def otherKey : Buffer :=
  [0x32, 0xe2, 0xa9, 0x37, 0xa0, 0x6b, 0xfe, 0xaa, 0x56, 0x4b, 0x1f, 0xa5, 0xe3, 0x3b, 0x79, 0x67,
   0x41, 0x64, 0x76, 0xb9, 0x07, 0xe2, 0x97, 0xc4, 0x4b, 0xb5, 0x72, 0xd8, 0x6b, 0xd2, 0x6e, 0xae]

def exampleEncrypted : Buffer × Buffer :=
  ([0x3a, 0xf9, 0x58, 0xc7, 0xd8, 0x4d, 0x35, 0x95, 0x50, 0xa6, 0x88, 0xae, 0xb0, 0x36, 0xfa, 0x01,
   0xa9, 0xbb, 0xff, 0xb2, 0xb6, 0xdf, 0x2e, 0x5d, 0x0b],
   [0x10, 0x58, 0x81, 0xaf, 0xcd, 0xcc, 0xbe, 0xfe, 0x62, 0xee, 0xcd, 0xcf, 0x69, 0xde, 0xb9, 0xcf])

/-- The keys of two texts, and what the first of them makes of the example URL. -/
def examplePlatform : ManifestPlatform where
  scrypt key salt :=
    if salt = exampleNonces.salt then
      if key = "admin-key".toList then adminKey
      else if key = "new-key".toList then otherKey else []
    else []
  encrypt key iv aad plain :=
    if key = adminKey ∧ iv = exampleNonces.iv ∧ aad = MANIFEST_CIPHER_AAD ∧
      plain = utf8Encode exampleUrl then exampleEncrypted
    else (plain, List.replicate 16 0)
  decrypt key iv aad encrypted :=
    if encrypted = exampleEncrypted then
      if key = adminKey ∧ iv = exampleNonces.iv ∧ aad = MANIFEST_CIPHER_AAD then
        some (utf8Encode exampleUrl)
      else none
    else some encrypted.1
  number := String.ofList
  decrypt_encrypt key iv aad plain := by
    have hzeros : List.replicate 16 0 ≠ exampleEncrypted.2 := by decide
    have htag : (plain, List.replicate 16 0) ≠ exampleEncrypted := fun h => hzeros (h ▸ rfl)
    by_cases h : key = adminKey ∧ iv = exampleNonces.iv ∧ aad = MANIFEST_CIPHER_AAD ∧
      plain = utf8Encode exampleUrl
    · rw [if_pos h, if_pos rfl, if_pos ⟨h.1, h.2.1, h.2.2.1⟩, h.2.2.2]
    · rw [if_neg h, if_neg htag]
  length_encrypt key iv aad plain := by
    split
    next h =>
      rw [h.2.2.2]
      decide +kernel
    next => rfl
  length_tag key iv aad plain := by
    split
    next => rfl
    next => exact List.length_replicate
  number_one := rfl

/-- The URL is loaded after another key has been put before the one it was saved with. -/
theorem registeredManifestUrl_readable_rotated :
    loadRegisteredManifestUrl examplePlatform ["new-key".toList, "admin-key".toList]
      (saveRegisteredManifestUrl examplePlatform exampleNonces true exampleUrl
        (some "admin-key".toList) none).2 = some exampleUrl := by
  have hurl : exampleUrl ≠ [] := List.cons_ne_nil _ _
  obtain ⟨k, bytes, hk, hbytes, -, hload⟩ := (registeredManifestUrl_readable examplePlatform
    exampleNonces true hurl (some "admin-key".toList) none).2.2 (by decide +kernel)
  obtain rfl := Option.some.inj hk
  rw [hbytes]
  refine hload _ (.tail _ (.head _)) ?_
  refine List.forall_mem_cons.mpr ⟨fun h => absurd h ?_, List.forall_mem_singleton.mpr fun _ => rfl⟩
  decide +kernel

end CliProxy.Provision
