import CliProxy.Lib.UrlRoundTrip
import CliProxy.Provision.Manifest

/-! # What an accepted manifest looks like

A git source that `parseManifest` accepts is read back from the lockfile and from a manifest
(`GitForm`), and the clone URL of a GitHub directory passes `validateGitRepositoryUrl` unless the
policy objects (`LeavesToPolicy`). The URL of another git source is not looked at before that. -/

namespace CliProxy.Provision

open Adapter (Json)
open Lib (Platform Url HttpUrl)
open UrlPolicy (Text Thrown)

variable {P : Platform}

/-! ## Clone URLs -/

theorem uriComponentSet_bounds {c : Char} (h : uriComponentSet c = false) :
    Lib.Visible c ∧ c ∉ ['/', '\\', '?', '#', '%'] := by
  have hne : ∀ d, uriComponentSet d = true → c ≠ d := fun d hd => Lib.ne_of_set hd h
  refine ⟨?_, by simp [hne '/' rfl, hne '\\' rfl, hne '?' rfl, hne '#' rfl, hne '%' rfl]⟩
  rw [uriComponentSet, Bool.not_eq_false', Bool.or_eq_true] at h
  rcases h with h | h
  · have hval : c.val.toNat = c.toNat := rfl
    simp only [Char.isAlphanum, Char.isAlpha, Lib.isUpper_iff, Lib.isLower_iff, Char.isDigit,
      Bool.or_eq_true, Bool.and_eq_true, decide_eq_true_eq, ge_iff_le, UInt32.le_iff_toNat_le,
      hval] at h
    have h5 : ('0' : Char).val.toNat = 48 := rfl
    have h6 : ('9' : Char).val.toNat = 57 := rfl
    constructor <;> omega
  · simp only [List.contains_iff_mem, List.mem_cons, List.not_mem_nil, or_false] at h
    rcases h with rfl | rfl | rfl | rfl | rfl | rfl | rfl | rfl | rfl <;> decide

theorem mem_encodeURIComponent {c : Char} {text : Text} (h : c ∈ encodeURIComponent text) :
    Lib.Visible c ∧ c ∉ ['/', '\\', '?', '#'] := by
  rcases Lib.mem_percentEncode h with h | ⟨h, -⟩
  · have := Lib.isPercentChar_bounds h
    refine ⟨by constructor <;> omega, ?_⟩
    intro hmem
    simp only [List.mem_cons, List.not_mem_nil, or_false] at hmem
    rcases hmem with rfl | rfl | rfl | rfl <;> simp at this
  · obtain ⟨hvisible, hne⟩ := uriComponentSet_bounds h
    refine ⟨hvisible, fun hmem => hne ?_⟩
    exact List.mem_append_left ['%'] hmem

def githubHost : Text := ['g', 'i', 't', 'h', 'u', 'b', '.', 'c', 'o', 'm']

def gitSuffix : Text := ['.', 'g', 'i', 't']

/-- The segments of a clone URL. -/
def cloneSegments (owner repository : Text) : List Text :=
  [encodeURIComponent owner, encodeURIComponent (withoutGit repository) ++ gitSuffix]

theorem mem_cloneSegments {owner repository segment : Text} {c : Char}
    (h : segment ∈ cloneSegments owner repository) (hc : c ∈ segment) :
    Lib.Visible c ∧ c ∉ ['/', '\\', '?', '#'] := by
  have hgit : ∀ d ∈ gitSuffix, Lib.Visible d ∧ d ∉ ['/', '\\', '?', '#'] := by
    simp [gitSuffix, Lib.Visible]
  simp only [cloneSegments, List.mem_cons, List.not_mem_nil, or_false] at h
  rcases h with rfl | rfl
  · exact mem_encodeURIComponent hc
  · rcases List.mem_append.mp hc with hc | hc
    · exact mem_encodeURIComponent hc
    · exact hgit c hc

/-- The record of a clone URL, up to the path. -/
def cloneRecord (path : List Text) : HttpUrl where
  scheme := Lib.httpsScheme
  username := []
  password := []
  host := githubHost
  port := none
  path := path
  query := none
  fragment := none

theorem cloneRecord_rooted (hhost : P.host githubHost = some githubHost) {path : List Text}
    (hpath : ∀ segment ∈ path, Lib.NormalSegment segment) : (cloneRecord path).Rooted P where
  scheme := .inr rfl
  username := List.forall_mem_nil _
  password := List.forall_mem_nil _
  host := hhost
  port := fun _ h => absurd h.symm (Option.some_ne_none _)
  path := hpath
  query := fun _ h => absurd h.symm (Option.some_ne_none _)
  fragment := fun _ h => absurd h.symm (Option.some_ne_none _)

theorem cloneUrl_eq (owner repository : Text) : cloneUrl owner repository =
    Lib.httpsScheme ++ ':' :: '/' :: '/' :: (githubHost ++
      (cloneSegments owner repository).flatMap ('/' :: ·)) := by
  have horigin : "https://github.com/".toList =
      Lib.httpsScheme ++ ':' :: '/' :: '/' :: (githubHost ++ ['/']) := by
    simp [Lib.httpsScheme, githubHost]
  have hgit : ".git".toList = gitSuffix := by simp [gitSuffix]
  unfold cloneUrl
  rw [horigin, hgit]
  simp [cloneSegments]

theorem mem_cloneUrl {owner repository : Text} {c : Char} (h : c ∈ cloneUrl owner repository) :
    Lib.Visible c ∧ c ≠ '\\' := by
  have horigin : ∀ d ∈ Lib.httpsScheme ++ ':' :: '/' :: '/' :: githubHost,
      Lib.Visible d ∧ d ≠ '\\' := by simp [Lib.httpsScheme, githubHost, Lib.Visible]
  have hsplit : cloneUrl owner repository = (Lib.httpsScheme ++ ':' :: '/' :: '/' :: githubHost) ++
      (cloneSegments owner repository).flatMap ('/' :: ·) := by
    rw [cloneUrl_eq]
    simp only [List.append_assoc, List.cons_append]
  rw [hsplit] at h
  rcases List.mem_append.mp h with h | h
  · exact horigin c h
  · obtain ⟨segment, hsegment, hc⟩ := List.mem_flatMap.mp h
    rcases List.mem_cons.mp hc with rfl | hc
    · decide
    · obtain ⟨hvisible, hne⟩ := mem_cloneSegments hsegment hc
      refine ⟨hvisible, ?_⟩
      rintro rfl
      exact hne (by simp)

theorem parse_cloneUrl (hhost : P.host githubHost = some githubHost) (owner repository : Text) :
    ∃ path, Url.parse P (cloneUrl owner repository) none = some (.http (cloneRecord path)) ∧
      (cloneRecord path).Normal P ∧ path.length ≤ 2 := by
  set segments := cloneSegments owner repository with hdef
  have R : (cloneRecord []).Rooted P := cloneRecord_rooted hhost (List.forall_mem_nil _)
  have hauthority : (cloneRecord []).authority = githubHost := by
    simp [cloneRecord, HttpUrl.authority, HttpUrl.credentials]
  have hplain : ∀ segment ∈ segments, ∀ c ∈ segment,
      Lib.isSlash c = false ∧ Lib.endsPath c = false := by
    intro segment h c hc
    obtain ⟨-, hne⟩ := mem_cloneSegments h hc
    simp only [List.mem_cons, List.not_mem_nil, or_false, not_or] at hne
    simp [Lib.isSlash, Lib.endsPath, hne]
  have hvisible : ∀ c ∈ segments.flatMap ('/' :: ·), Lib.Visible c := by
    intro c hc
    have hmem : c ∈ cloneUrl owner repository := by
      rw [cloneUrl_eq]
      exact List.mem_append_right _ (.tail _ (.tail _ (.tail _ (List.mem_append_right _ hc))))
    exact (mem_cloneUrl hmem).1
  have hslash := fun segment h c hc => (hplain segment h c hc).1
  have hne : segments ≠ [] := List.cons_ne_nil _ _
  have htail : segments.flatMap ('/' :: ·) = [] ∨
      ∃ rest, segments.flatMap ('/' :: ·) = '/' :: rest := .inr ⟨_, rfl⟩
  have hparse := Url.parse_text R htail hvisible
  rw [hauthority, HttpUrl.parsePathStart_segments _ hne hslash
    fun segment h c hc => (hplain segment h c hc).2] at hparse
  refine ⟨Lib.addSegments [] segments, ?_, ?_, Lib.length_addSegments_le [] segments⟩
  · rw [cloneUrl_eq]
    exact hparse
  · refine ⟨cloneRecord_rooted hhost ?_, ?_⟩
    · exact Lib.addSegments_normal (List.forall_mem_nil _) hslash
    · exact Lib.addSegments_ne_nil hne

theorem length_of_mapM {α β : Type*} {f : α → Option β} {l : List α} {l' : List β}
    (h : l.mapM f = some l') : l'.length = l.length := by
  induction l generalizing l' with
  | nil =>
    cases h
    rfl
  | cons a l ih =>
    simp only [List.mapM_cons, Option.bind_eq_bind, Option.bind_eq_some_iff, Option.pure_def,
      Option.some.injEq] at h
    obtain ⟨b, -, rest, hrest, rfl⟩ := h
    rw [List.length_cons, ih hrest, List.length_cons]

/-- A clone URL is not the URL of a directory. -/
theorem parseGitHubTreeUrl_cloneUrl (hhost : P.host githubHost = some githubHost)
    (owner repository : Text) : parseGitHubTreeUrl P (cloneUrl owner repository) = none := by
  obtain ⟨path, hparse, N, hlength⟩ := parse_cloneUrl hhost owner repository
  have hpath : ((Url.http (cloneRecord path)).pathname.splitOn '/').tail = path := by
    have hsplit := Lib.splitOn_pathname N.path_ne_nil fun segment h hc =>
      Bool.false_ne_true ((N.path segment h).noSlash '/' hc).symm
    exact congrArg List.tail hsplit
  unfold parseGitHubTreeUrl
  rw [hparse]
  dsimp only
  rw [hpath]
  split
  next => rfl
  next =>
    split
    next owner' repository' tree rev pathParts h =>
      have := length_of_mapM h
      simp only [List.length_cons] at this
      omega
    next => rfl

/-- `validateGitRepositoryUrl` refuses the URL only if the policy does. -/
def LeavesToPolicy (P : Platform) (url : Text) : Prop :=
  ∃ canonical, ∀ checkUrl, validateGitRepositoryUrl P checkUrl url =
    (checkUrl canonical).map fun _ => canonical

theorem leavesToPolicy_cloneUrl (hhost : P.host githubHost = some githubHost)
    (owner repository : Text) : LeavesToPolicy P (cloneUrl owner repository) := by
  obtain ⟨path, hparse, -, -⟩ := parse_cloneUrl hhost owner repository
  refine ⟨(cloneRecord path).href, fun checkUrl => ?_⟩
  have hbackslash : (cloneUrl owner repository).contains '\\' = false := by
    rw [Bool.eq_false_iff]
    intro h
    exact (mem_cloneUrl (List.contains_iff_mem.mp h)).2 rfl
  have hsecure : UrlPolicy.isSecure (.http (cloneRecord path)) = true := by
    simp [UrlPolicy.isSecure, Url.protocol, cloneRecord, Lib.httpsScheme]
  unfold validateGitRepositoryUrl
  have hhref : (Url.http (cloneRecord path)).href = (cloneRecord path).href := rfl
  rw [hbackslash, hparse]
  simp only [Bool.false_eq_true, if_false, hsecure, hhref]
  have hcredentials : (Url.http (cloneRecord path)).username = [] ∧
      (Url.http (cloneRecord path)).password = [] ∧ (Url.http (cloneRecord path)).search = [] ∧
      (Url.http (cloneRecord path)).hash = [] := ⟨rfl, rfl, rfl, rfl⟩
  obtain ⟨h1, h2, h3, h4⟩ := hcredentials
  cases h : checkUrl (cloneRecord path).href <;> simp [h1, h2, h3, h4, Except.map]

/-- A directory of GitHub is read as a clone URL. -/
theorem parseGitHubTreeUrl_some {rawUrl : Text} {source : GitHubTreeSource}
    (h : parseGitHubTreeUrl P rawUrl = some source) :
    P.host githubHost = some githubHost ∧
      ∃ owner repository, source.url = cloneUrl owner repository := by
  unfold parseGitHubTreeUrl at h
  split at h
  next => cases h
  next parsed hparsed =>
    split at h
    next => cases h
    next hshape =>
      simp only [Bool.or_eq_true, decide_eq_true_eq, not_or, not_not] at hshape
      obtain ⟨⟨⟨⟨⟨⟨hprotocol, hhost⟩, -⟩, -⟩, -⟩, -⟩, -⟩ := hshape
      refine ⟨?_, ?_⟩
      · cases parsed with
        | http u =>
          have N := Url.normal_of_parse hparsed
          have hlower : u.host.map Char.toLower = u.host := by
            conv => rhs; rw [← List.map_id u.host]
            apply List.map_congr_left
            intro c hc
            have hchar := P.host_chars N.host c hc
            simp only [Lib.isHostChar, Bool.and_eq_true, Bool.not_eq_true'] at hchar
            exact Lib.toLower_of_isUpper hchar.1.2
          have hgithub : "github.com".toList = githubHost := by simp [githubHost]
          have hname : u.host = githubHost := hlower.symm.trans (hhost.trans hgithub)
          exact hname ▸ N.host
        | other o =>
          obtain ⟨text, base, hother⟩ := Url.parse_other hparsed
          refine absurd (hprotocol.trans ?_) (P.other_protocol hother).2
          simp [Lib.httpsScheme]
      · split at h
        next owner repository tree rev pathParts _ =>
          split at h
          next => cases h
          next =>
            split at h
            next => cases h
            next =>
              cases h
              exact ⟨owner, repository, rfl⟩
        next => cases h

/-! ## Git sources -/

theorem toLower_hexDigit {c : Char} (h : isHexDigit c = true) :
    isHexDigit c.toLower = true ∧ c.toLower.toLower = c.toLower ∧ c.toNat < 128 := by
  have hall : ∀ n < 103, isHexDigit (Char.ofNat n) = true →
      isHexDigit (Char.ofNat n).toLower = true ∧
        (Char.ofNat n).toLower.toLower = (Char.ofNat n).toLower := by decide +kernel
  have hlt : c.toNat < 103 := by
    simp only [isHexDigit, Bool.or_eq_true, Bool.and_eq_true, decide_eq_true_eq] at h
    omega
  have hc := hall c.toNat hlt
  rw [Char.ofNat_toNat] at hc
  obtain ⟨hdigit, hlower⟩ := hc h
  exact ⟨hdigit, hlower, by omega⟩

theorem isHex_toLower {n : Nat} {text : Text} (h : isHex n text = true) :
    isHex n (text.map Char.toLower) = true := by
  simp only [isHex, Bool.and_eq_true, decide_eq_true_eq, List.all_eq_true] at h ⊢
  refine ⟨by rw [List.length_map, h.1], fun c hc => ?_⟩
  obtain ⟨d, hd, rfl⟩ := List.mem_map.mp hc
  exact (toLower_hexDigit (h.2 d hd)).1

theorem isObjectIdText_toLower {text : Text} (h : isObjectIdText text = true) :
    isObjectIdText (text.map Char.toLower) = true := by
  rw [isObjectIdText, Bool.or_eq_true] at h ⊢
  exact h.imp isHex_toLower isHex_toLower

theorem toLower_toLower {text : Text} (h : isObjectIdText text = true) :
    (text.map Char.toLower).map Char.toLower = text.map Char.toLower := by
  have hdigits : ∀ c ∈ text, isHexDigit c = true := by
    rw [isObjectIdText, Bool.or_eq_true] at h
    simp only [isHex, Bool.and_eq_true, List.all_eq_true] at h
    rcases h with h | h <;> exact h.2
  rw [List.map_map]
  exact List.map_congr_left fun c hc => (toLower_hexDigit (hdigits c hc)).2.1

/-- How a source stands in a manifest. -/
def GitProvisionSource.toJson (git : GitProvisionSource) : Json :=
  .obj ([("url", .str (String.ofList git.url)), ("rev", .str (String.ofList git.rev))] ++
    (git.path.map fun path => ("path", .str (String.ofList path))).toList)

/-- The form of an accepted source. -/
structure GitForm (P : Platform) (git : GitProvisionSource) : Prop where
  url_ne_nil : git.url ≠ []
  trimmed : Lib.trim git.url = git.url
  plain : parseGitHubTreeUrl P git.url = none
  rev : isRevisionText git.rev = true
  lower : isObjectIdText git.rev = true → git.rev.map Char.toLower = git.rev
  path : ∀ path, git.path = some path → isPathText path = true

namespace GitForm

variable {git : GitProvisionSource}

theorem path_ne_nil (G : GitForm P git) {path : Text} (h : git.path = some path) : path ≠ [] := by
  have hpath := G.path path h
  simp only [isPathText, Bool.and_eq_true, decide_eq_true_eq] at hpath
  exact hpath.1.1.1.1.1

theorem installedSource_eq (G : GitForm P git) (commit : Text) :
    installedSource git commit = ⟨git.rev, commit, git.path⟩ := by
  have hpath : git.path.filter (· ≠ []) = git.path := by
    cases h : git.path with
    | none => rfl
    | some path => simp [G.path_ne_nil h]
  rw [installedSource, hpath]

/-- What is written to the lockfile for a resolved commit is read back. -/
theorem snapshotSource_eq (G : GitForm P git) {commit : Text} (h : isObjectIdText commit = true) :
    snapshotSource (some (installedSource git commit).toJson) =
      some ⟨git.rev, commit.map Char.toLower, git.path⟩ := by
  have hrev := G.rev
  rw [isRevisionText] at hrev
  rw [G.installedSource_eq]
  cases hpath : git.path with
  | none =>
    simp [snapshotSource, InstalledSource.toJson, Json.get, List.lookup, Json.nullish, Json.isStr,
      isValidGitRevision, isGitObjectId, isValidGitBranch, textOf, hrev, h]
  | some path =>
    simp [snapshotSource, InstalledSource.toJson, Json.get, List.lookup, Json.nullish, Json.isStr,
      isValidGitRevision, isGitObjectId, isValidGitBranch, isCanonicalGitPath, textOf, hrev, h,
      G.path path hpath]

/-- A source in this form is read as itself. -/
theorem parseGitSource_eq (G : GitForm P git) (index : Nat) :
    parseGitSource P git.toJson index = .ok git := by
  have hrev := G.rev
  rw [isRevisionText] at hrev
  have hlower : (if isObjectIdText git.rev = true then git.rev.map Char.toLower else git.rev) =
      git.rev := by
    split
    next h => exact G.lower h
    next => rfl
  have hurl := G.url_ne_nil
  have htrim := G.trimmed
  have hplain := G.plain
  obtain ⟨url, rev, path⟩ := git
  cases path with
  | none =>
    simp_all [parseGitSource, require, isObject, GitProvisionSource.toJson, isFilled, Json.get,
      List.lookup, readGitSource, textOf, bind, Except.bind, pure, Except.pure, isValidGitRevision,
      isGitObjectId, isValidGitBranch]
  | some path =>
    have hpath := G.path path rfl
    simp_all [parseGitSource, require, isObject, GitProvisionSource.toJson, isFilled, Json.get,
      List.lookup, readGitSource, textOf, bind, Except.bind, pure, Except.pure, isValidGitRevision,
      isGitObjectId, isValidGitBranch, isCanonicalGitPath]

end GitForm

theorem bind_ok {ε α β : Type} {x : Except ε α} {f : α → Except ε β} {b : β} :
    x >>= f = .ok b ↔ ∃ a, x = .ok a ∧ f a = .ok b := by
  cases x with
  | error e =>
    constructor
    · intro h
      cases h
    · rintro ⟨a, h, -⟩
      cases h
  | ok a =>
    constructor
    · exact fun h => ⟨a, rfl, h⟩
    · rintro ⟨a', h, hf⟩
      cases h
      exact hf

theorem require_ok {passes : Bool} {thrown : Thrown} {u : Unit} :
    require passes thrown = .ok u ↔ passes = true := by
  cases passes <;> simp [require]

theorem isRevisionText_textOf {rev : Option Json} (h : isValidGitRevision rev = true) :
    isRevisionText (textOf rev) = true := by
  rcases rev with _ | _ | _ | _ | s | _ | _ <;> exact h

theorem isPathText_textOf {path : Option Json} (h : isCanonicalGitPath path = true) :
    isPathText (textOf path) = true := by
  rcases path with _ | _ | _ | _ | s | _ | _ <;> exact h

theorem trim_textOf {url : Option Json} (h : isFilled url = true) : Lib.trim (textOf url) ≠ [] := by
  rcases url with _ | _ | _ | _ | s | _ | _ <;> exact of_decide_eq_true h

/-- The URL that is gone on with; that of a directory became a clone URL. -/
theorem readGitSource_ok {value : Json} {index : Nat} {url : Text} {rev path : Option Json}
    (hfilled : isFilled (value.get "url") = true)
    (h : readGitSource P value index = .ok (url, rev, path)) :
    url ≠ [] ∧ Lib.trim url = url ∧ parseGitHubTreeUrl P url = none ∧
      ((parseGitHubTreeUrl P (Lib.trim (textOf (value.get "url")))).isSome = true →
        LeavesToPolicy P url) := by
  unfold readGitSource at h
  dsimp only at h
  split at h
  next source hsource =>
    split at h
    next => cases h
    next =>
      cases h
      obtain ⟨hhost, owner, repository, hurl⟩ := parseGitHubTreeUrl_some hsource
      rw [hurl]
      refine ⟨?_, ?_, parseGitHubTreeUrl_cloneUrl hhost _ _, fun _ => leavesToPolicy_cloneUrl hhost _ _⟩
      · rw [cloneUrl_eq]
        exact List.cons_ne_nil _ _
      · exact Lib.trim_eq_self fun c hc => Lib.isTrimmed_of_visible (mem_cloneUrl hc).1
  next hnone =>
    cases h
    exact ⟨trim_textOf hfilled, Lib.trim_trim _, hnone, fun hsome => by simp [hnone] at hsome⟩

theorem parseGitSource_ok {value : Json} {index : Nat} {git : GitProvisionSource}
    (h : parseGitSource P value index = .ok git) :
    GitForm P git ∧ ((parseGitHubTreeUrl P (Lib.trim (textOf (value.get "url")))).isSome = true →
      LeavesToPolicy P git.url) := by
  simp only [parseGitSource, bind_ok, require_ok] at h
  obtain ⟨_, -, _, hfilled, ⟨url, rev, rawPath⟩, hread, _, hrev, _, hpath, hgit⟩ := h
  obtain ⟨hne, htrim, hplain, hpolicy⟩ := readGitSource_ok hfilled hread
  have hrevision := isRevisionText_textOf hrev
  cases hgit
  refine ⟨⟨hne, htrim, hplain, ?_, ?_, ?_⟩, hpolicy⟩
  · split
    next hid => rw [isRevisionText, isObjectIdText_toLower hid, Bool.true_or]
    next => exact hrevision
  · split
    next hid => exact fun _ => toLower_toLower hid
    next hid => exact fun hid' => absurd hid' hid
  · intro path hsome
    obtain ⟨v, hv, rfl⟩ := Option.map_eq_some_iff.mp hsome
    rw [hv, Option.isNone_some, Bool.false_or] at hpath
    rw [hv]
    exact isPathText_textOf hpath

/-! ## Items -/

/-- A supported item carries exactly one complete source. -/
inductive OneSource (item : ProvisionItem) : Prop
  | archive (url sha256 : Text) (hurl : item.url = some url) (filled : Lib.trim url ≠ [])
      (hsha256 : item.sha256 = some sha256) (hex : isHex 64 sha256 = true) (hgit : item.git = none)
  | git (git : GitProvisionSource) (hgit : item.git = some git) (hurl : item.url = none)
      (hsha256 : item.sha256 = none) (htype : item.type ≠ "config")

/-- The item that an accepted entry is read as. -/
structure Reads (P : Platform) (C : Casing) (entry : Json) (item : ProvisionItem) : Prop where
  type : entry.get "type" = some (.str item.type)
  name : entry.get "name" = some (.str item.name)
  url : item.url = optionalText (entry.get "url")
  sha256 : item.sha256 = (optionalText (entry.get "sha256")).map C.lower
  named : isValidItemName item.name = true
  supported : SUPPORTED_PROVISION_TYPES.contains item.type = true → OneSource item
  /-- The source is in the form that is read later; one of a GitHub directory can be fetched. -/
  git : ∀ git, item.git = some git → GitForm P git ∧ ∃ value, entry.get "git" = some value ∧
    ((parseGitHubTreeUrl P (Lib.trim (textOf (value.get "url")))).isSome = true →
      LeavesToPolicy P git.url)

variable {C : Casing}

theorem str_of_isFilled {v : Option Json} (h : isFilled v = true) :
    v = some (.str (stringOf v)) ∧ optionalText v = some (textOf v) := by
  rcases v with _ | _ | _ | _ | s | _ | _ <;> first | cases h | skip
  exact ⟨by simp [stringOf, textOf], rfl⟩

theorem str_of_isItemName {v : Option Json} (h : isItemName v = true) :
    v = some (.str (stringOf v)) ∧ isValidItemName (stringOf v) = true := by
  rcases v with _ | _ | _ | _ | s | _ | _ <;> first | cases h | skip
  have hs : stringOf (some (.str s)) = s := by simp [stringOf, textOf]
  rw [hs]
  exact ⟨rfl, h⟩

theorem hex_of_isSha256 {v : Option Json} (h : isSha256 v = true) :
    ∃ text, (optionalText v).map C.lower = some text ∧ isHex 64 text = true := by
  rcases v with _ | _ | _ | _ | s | _ | _ <;> first | cases h | skip
  have hex : isHex 64 s.toList = true := h
  have hascii : ∀ c ∈ s.toList, c.toNat < 128 := by
    intro c hc
    simp only [isHex, Bool.and_eq_true, List.all_eq_true] at hex
    exact (toLower_hexDigit (hex.2 c hc)).2.2
  refine ⟨s.toList.map Char.toLower, ?_, isHex_toLower hex⟩
  rw [← C.lower_ascii _ hascii]
  rfl

theorem checkSupported_ok {item : Json} {index : Nat} (h : checkSupported item index = .ok ()) :
    item.get "git" = none ∧ isFilled (item.get "url") = true ∧
        isSha256 (item.get "sha256") = true ∨
      ∃ git, item.get "git" = some git ∧ item.get "url" = none ∧ item.get "sha256" = none := by
  simp only [checkSupported, bind_ok, require_ok] at h
  obtain ⟨_, hone, _, hurl, hsha256⟩ := h
  cases hcarries : carriesArchive item with
  | true =>
    rw [hcarries] at hone hurl hsha256
    exact .inl ⟨by simpa using hone, hurl, hsha256⟩
  | false =>
    rw [hcarries] at hone
    rw [carriesArchive, Bool.or_eq_false_iff, Option.isSome_eq_false_iff,
      Option.isSome_eq_false_iff, Option.isNone_iff_eq_none, Option.isNone_iff_eq_none] at hcarries
    exact .inr ((Option.isSome_iff_exists.mp (by simpa using hone)).imp fun git hgit =>
      ⟨hgit, hcarries⟩)

theorem parseGit_ok {supported : Bool} {item : Json} {index : Nat}
    {git : Option GitProvisionSource} (h : parseGit P supported item index = .ok git) :
    (git = none ∧ (supported = true → item.get "git" = none)) ∨
      ∃ source value, git = some source ∧ item.get "git" = some value ∧
        parseGitSource P value index = .ok source := by
  unfold parseGit at h
  split at h
  next value hvalue =>
    cases hsource : parseGitSource P value index with
    | error thrown =>
      rw [hsource] at h
      cases h
    | ok source =>
      rw [hsource] at h
      cases h
      exact .inr ⟨source, value, rfl, hvalue, hsource⟩
  next hnone =>
    cases h
    refine .inl ⟨rfl, fun hsupported => ?_⟩
    cases hgit : item.get "git" with
    | none => rfl
    | some value => exact absurd hgit (hnone value hsupported)

theorem parseItem_ok {index : Nat} {seen : List String} {entry : Json} {item : ProvisionItem}
    (h : parseItem P C index seen entry = .ok item) :
    Reads P C entry item ∧ toString item.key ∉ seen := by
  simp only [parseItem, bind_ok, require_ok] at h
  obtain ⟨_, -, _, htype, _, hname, _, hseen, _, hconfig, _, hsource, git, hgit, hitem⟩ := h
  obtain ⟨htype, -⟩ := str_of_isFilled htype
  obtain ⟨hname, hnamed⟩ := str_of_isItemName hname
  cases hitem
  refine ⟨⟨htype, hname, rfl, rfl, hnamed, fun hsupported => ?_, ?_⟩, by simpa [ProvisionItem.key] using hseen⟩
  · rw [hsupported] at hsource hgit
    rcases checkSupported_ok hsource with ⟨hnone, hurl, hsha256⟩ | ⟨value, hvalue, hurl, hsha256⟩
    · obtain ⟨sha256, hlower, hex⟩ := hex_of_isSha256 hsha256
      refine .archive _ sha256 (str_of_isFilled hurl).2 (trim_textOf hurl) hlower hex ?_
      rcases parseGit_ok hgit with ⟨hgit, -⟩ | ⟨_, _, -, hsome, -⟩
      · exact hgit
      · cases hnone.symm.trans hsome
    · have htype' : stringOf (entry.get "type") ≠ "config" := by
        rw [hvalue] at hconfig
        simpa using hconfig
      rcases parseGit_ok hgit with ⟨-, hnone⟩ | ⟨source, _, hgit, -, -⟩
      · cases hvalue.symm.trans (hnone rfl)
      · exact .git source hgit (congrArg optionalText hurl)
          (by rw [hsha256]; rfl) htype'
  · rintro source rfl
    rcases parseGit_ok hgit with ⟨hnone, -⟩ | ⟨source', value, hsome, hvalue, hparse⟩
    · cases hnone
    · cases hsome
      obtain ⟨G, hpolicy⟩ := parseGitSource_ok hparse
      exact ⟨G, value, hvalue, hpolicy⟩

theorem parseItems_ok {index : Nat} {seen : List String} {entries : List Json}
    {items : List ProvisionItem} (h : parseItems P C index seen entries = .ok items) :
    List.Forall₂ (Reads P C) entries items ∧
      (items.map fun item => toString item.key).Nodup ∧
      ∀ item ∈ items, toString item.key ∉ seen := by
  induction entries generalizing index seen items with
  | nil =>
    cases h
    exact ⟨.nil, .nil, List.forall_mem_nil _⟩
  | cons entry entries ih =>
    simp only [parseItems, bind_ok] at h
    obtain ⟨item, hitem, rest, hrest, hitems⟩ := h
    cases hitems
    obtain ⟨R, hfresh⟩ := parseItem_ok hitem
    obtain ⟨hreads, hnodup, hseen⟩ := ih hrest
    refine ⟨.cons R hreads, List.nodup_cons.mpr ⟨?_, hnodup⟩, List.forall_mem_cons.mpr
      ⟨hfresh, fun other hother hmem => hseen other hother (List.mem_append_left _ hmem)⟩⟩
    intro hmem
    obtain ⟨other, hother, heq⟩ := List.mem_map.mp hmem
    exact hseen other hother (heq ▸ List.mem_append_right _ (.head _))

/-! ## The runtime section -/

/-- A `runtime` section with nothing but the boolean, as far as it is there. -/
inductive KnownRuntime : Option Json → Option Bool → Prop
  | absent : KnownRuntime none none
  | empty {runtime : Json} (hobject : isObject runtime = true)
      (hkeys : ∀ key ∈ keysOf runtime, key = "codex") (hcodex : runtime.get "codex" = none) :
      KnownRuntime (some runtime) none
  | codex {runtime codex : Json} {fastMode : Option Bool} (hobject : isObject runtime = true)
      (hkeys : ∀ key ∈ keysOf runtime, key = "codex")
      (hcodex : runtime.get "codex" = some codex) (hcodexObject : isObject codex = true)
      (hcodexKeys : ∀ key ∈ keysOf codex, key = "fast_mode")
      (hfastMode : codex.get "fast_mode" = fastMode.map .bool) :
      KnownRuntime (some runtime) fastMode

theorem strictRuntimeObject_ok {value : Json} {field name : String}
    (h : strictRuntimeObject value field [name] = .ok ()) :
    isObject value = true ∧ ∀ key ∈ keysOf value, key = name := by
  simp only [strictRuntimeObject, bind_ok, require_ok, List.all_eq_true] at h
  obtain ⟨_, hobject, hkeys⟩ := h
  exact ⟨hobject, fun key hkey => by simpa using hkeys key hkey⟩

theorem parseRuntime_ok {runtime : Option Json} {fastMode : Option Bool}
    (h : parseRuntime runtime = .ok fastMode) : KnownRuntime runtime fastMode := by
  unfold parseRuntime at h
  cases runtime with
  | none =>
    cases h
    exact .absent
  | some runtime =>
    obtain ⟨_, hruntime, h⟩ := bind_ok.mp h
    obtain ⟨hobject, hkeys⟩ := strictRuntimeObject_ok hruntime
    cases hcodex : runtime.get "codex" with
    | none =>
      rw [hcodex] at h
      cases h
      exact .empty hobject hkeys hcodex
    | some codex =>
      rw [hcodex] at h
      obtain ⟨_, hstrict, h⟩ := bind_ok.mp h
      obtain ⟨hcodexObject, hcodexKeys⟩ := strictRuntimeObject_ok hstrict
      refine .codex hobject hkeys hcodex hcodexObject hcodexKeys ?_
      split at h
      next hnone =>
        cases h
        exact hnone
      next fastMode' hbool =>
        cases h
        exact hbool
      next => cases h

/-! ## Manifests -/

/-- What is accepted, and what the later stages make of it. -/
structure Grammar (P : Platform) (C : Casing) (raw : Json) (manifest : ProvisionManifest) :
    Prop where
  items : ∃ entries, raw.get "items" = some (.arr entries) ∧
    List.Forall₂ (Reads P C) entries manifest.items
  distinct : (manifest.items.map ProvisionItem.key).Nodup
  runtime : KnownRuntime (raw.get "runtime") manifest.fastMode
  loads : ∀ item ∈ manifest.items, ∀ git, item.git = some git → ∀ commit,
    isObjectIdText commit = true →
      snapshotSource (some (installedSource git commit).toJson) =
        some ⟨git.rev, commit.map Char.toLower, git.path⟩
  reparses : ∀ item ∈ manifest.items, ∀ git, item.git = some git → ∀ index,
    parseGitSource P git.toJson index = .ok git

theorem reads_of_mem {entries : List Json} {items : List ProvisionItem}
    (h : List.Forall₂ (Reads P C) entries items) {item : ProvisionItem} (hitem : item ∈ items) :
    ∃ entry ∈ entries, Reads P C entry item := by
  induction h with
  | nil => cases hitem
  | cons R _ ih =>
    rcases List.mem_cons.mp hitem with rfl | hitem
    · exact ⟨_, .head _, R⟩
    · obtain ⟨entry, hentry, R⟩ := ih hitem
      exact ⟨entry, .tail _ hentry, R⟩

/-- The grammar agrees with the validators of the later stages, except that the URL of a git source
which is no GitHub directory is any text that is not blank. -/
theorem parseManifest_grammar (P : Platform) (C : Casing) (raw : Json)
    (manifest : ProvisionManifest) (h : parseManifest P C raw = .ok manifest) :
    Grammar P C raw manifest := by
  unfold parseManifest at h
  obtain ⟨_, -, h⟩ := bind_ok.mp h
  obtain ⟨_, -, h⟩ := bind_ok.mp h
  split at h
  next entries hentries =>
    obtain ⟨items, hitems, h⟩ := bind_ok.mp h
    obtain ⟨fastMode, hruntime, h⟩ := bind_ok.mp h
    cases h
    obtain ⟨hreads, hnodup, -⟩ := parseItems_ok hitems
    have hform : ∀ item ∈ items, ∀ git, item.git = some git → GitForm P git := by
      intro item hitem git hgit
      obtain ⟨entry, -, R⟩ := reads_of_mem hreads hitem
      exact (R.git git hgit).1
    refine ⟨⟨entries, hentries, hreads⟩, ?_, parseRuntime_ok hruntime, ?_, ?_⟩
    · apply List.Nodup.of_map toString
      rwa [List.map_map]
    · exact fun item hitem git hgit _ hcommit => (hform item hitem git hgit).snapshotSource_eq hcommit
    · exact fun item hitem git hgit => (hform item hitem git hgit).parseGitSource_eq
  next => cases h

/-- Letters of other alphabets stay. -/
def asciiCasing : Casing := ⟨fun text => text.map Char.toLower, fun _ _ => rfl⟩

def gitManifest (fields : List (String × Json)) : Json :=
  .obj [("schema", .str MANIFEST_SCHEMA), ("items", .arr [.obj [("type", .str "skill"),
    ("name", .str "a"), ("git", .obj fields)]])]

def blankManifest : Json := gitManifest [("url", .str "not a url"), ("rev", .str "main")]

/-- The source that `blankManifest` is read as. -/
def notAUrl : GitProvisionSource := ⟨"not a url".toList, "main".toList, none⟩

/-- The URL of an accepted source need not be one. -/
theorem parseManifest_accepts_malformed :
    parseManifest Lib.plainPlatform asciiCasing blankManifest =
        .ok ⟨[⟨"skill", "a", none, none, some notAUrl⟩], none⟩ ∧
      ∀ checkUrl, validateGitRepositoryUrl Lib.plainPlatform checkUrl notAUrl.url =
        .error (.provisionError "Git repository URL is invalid".toList "invalid_url") := by
  refine ⟨by decide +kernel, fun checkUrl => ?_⟩
  have hparse : Url.parse Lib.plainPlatform notAUrl.url none = none := by decide +kernel
  unfold validateGitRepositoryUrl
  rw [if_neg (by decide), hparse]

def treeManifest : Json :=
  gitManifest [("url", .str " https://github.com/o/r.git/tree/main/a%20b ")]

def treeSource : GitProvisionSource :=
  ⟨"https://github.com/o/r.git".toList, "main".toList, some "a b".toList⟩

theorem treeManifest_grammar :
    Grammar Lib.plainPlatform asciiCasing treeManifest
      ⟨[⟨"skill", "a", none, none, some treeSource⟩], none⟩ :=
  parseManifest_grammar _ _ _ _ (by decide +kernel)

end CliProxy.Provision
