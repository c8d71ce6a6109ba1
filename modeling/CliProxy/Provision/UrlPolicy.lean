import CliProxy.Lib.Url

/-! # The URL policy of remote fetches

`checkUrlAllowed` and `fetchWithPolicy` of `src/provision/manifest.ts`. The server is an oracle that
sees the URLs fetched so far, so that it may answer every hop as it likes; a fetch may also fail. -/

namespace CliProxy.Provision.UrlPolicy

open Lib (Platform Url)

abbrev Text := List Char

/-! ## The source -/

inductive Thrown where
  | provisionError (message : Text) (code : String)
  /-- `new URL` outside of a `try` block throws. -/
  | typeError
  deriving DecidableEq

def LOOPBACK_HOSTS : List Text :=
  ["localhost".toList, "127.0.0.1".toList, "::1".toList, "[::1]".toList]

/-- The options of `checkUrlAllowed`. -/
structure UrlOptions where
  manifestUrl : Option Text
  allowlist : Option (List Text)

/-- `url.hostname.toLowerCase()`; a serialized host is ASCII. -/
def hostOf (url : Url) : Text := url.hostname.map Char.toLower

def isSecure (url : Url) : Bool :=
  url.protocol = "https:".toList ||
    url.protocol = "http:".toList && LOOPBACK_HOSTS.contains (hostOf url)

def checkHost (P : Platform) (opts : UrlOptions) (url : Url) : Except Thrown Unit :=
  match opts.allowlist with
  | some allowlist =>
    if !allowlist.contains (hostOf url) then
      .error (.provisionError ("Host \"".toList ++ hostOf url ++
        "\" is not in PROVISION_ALLOWLIST".toList) "url_not_allowed")
    else .ok ()
  | none =>
    match opts.manifestUrl with
    | none => .ok ()
    | some manifestUrl =>
      match Url.parse P manifestUrl none with
      | none => .error .typeError
      | some manifest =>
        if hostOf url != hostOf manifest then
          .error (.provisionError ("Host \"".toList ++ hostOf url ++
            "\" differs from the manifest host \"".toList ++ hostOf manifest ++
            "\"; set PROVISION_ALLOWLIST to allow it".toList) "url_not_allowed")
        else .ok ()

def checkUrlAllowed (P : Platform) (opts : UrlOptions) (rawUrl : Text) : Except Thrown Unit :=
  match Url.parse P rawUrl none with
  | none => .error (.provisionError ("Not a valid URL: ".toList ++ rawUrl) "invalid_url")
  | some url =>
    if url.username != [] || url.password != [] then
      .error (.provisionError "URL credentials are not supported".toList "url_not_allowed")
    else if !isSecure url then
      .error (.provisionError ("Refusing non-https URL: ".toList ++ rawUrl) "url_not_allowed")
    else checkHost P opts url

def MAX_REDIRECTS : Nat := 5

structure Response (β : Type) where
  status : Nat
  location : Option Text
  body : β

def isRedirect {β : Type} (response : Response β) : Bool :=
  [301, 302, 303, 307, 308].contains response.status

/-- The `Location` header, if it is there and not empty. -/
def locationOf {β : Type} (response : Response β) : Option Text := response.location.filter (· ≠ [])

/-- `new URL(location, url).toString()` -/
def resolve (P : Platform) (location url : Text) : Option Text :=
  (Url.parse P url none).bind fun base => (Url.parse P location (some base)).map Url.href

/-- What `fetch` does with a URL after the URLs that were fetched before: it throws with a reason or
gives a response. -/
abbrev Server (β : Type) := List Text → Text → Except Text (Response β)

/-- The loop of `fetchWithPolicy` with so many hops left: how it ends, and the URLs it passes to
`fetch`. -/
def walk {β : Type} (P : Platform) (checkUrl : Text → Except Thrown Unit) (failCode : String)
    (server : Server β) (rawUrl : Text) :
    Nat → List Text → Text → Except Thrown (Response β) × List Text
  | 0, _, _ =>
    (.error (.provisionError ("Too many redirects fetching ".toList ++ rawUrl) failCode), [])
  | hops + 1, seen, url =>
    match checkUrl url with
    | .error e => (.error e, [])
    | .ok () =>
      match server seen url with
      | .error reason =>
        (.error (.provisionError ("Fetch failed: ".toList ++ reason) failCode), [url])
      | .ok response =>
        if !isRedirect response then (.ok response, [url])
        else match locationOf response with
          | none => (.error (.provisionError
              ("Redirect without a Location header from ".toList ++ url) failCode), [url])
          | some location =>
            match resolve P location url with
            | none => (.error (.provisionError ("Redirect from ".toList ++ url ++
                " has an invalid Location header".toList) failCode), [url])
            | some next =>
              let rest := walk P checkUrl failCode server rawUrl hops (seen ++ [url]) next
              (rest.1, url :: rest.2)

def fetchWithPolicy {β : Type} (P : Platform) (checkUrl : Text → Except Thrown Unit)
    (failCode : String) (server : Server β) (rawUrl : Text) :
    Except Thrown (Response β) × List Text :=
  walk P checkUrl failCode server rawUrl (MAX_REDIRECTS + 1) [] rawUrl

/-! ## What is allowed -/

/-- The URL has no userinfo, is secure, and has a host of the allowlist or that of the manifest. -/
def Allowed (P : Platform) (manifestUrl : Text) (allowlist : Option (List Text)) (text : Text) :
    Prop :=
  ∃ url, Url.parse P text none = some url ∧ url.username = [] ∧ url.password = [] ∧
    (url.protocol = "https:".toList ∨
      url.protocol = "http:".toList ∧ hostOf url ∈ LOOPBACK_HOSTS) ∧
    match allowlist with
    | some hosts => hostOf url ∈ hosts
    | none => ∃ manifest, Url.parse P manifestUrl none = some manifest ∧
        hostOf url = hostOf manifest

/-- `registerManifestUrl` checked the URL against the allowlist of that moment. -/
def Registered (P : Platform) (manifestUrl : Text) : Prop :=
  ∃ allowlist, checkUrlAllowed P ⟨none, allowlist⟩ manifestUrl = .ok ()

section
variable {P : Platform} {opts : UrlOptions} {text manifestUrl : Text} {allowlist : Option (List Text)}

theorem checkUrlAllowed_ok (h : checkUrlAllowed P opts text = .ok ()) :
    ∃ url, Url.parse P text none = some url ∧ url.username = [] ∧ url.password = [] ∧
      isSecure url = true ∧ checkHost P opts url = .ok () := by
  unfold checkUrlAllowed at h
  split at h
  next => cases h
  next url hurl =>
    split at h
    next => cases h
    next hcredentials =>
      split at h
      next => cases h
      next hsecure =>
        simp only [Bool.or_eq_true, bne_iff_ne, not_or, not_not] at hcredentials
        exact ⟨url, hurl, hcredentials.1, hcredentials.2, by simpa using hsecure, h⟩

theorem allowed_of_check (h : checkUrlAllowed P ⟨some manifestUrl, allowlist⟩ text = .ok ()) :
    Allowed P manifestUrl allowlist text := by
  obtain ⟨url, hurl, husername, hpassword, hsecure, hhost⟩ := checkUrlAllowed_ok h
  refine ⟨url, hurl, husername, hpassword, ?_, ?_⟩
  · simpa [isSecure] using hsecure
  · unfold checkHost at hhost
    cases allowlist with
    | some hosts =>
      dsimp only at hhost ⊢
      split at hhost
      next => cases hhost
      next hmem => simpa using hmem
    | none =>
      dsimp only at hhost ⊢
      split at hhost
      next => cases hhost
      next manifest hmanifest =>
        split at hhost
        next => cases hhost
        next heq => exact ⟨manifest, hmanifest, by simpa using heq⟩

theorem checkHost_error {url manifest : Url} (hmanifest : Url.parse P manifestUrl none = some manifest)
    {e : Thrown} (h : checkHost P ⟨some manifestUrl, allowlist⟩ url = .error e) :
    ∃ message code, e = .provisionError message code := by
  unfold checkHost at h
  cases allowlist with
  | some hosts =>
    dsimp only at h
    split at h
    next => exact ⟨_, _, (Except.error.inj h).symm⟩
    next => cases h
  | none =>
    dsimp only at h
    rw [hmanifest] at h
    dsimp only at h
    split at h
    next => exact ⟨_, _, (Except.error.inj h).symm⟩
    next => cases h

/-- The host of a registered manifest can be compared with, so a refusal is a `ProvisionError`. -/
theorem check_error (hregistered : Registered P manifestUrl) {e : Thrown}
    (h : checkUrlAllowed P ⟨some manifestUrl, allowlist⟩ text = .error e) :
    ∃ message code, e = .provisionError message code := by
  obtain ⟨registered, hcheck⟩ := hregistered
  obtain ⟨manifest, hmanifest, -⟩ := checkUrlAllowed_ok hcheck
  unfold checkUrlAllowed at h
  split at h
  next => exact ⟨_, _, (Except.error.inj h).symm⟩
  next =>
    split at h
    next => exact ⟨_, _, (Except.error.inj h).symm⟩
    next =>
      split at h
      next => exact ⟨_, _, (Except.error.inj h).symm⟩
      next => exact checkHost_error hmanifest h

end

/-! ## The walk -/

section
variable {β : Type} {P : Platform} {checkUrl : Text → Except Thrown Unit} {failCode : String}
  {server : Server β} {rawUrl : Text}

/-- Where a redirect leads, if its `Location` is there and well formed. -/
def target (P : Platform) (url : Text) (response : Response β) : Option Text :=
  (locationOf response).bind fun location => resolve P location url

/-- One hop: the URL is refused, or it is fetched and ends the walk, or the walk goes on from where
the redirect leads. -/
inductive Hop (P : Platform) (checkUrl : Text → Except Thrown Unit) (failCode : String)
    (server : Server β) (rawUrl : Text) (hops : Nat) (seen : List Text) (url : Text) :
    Except Thrown (Response β) × List Text → Prop where
  | refused {e : Thrown} (h : checkUrl url = .error e) :
    Hop P checkUrl failCode server rawUrl hops seen url (.error e, [])
  | failed {reason message : Text} {code : String} (h : checkUrl url = .ok ())
    (hserver : server seen url = .error reason) :
    Hop P checkUrl failCode server rawUrl hops seen url (.error (.provisionError message code), [url])
  | returned {response : Response β} (h : checkUrl url = .ok ())
    (hserver : server seen url = .ok response) (hfinal : isRedirect response = false) :
    Hop P checkUrl failCode server rawUrl hops seen url (.ok response, [url])
  | stuck {response : Response β} {message : Text} {code : String} (h : checkUrl url = .ok ())
    (hserver : server seen url = .ok response) (hredirect : isRedirect response = true)
    (htarget : target P url response = none) :
    Hop P checkUrl failCode server rawUrl hops seen url (.error (.provisionError message code), [url])
  | followed {response : Response β} {next : Text} {result : Except Thrown (Response β)}
    {urls : List Text} (h : checkUrl url = .ok ())
    (hserver : server seen url = .ok response) (hredirect : isRedirect response = true)
    (htarget : target P url response = some next)
    (hwalk : walk P checkUrl failCode server rawUrl hops (seen ++ [url]) next = (result, urls)) :
    Hop P checkUrl failCode server rawUrl hops seen url (result, url :: urls)

theorem walk_succ (hops : Nat) (seen : List Text) (url : Text) :
    Hop P checkUrl failCode server rawUrl hops seen url
      (walk P checkUrl failCode server rawUrl (hops + 1) seen url) := by
  rw [walk]
  split
  next e h => exact .refused h
  next h =>
    split
    next reason hserver => exact .failed h hserver
    next response hserver =>
      split
      next hfinal => exact .returned h hserver (by simpa using hfinal)
      next hredirect =>
        have hredirect : isRedirect response = true := by simpa using hredirect
        split
        next hlocation =>
          exact .stuck h hserver hredirect (by rw [target, hlocation]; rfl)
        next location hlocation =>
          split
          next hresolve =>
            exact .stuck h hserver hredirect (by rw [target, hlocation]; exact hresolve)
          next next hresolve =>
            exact .followed h hserver hredirect (by rw [target, hlocation]; exact hresolve) rfl

def IsProvisionError (e : Thrown) : Prop := ∃ message code, e = .provisionError message code

theorem walk_refused {url : Text} {e : Thrown} (h : checkUrl url = .error e)
    (hprovision : IsProvisionError e) (hops : Nat) (seen : List Text) :
    ∃ e', walk P checkUrl failCode server rawUrl hops seen url = (.error e', []) ∧
      IsProvisionError e' := by
  cases hops with
  | zero => exact ⟨_, rfl, _, _, rfl⟩
  | succ hops => exact ⟨e, by rw [walk, h], hprovision⟩

/-- The walk obeys the policy at every hop; `seen` are the URLs fetched before it. -/
structure Obeys (P : Platform) (checkUrl : Text → Except Thrown Unit) (server : Server β)
    (hops : Nat) (seen : List Text) (outcome : Except Thrown (Response β) × List Text) : Prop where
  checked : ∀ url ∈ outcome.2, checkUrl url = .ok ()
  bounded : outcome.2.length ≤ hops
  returned : ∀ before url after response, outcome.2 = before ++ url :: after →
    server (seen ++ before) url = .ok response → isRedirect response = false →
      outcome.1 = .ok response ∧ after = []
  stopped : ∀ before url after response, outcome.2 = before ++ url :: after →
    server (seen ++ before) url = .ok response → isRedirect response = true →
    (target P url response = none ∨
      ∃ next e, target P url response = some next ∧ checkUrl next = .error e) →
      (∃ e, outcome.1 = .error e ∧ IsProvisionError e) ∧ after = []

theorem Obeys.nil {seen : List Text} {hops : Nat} {result : Except Thrown (Response β)} :
    Obeys P checkUrl server hops seen (result, []) where
  checked := List.forall_mem_nil _
  bounded := Nat.zero_le _
  returned before url after response h := absurd h (by simp)
  stopped before url after response h := absurd h (by simp)

theorem Obeys.single {seen : List Text} {hops : Nat} {url : Text}
    {result : Except Thrown (Response β)} (h : checkUrl url = .ok ())
    (hreturned : ∀ response, server seen url = .ok response → isRedirect response = false →
      result = .ok response)
    (hstopped : ∀ response, server seen url = .ok response → isRedirect response = true →
      ∃ e, result = .error e ∧ IsProvisionError e) :
    Obeys P checkUrl server (hops + 1) seen (result, [url]) where
  checked url' hurl := by
    cases List.mem_singleton.mp hurl
    exact h
  bounded := Nat.succ_le_succ (Nat.zero_le _)
  returned before url' after response hurls hserver hfinal := by
    obtain ⟨rfl, hurls⟩ | ⟨_, rfl, hurls⟩ := List.cons_eq_append_iff.mp hurls
    · cases hurls
      rw [List.append_nil] at hserver
      exact ⟨hreturned response hserver hfinal, rfl⟩
    · exact absurd hurls (by simp)
  stopped before url' after response hurls hserver hredirect _ := by
    obtain ⟨rfl, hurls⟩ | ⟨_, rfl, hurls⟩ := List.cons_eq_append_iff.mp hurls
    · cases hurls
      rw [List.append_nil] at hserver
      exact ⟨hstopped response hserver hredirect, rfl⟩
    · exact absurd hurls (by simp)

/-- The walk obeys the policy, whatever the server answers. -/
theorem walk_obeys (hcheck : ∀ url e, checkUrl url = .error e → IsProvisionError e) (hops : Nat) :
    ∀ seen url, Obeys P checkUrl server hops seen
      (walk P checkUrl failCode server rawUrl hops seen url) := by
  induction hops with
  | zero => exact fun seen url => .nil
  | succ hops ih =>
    intro seen url
    have hhop : Hop P checkUrl failCode server rawUrl hops seen url
        (walk P checkUrl failCode server rawUrl (hops + 1) seen url) := walk_succ hops seen url
    revert hhop
    generalize walk P checkUrl failCode server rawUrl (hops + 1) seen url = outcome
    intro hhop
    cases hhop with
    | refused _ => exact .nil
    | failed h hserver =>
      refine .single h (fun response hresponse => ?_) fun response hresponse => ?_
      · rw [hserver] at hresponse
        cases hresponse
      · rw [hserver] at hresponse
        cases hresponse
    | returned h hserver hfinal =>
      refine .single h (fun response hresponse _ => ?_) fun response hresponse hredirect => ?_
      · rw [hserver] at hresponse
        exact congrArg _ (Except.ok.inj hresponse)
      · rw [hserver] at hresponse
        cases hresponse
        rw [hfinal] at hredirect
        cases hredirect
    | stuck h hserver hredirect _ =>
      refine .single h (fun response hresponse hfinal => ?_) fun _ _ _ => ⟨_, rfl, _, _, rfl⟩
      rw [hserver] at hresponse
      cases hresponse
      rw [hfinal] at hredirect
      cases hredirect
    | @followed response next result urls h hserver hredirect htarget hwalk =>
      have hrest := ih (seen ++ [url]) next
      rw [hwalk] at hrest
      refine ⟨?_, Nat.succ_le_succ hrest.bounded, ?_, ?_⟩
      · exact List.forall_mem_cons.mpr ⟨h, hrest.checked⟩
      · intro before url' after response' hurls hserver' hfinal
        obtain ⟨rfl, hurls⟩ | ⟨before, rfl, hurls⟩ := List.cons_eq_append_iff.mp hurls
        · cases hurls
          rw [List.append_nil, hserver] at hserver'
          cases hserver'
          rw [hfinal] at hredirect
          cases hredirect
        · rw [List.append_cons] at hserver'
          exact hrest.returned before url' after response' (List.cons.inj hurls).2 hserver' hfinal
      · intro before url' after response' hurls hserver' hredirect' hstop
        obtain ⟨rfl, hurls⟩ | ⟨before, rfl, hurls⟩ := List.cons_eq_append_iff.mp hurls
        · cases hurls
          rw [List.append_nil, hserver] at hserver'
          cases hserver'
          rw [htarget] at hstop
          -- The redirect leads somewhere, so it is its target that is refused.
          obtain hstop | ⟨_, e, heq, hrefused⟩ := hstop
          · cases hstop
          · cases heq
            have hend : ∃ e', walk P checkUrl failCode server rawUrl hops (seen ++ [url]) next =
                (.error e', []) ∧ IsProvisionError e' :=
              walk_refused hrefused (hcheck _ _ hrefused) hops _
            obtain ⟨e', hwalk', hprovision⟩ := hend
            rw [hwalk] at hwalk'
            cases hwalk'
            exact ⟨⟨e', rfl, hprovision⟩, rfl⟩
        · rw [List.append_cons] at hserver'
          exact hrest.stopped before url' after response' (List.cons.inj hurls).2 hserver' hredirect'
            hstop

end

/-! ## Fetching under the policy of a manifest -/

/-- What `fetchManifest` and the artifact downloads pass as `checkUrl`. -/
def manifestPolicy (P : Platform) (manifestUrl : Text) (allowlist : Option (List Text)) :
    Text → Except Thrown Unit :=
  checkUrlAllowed P ⟨some manifestUrl, allowlist⟩

/-- Whatever the server answers: only allowed URLs are fetched, at most six of them; a response that
is no redirect is returned; and a redirect without a well-formed and allowed target ends in a
`ProvisionError` without another fetch. -/
theorem fetchWithPolicy_obeys {β : Type} (P : Platform) {manifestUrl : Text}
    (h : Registered P manifestUrl) (allowlist : Option (List Text)) (failCode : String)
    (server : Server β) (rawUrl : Text) :
    (∀ url ∈ (fetchWithPolicy P (manifestPolicy P manifestUrl allowlist) failCode server rawUrl).2,
      Allowed P manifestUrl allowlist url) ∧
    Obeys P (manifestPolicy P manifestUrl allowlist) server 6 []
      (fetchWithPolicy P (manifestPolicy P manifestUrl allowlist) failCode server rawUrl) := by
  have hobeys : Obeys P (manifestPolicy P manifestUrl allowlist) server 6 []
      (fetchWithPolicy P (manifestPolicy P manifestUrl allowlist) failCode server rawUrl) :=
    walk_obeys (fun _ _ => check_error h) 6 [] rawUrl
  exact ⟨fun url hurl => allowed_of_check (hobeys.checked url hurl), hobeys⟩

/-- A server that redirects to another host. -/
def bouncing : Server Unit := fun _ _ => .ok ⟨302, some "https://other.example/".toList, ()⟩

theorem bouncing_obeys :
    (∀ url ∈ (fetchWithPolicy Lib.plainPlatform
        (manifestPolicy Lib.plainPlatform "https://host.example/m.json".toList none) "failed"
        bouncing "https://host.example/m.json".toList).2,
      Allowed Lib.plainPlatform "https://host.example/m.json".toList none url) ∧
    Obeys Lib.plainPlatform
      (manifestPolicy Lib.plainPlatform "https://host.example/m.json".toList none) bouncing 6 []
      (fetchWithPolicy Lib.plainPlatform
        (manifestPolicy Lib.plainPlatform "https://host.example/m.json".toList none) "failed"
        bouncing "https://host.example/m.json".toList) :=
  fetchWithPolicy_obeys Lib.plainPlatform ⟨none, by decide +kernel⟩ none "failed" bouncing _

end CliProxy.Provision.UrlPolicy
