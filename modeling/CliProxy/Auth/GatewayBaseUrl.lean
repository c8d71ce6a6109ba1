import CliProxy.Auth.ApiKeyLogin
import CliProxy.Lib.UrlRoundTrip
import Mathlib.Data.List.DropRight

/-! # Where the key of a custom gateway is sent

`src/auth/adapters/codex-custom-api-key.ts`: the probe and codex append the path of an endpoint to
the text that `normalizeGatewayBaseUrl` returns. What they reach is read off the URL parser. -/

namespace CliProxy.Auth.CodexCustomApiKey

open Lib (HttpUrl Platform Bare)

def Url.ofLib (u : Lib.Url) : Url where
  protocol := String.ofList u.protocol
  hostname := String.ofList u.hostname
  username := String.ofList u.username
  password := String.ofList u.password
  search := String.ofList u.search
  hash := String.ofList u.hash
  href := u.href

/-- `new URL` is the parser of the platform. -/
def urlConfig (P : Platform) (timeoutMs : Nat) : Config where
  parseUrl text := (Lib.Url.parse P text none).map Url.ofLib
  timeoutMs

def stripSlashes (text : List Char) : List Char := text.rdropWhile (· = '/')

/-- `${baseUrl}/models`, which the probe fetches. -/
def modelsUrl (baseUrl : String) : List Char := baseUrl.toList ++ ['/', 'm', 'o', 'd', 'e', 'l', 's']

/-- `<base>/responses`, which codex fetches. -/
def responsesUrl (baseUrl : String) : List Char :=
  baseUrl.toList ++ ['/', 'r', 'e', 's', 'p', 'o', 'n', 's', 'e', 's']

/-- The text is a URL of the gateway `u`, below the path of `u`. -/
def Reaches (P : Platform) (u : HttpUrl) (endpoint text : List Char) : Prop :=
  ∃ v : HttpUrl, Lib.Url.parse P text none = some (.http v) ∧
    v.scheme = u.scheme ∧ v.host = u.host ∧ v.port = u.port ∧
    v.username = [] ∧ v.password = [] ∧ v.query.getD [] = [] ∧ v.fragment = none ∧
    v.pathname = stripSlashes u.pathname ++ endpoint

/-- Appending an endpoint to the base URL `b` of the gateway `u` is safe. -/
structure Concatenates (P : Platform) (timeoutMs : Nat) (u : HttpUrl) (b : String) : Prop where
  responses : Reaches P u ['/', 'r', 'e', 's', 'p', 'o', 'n', 's', 'e', 's'] (responsesUrl b)
  models : Reaches P u ['/', 'm', 'o', 'd', 'e', 'l', 's'] (modelsUrl b)
  again : normalizeGatewayBaseUrl (urlConfig P timeoutMs) b.toList = .ok b

variable {P : Platform} {timeoutMs : Nat} {u : HttpUrl}

/-! ## What is accepted -/

/-- The tests that a parsed base URL has to pass. -/
structure Admitted (u : HttpUrl) : Prop where
  loopback : u.scheme = Lib.httpScheme → String.ofList u.host ∈ LOOPBACK_HOSTS
  username : u.username = []
  password : u.password = []
  query : u.query.getD [] = []
  fragment : u.fragment.getD [] = []

theorem ofList_ne_empty {l : List Char} : String.ofList l ≠ "" ↔ l ≠ [] := by
  have h : String.ofList l = String.ofList [] ↔ l = [] := String.ofList_inj
  exact not_congr h

theorem search_eq_nil (u : HttpUrl) : (Lib.Url.http u).search = [] ↔ u.query.getD [] = [] := by
  by_cases h : u.query.getD [] = [] <;> simp [Lib.Url.search, h]

theorem hash_eq_nil (u : HttpUrl) : (Lib.Url.http u).hash = [] ↔ u.fragment.getD [] = [] := by
  by_cases h : u.fragment.getD [] = [] <;> simp [Lib.Url.hash, h]

theorem protocol_eq (u : HttpUrl) {scheme : List Char} {text : String}
    (h : text = String.ofList (scheme ++ [':'])) :
    (Url.ofLib (.http u)).protocol = text ↔ u.scheme = scheme := by
  rw [h]
  simp [Url.ofLib, Lib.Url.protocol, String.ofList_inj]

theorem protocol_other (h : P.other text base = some o) :
    (Url.ofLib (.other o)).protocol ≠ "https:" ∧ (Url.ofLib (.other o)).protocol ≠ "http:" := by
  obtain ⟨hhttp, hhttps⟩ := P.other_protocol h
  constructor
  · exact fun he => hhttps (String.ofList_inj.mp he)
  · exact fun he => hhttp (String.ofList_inj.mp he)

theorem normalize_http {raw : List Char} (hp : Lib.Url.parse P (Lib.trim raw) none = some (.http u))
    (hscheme : u.scheme = Lib.httpScheme ∨ u.scheme = Lib.httpsScheme) {b : String} :
    normalizeGatewayBaseUrl (urlConfig P timeoutMs) raw = .ok b ↔
      Admitted u ∧ b = String.ofList (stripSlashes u.href) := by
  have hne : Lib.trim raw ≠ [] := by
    intro hnil
    rw [hnil] at hp
    cases hp
  have hhttps : (Url.ofLib (.http u)).protocol = "https:" ↔ u.scheme = Lib.httpsScheme :=
    protocol_eq u rfl
  have hhttp : (Url.ofLib (.http u)).protocol = "http:" ↔ u.scheme = Lib.httpScheme :=
    protocol_eq u rfl
  have hprotocol : ¬((Url.ofLib (.http u)).protocol ≠ "https:" ∧
      (Url.ofLib (.http u)).protocol ≠ "http:") := by
    rintro ⟨hs, hp⟩
    rcases hscheme with h | h
    · exact hp (hhttp.mpr h)
    · exact hs (hhttps.mpr h)
  simp only [normalizeGatewayBaseUrl, urlConfig, if_neg hne, hp, Option.map_some,
    if_neg hprotocol]
  split
  next hloopback =>
    refine iff_of_false nofun fun h => hloopback.2 ?_
    exact h.1.loopback (hhttp.mp hloopback.1)
  next hloopback =>
    split
    next huser =>
      refine iff_of_false nofun fun h => ?_
      rcases huser with huser | huser
      · exact ofList_ne_empty.mp huser h.1.username
      · exact ofList_ne_empty.mp huser h.1.password
    next huser =>
      rw [not_or, not_not, not_not] at huser
      split
      next hquery =>
        refine iff_of_false nofun fun h => ?_
        rcases hquery with hquery | hquery
        · exact ofList_ne_empty.mp hquery ((search_eq_nil u).mpr h.1.query)
        · exact ofList_ne_empty.mp hquery ((hash_eq_nil u).mpr h.1.fragment)
      next hquery =>
        rw [not_or, not_not, not_not] at hquery
        have hadmitted : Admitted u := {
          loopback := fun h => by
            by_contra hnot
            exact hloopback ⟨hhttp.mpr h, hnot⟩
          username := String.ofList_inj.mp huser.1
          password := String.ofList_inj.mp huser.2
          query := (search_eq_nil u).mp (String.ofList_inj.mp hquery.1)
          fragment := (hash_eq_nil u).mp (String.ofList_inj.mp hquery.2) }
        rw [Except.ok.injEq, eq_comm]
        exact (and_iff_right hadmitted).symm

/-- What is accepted is an `http` or `https` URL that passes the tests. -/
theorem normalize_eq_ok {raw : List Char} {b : String}
    (h : normalizeGatewayBaseUrl (urlConfig P timeoutMs) raw = .ok b) :
    ∃ u, Lib.Url.parse P (Lib.trim raw) none = some (.http u) ∧ Admitted u ∧
      b = String.ofList (stripSlashes u.href) := by
  cases hp : Lib.Url.parse P (Lib.trim raw) none with
  | none =>
    simp only [normalizeGatewayBaseUrl, urlConfig, hp, Option.map_none] at h
    split at h <;> cases h
  | some url =>
    cases url with
    | http u =>
      have N := Lib.Url.normal_of_parse hp
      exact ⟨u, rfl, (normalize_http hp N.scheme).mp h⟩
    | other o =>
      obtain ⟨_, _, ho⟩ := Lib.Url.parse_other hp
      simp only [normalizeGatewayBaseUrl, urlConfig, hp, Option.map_some,
        if_pos (protocol_other ho)] at h
      split at h <;> cases h

/-! ## Without the trailing slashes -/

theorem rdropWhile_append {α : Type*} {p : α → Bool} {a : List α} (h : a.rdropWhile p = a)
    (l : List α) : (a ++ l).rdropWhile p = a ++ l.rdropWhile p := by
  induction l using List.reverseRecOn with
  | nil => simpa using h
  | append_singleton l x ih =>
    rw [← List.append_assoc]
    by_cases hx : p x = true
    · rw [List.rdropWhile_concat_pos _ _ _ hx, List.rdropWhile_concat_pos _ _ _ hx, ih]
    · rw [List.rdropWhile_concat_neg _ _ _ hx, List.rdropWhile_concat_neg _ _ _ hx,
        List.append_assoc]

/-- The text before the path. -/
def origin (u : HttpUrl) : List Char := u.scheme ++ ':' :: '/' :: '/' :: u.authority

/-- The segments before the trailing slashes. -/
def baseSegments (u : HttpUrl) : List (List Char) := u.path.rdropWhile (· = [])

theorem href_origin (u : HttpUrl) : u.href = origin u ++ u.tailText := by
  simp [HttpUrl.href_eq, origin]

theorem stripSlashes_origin (R : u.Rooted P) : stripSlashes (origin u) = origin u := by
  apply List.rdropWhile_eq_self_iff.mpr
  intro hne
  obtain ⟨c, rest, hhead, -⟩ := R.authority_head
  have hauthority : u.authority ≠ [] := hhead ▸ List.cons_ne_nil c rest
  have hsplit : origin u = (u.scheme ++ [':', '/', '/']) ++ u.authority := by simp [origin]
  have hlast : (origin u).getLast hne ∈ u.authority := by
    simp only [hsplit, List.getLast_append_of_ne_nil _ hauthority]
    exact List.getLast_mem _
  have hends : Lib.endsAuthority ((origin u).getLast hne) = false := by
    rw [HttpUrl.authority_eq] at hlast
    rcases List.mem_append.mp hlast with h | h
    · exact (R.credentials_bounds _ h).2
    · exact (R.hostPort_bounds _ h).2.1
  intro heq
  rw [of_decide_eq_true heq] at hends
  cases hends

theorem stripSlashes_segments {path : List (List Char)}
    (h : ∀ segment ∈ path, Lib.NormalSegment segment) :
    stripSlashes (path.flatMap ('/' :: ·)) = (path.rdropWhile (· = [])).flatMap ('/' :: ·) := by
  induction path using List.reverseRecOn with
  | nil => rfl
  | append_singleton path segment ih =>
    rw [List.flatMap_append, List.flatMap_singleton]
    have ih := ih fun s hs => h s (List.mem_append_left _ hs)
    rcases List.eq_nil_or_concat segment with rfl | ⟨init, c, hsegment⟩
    · rw [List.rdropWhile_concat_pos _ _ _ rfl, ← ih]
      exact List.rdropWhile_concat_pos _ _ _ rfl
    · have hnormal := h segment (List.mem_append_right _ (.head _))
      rw [List.concat_eq_append] at hsegment
      subst hsegment
      have hc : ¬decide (c = '/') = true := by
        intro heq
        have := hnormal.noSlash c (List.mem_append_right _ (.head _))
        rw [of_decide_eq_true heq] at this
        cases this
      rw [List.rdropWhile_concat_neg _ _ _ (by simp), List.flatMap_append,
        List.flatMap_singleton, ← List.cons_append, ← List.append_assoc]
      exact List.rdropWhile_concat_neg _ _ _ hc

theorem stripSlashes_pathname (N : u.Normal P) :
    stripSlashes u.pathname = (baseSegments u).flatMap ('/' :: ·) :=
  stripSlashes_segments N.path

theorem tailText_eq (hquery : u.query = none) (hfragment : u.fragment = none) :
    u.tailText = u.pathname := by
  simp [HttpUrl.tailText, hquery, hfragment]

/-- The base URL of a gateway whose URL has neither a query nor a fragment. -/
theorem stripSlashes_href (N : u.Normal P) (hquery : u.query = none)
    (hfragment : u.fragment = none) :
    stripSlashes u.href = origin u ++ (baseSegments u).flatMap ('/' :: ·) := by
  rw [href_origin, tailText_eq hquery hfragment, stripSlashes,
    rdropWhile_append (stripSlashes_origin N.toRooted)]
  exact congrArg (origin u ++ ·) (stripSlashes_pathname N)

/-! ## Neither a query nor a fragment -/

/-- The gateway with another path. -/
def withPath (u : HttpUrl) (path : List (List Char)) : HttpUrl := { u with path }

theorem normal_withPath (R : u.Rooted P) {path : List (List Char)} (hne : path ≠ [])
    (h : ∀ segment ∈ path, Lib.NormalSegment segment) : (withPath u path).Normal P :=
  { R with path := h, path_ne_nil := hne }

theorem href_withPath (hquery : u.query = none) (hfragment : u.fragment = none)
    (path : List (List Char)) :
    (withPath u path).href = origin u ++ path.flatMap ('/' :: ·) := by
  have htail : (withPath u path).tailText = (withPath u path).pathname :=
    tailText_eq hquery hfragment
  rw [href_origin, htail]
  rfl

theorem baseSegments_normal (N : u.Normal P) :
    ∀ segment ∈ baseSegments u, Lib.NormalSegment segment :=
  fun segment h => N.path segment ((List.rdropWhile_prefix _ _).subset h)

theorem reaches (N : u.Normal P) (A : Admitted u) (hquery : u.query = none)
    (hfragment : u.fragment = none) {name : List Char} (hname : Lib.NormalSegment name) :
    Reaches P u ('/' :: name) (stripSlashes u.href ++ '/' :: name) := by
  have hpath : ∀ segment ∈ baseSegments u ++ [name], Lib.NormalSegment segment := by
    intro segment h
    rcases List.mem_append.mp h with h | h
    · exact baseSegments_normal N segment h
    · exact List.mem_singleton.mp h ▸ hname
  have N' := normal_withPath N.toRooted (by simp) hpath
  have hhref : (withPath u (baseSegments u ++ [name])).href =
      stripSlashes u.href ++ '/' :: name := by
    rw [href_withPath hquery hfragment, stripSlashes_href N hquery hfragment]
    simp
  refine ⟨withPath u (baseSegments u ++ [name]), hhref ▸ Lib.Url.parse_href N', rfl, rfl, rfl,
    A.username, A.password, ?_, hfragment, ?_⟩
  · exact congrArg (·.getD []) hquery
  · rw [stripSlashes_pathname N]
    simp [HttpUrl.pathname, withPath]

theorem Admitted.withPath (A : Admitted u) (path : List (List Char)) : Admitted (withPath u path) :=
  { A with }

/-- The base URL is read as the gateway with no trailing slash, or with nothing but one. -/
theorem parse_base (N : u.Normal P) (hquery : u.query = none) (hfragment : u.fragment = none) :
    ∃ path, Lib.Url.parse P (stripSlashes u.href) none = some (.http (withPath u path)) ∧
      (withPath u path).Normal P ∧
      stripSlashes (withPath u path).href = stripSlashes u.href := by
  have hstrip := stripSlashes_href N hquery hfragment
  rcases List.eq_nil_or_concat (baseSegments u) with hnil | ⟨init, segment, hconcat⟩
  · -- Nothing but slashes: the parser puts the path of one empty segment back.
    have N' : (withPath u [[]]).Normal P := by
      apply normal_withPath N.toRooted (by simp)
      intro segment h
      exact List.mem_singleton.mp h ▸ Lib.normalSegment_nil
    refine ⟨[[]], ?_, N', ?_⟩
    · have hparse := Lib.Url.parse_text N.toRooted (.inl rfl) (List.forall_mem_nil _)
      have hbase : stripSlashes u.href = u.scheme ++ ':' :: '/' :: '/' :: (u.authority ++ []) := by
        simp [hstrip, hnil, origin]
      have hpath : { u with path := [], query := none, fragment := none }.parsePathStart [] =
          withPath u [[]] := by
        simp only [withPath, hquery, hfragment]
        rfl
      rw [hbase, hparse, hpath]
    · have hsegments : baseSegments (withPath u [[]]) = [] := rfl
      rw [stripSlashes_href N' hquery hfragment, hstrip, hsegments, hnil]
      rfl
  · have hne : baseSegments u ≠ [] := by simp [hconcat]
    have N' := normal_withPath N.toRooted hne (baseSegments_normal N)
    refine ⟨baseSegments u, ?_, N', ?_⟩
    · rw [hstrip, ← href_withPath hquery hfragment]
      exact Lib.Url.parse_href N'
    · have hsegments : baseSegments (withPath u (baseSegments u)) = baseSegments u :=
        List.rdropWhile_idempotent _ _
      rw [stripSlashes_href N' hquery hfragment, hstrip, hsegments]
      rfl

/-- Normalizing again changes nothing. -/
theorem normalize_again (N : u.Normal P) (A : Admitted u) (hquery : u.query = none)
    (hfragment : u.fragment = none) :
    normalizeGatewayBaseUrl (urlConfig P timeoutMs) (stripSlashes u.href) =
      .ok (String.ofList (stripSlashes u.href)) := by
  obtain ⟨path, hparse, N', hbase⟩ := parse_base N hquery hfragment
  have hvisible : ∀ c ∈ stripSlashes u.href, Lib.Visible c := by
    intro c hc
    have hc := (List.rdropWhile_prefix _ _).subset hc
    rw [href_origin] at hc
    rcases List.mem_append.mp hc with hc | hc
    · exact N.visible_origin c hc
    · exact N.visible_tailText c hc
  have htrim := Lib.trim_eq_self fun c hc => Lib.isTrimmed_of_visible (hvisible c hc)
  rw [← htrim] at hparse
  rw [normalize_http hparse N'.scheme]
  exact ⟨A.withPath path, by rw [hbase]⟩

/-! ## An empty query or fragment -/

/-- After an empty query or fragment, an endpoint is not part of the path. -/
theorem not_reaches (N : u.Normal P) (A : Admitted u)
    (h : ¬(u.query = none ∧ u.fragment = none)) :
    ¬Reaches P u ['/', 'm', 'o', 'd', 'e', 'l', 's']
      (stripSlashes u.href ++ ['/', 'm', 'o', 'd', 'e', 'l', 's']) := by
  have hclear : ∀ c ∈ ['/', 'm', 'o', 'd', 'e', 'l', 's'],
      Lib.specialQuerySet c = false ∧ Lib.fragmentSet c = false := by
    simp [Lib.specialQuerySet, Lib.querySet, Lib.c0ControlSet, Lib.fragmentSet]
  have hendpoint : ['/', 'm', 'o', 'd', 'e', 'l', 's'] ≠ [] := List.cons_ne_nil _ _
  generalize ['/', 'm', 'o', 'd', 'e', 'l', 's'] = endpoint at hclear hendpoint
  rintro ⟨v, hv, -, -, -, -, -, hquery, hfragment, -⟩
  have hread : ∀ w : HttpUrl, w.Normal P → w.href = stripSlashes u.href ++ endpoint → v = w := by
    intro w Nw hw
    rw [← hw, Lib.Url.parse_href Nw] at hv
    cases hv
    rfl
  have hkeep : ∀ {text : List Char} {c : Char}, c ≠ '/' →
      stripSlashes (text ++ [c]) = text ++ [c] :=
    fun hc => List.rdropWhile_concat_neg _ _ _ (by simpa using hc)
  cases hf : u.fragment with
  | some f =>
    have hfnil : f = [] := by simpa [hf] using A.fragment
    subst hfnil
    have hstrip : stripSlashes u.href = u.href := by
      rw [HttpUrl.href, hf]
      exact hkeep (c := '#') (by decide)
    have Nw : HttpUrl.Normal P { u with fragment := some endpoint } :=
      { N with
        fragment := by
          rintro _ ⟨⟩ c hc
          exact (hclear c hc).2 }
    have hw := hread { u with fragment := some endpoint } Nw (by
      rw [hstrip]
      simp [HttpUrl.href, HttpUrl.authority, HttpUrl.credentials, HttpUrl.portText,
        HttpUrl.pathname, hf])
    rw [hw] at hfragment
    cases hfragment
  | none =>
    cases hq : u.query with
    | none => exact h ⟨hq, hf⟩
    | some q =>
      have hqnil : q = [] := by simpa [hq] using A.query
      subst hqnil
      have hstrip : stripSlashes u.href = u.href := by
        rw [HttpUrl.href, hf, hq, Option.map_none, Option.getD_none, List.append_nil]
        exact hkeep (c := '?') (by decide)
      have Nw : HttpUrl.Normal P { u with query := some endpoint } :=
        { N with
          query := by
            rintro _ ⟨⟩ c hc
            exact (hclear c hc).1 }
      have hw := hread { u with query := some endpoint } Nw (by
        rw [hstrip]
        simp [HttpUrl.href, HttpUrl.authority, HttpUrl.credentials, HttpUrl.portText,
          HttpUrl.pathname, hf, hq])
      rw [hw] at hquery
      exact hendpoint hquery

/-! ## The key is sent to the gateway -/

theorem bare_trim (raw : List Char) : Bare (Lib.trim raw) ↔ Bare raw := by
  apply Lib.bare_congr
  intro c hc
  have hkeep : Lib.isTrimmed c = false := by
    rcases Lib.eq_of_endsPath hc with rfl | rfl <;> decide
  rw [Lib.trim, List.mem_reverse, Lib.mem_dropWhile_of_neg hkeep, List.mem_reverse,
    Lib.mem_dropWhile_of_neg hkeep]

/-- Appending an endpoint to an accepted base URL is safe exactly if the submitted text contains
neither a question mark nor a number sign. -/
theorem concatenates_iff {raw : List Char} {b : String}
    (h : normalizeGatewayBaseUrl (urlConfig P timeoutMs) raw = .ok b) :
    ∃ u, Lib.Url.parse P (Lib.trim raw) none = some (.http u) ∧
      (Concatenates P timeoutMs u b ↔ Bare raw) := by
  obtain ⟨u, hparse, A, rfl⟩ := normalize_eq_ok h
  have N := Lib.Url.normal_of_parse hparse
  refine ⟨u, hparse, ?_⟩
  rw [← bare_trim, ← Lib.Url.parse_bare_iff hparse]
  constructor
  · intro C
    by_contra hnot
    exact not_reaches N A hnot (by simpa [modelsUrl] using C.models)
  · rintro ⟨hquery, hfragment⟩
    have hresponses : Lib.NormalSegment ['r', 'e', 's', 'p', 'o', 'n', 's', 'e', 's'] := by
      constructor <;> simp [Lib.pathSet, Lib.querySet, Lib.c0ControlSet, Lib.isSlash,
        Lib.isSingleDot, Lib.isDoubleDot]
    have hmodels : Lib.NormalSegment ['m', 'o', 'd', 'e', 'l', 's'] := by
      constructor <;> simp [Lib.pathSet, Lib.querySet, Lib.c0ControlSet, Lib.isSlash,
        Lib.isSingleDot, Lib.isDoubleDot]
    exact {
      responses := by simpa [responsesUrl] using reaches N A hquery hfragment hresponses
      models := by simpa [modelsUrl] using reaches N A hquery hfragment hmodels
      again := by simpa using normalize_again N A hquery hfragment }

theorem concatenates_plain : ∃ u,
    Lib.Url.parse Lib.plainPlatform (Lib.trim "https://gateway.example/api/v1//".toList) none =
      some (.http u) ∧
    (Concatenates Lib.plainPlatform 30000 u "https://gateway.example/api/v1" ↔
      Bare "https://gateway.example/api/v1//".toList) :=
  concatenates_iff (by decide +kernel)

/-- An empty query is accepted, and the endpoint becomes the query. -/
theorem emptyQuery_misroutes :
    normalizeGatewayBaseUrl (urlConfig Lib.plainPlatform 30000) "https://gateway.example/v1?".toList =
        .ok "https://gateway.example/v1?" ∧
      ∃ u, Lib.Url.parse Lib.plainPlatform (Lib.trim "https://gateway.example/v1?".toList) none =
          some (.http u) ∧
        ¬Concatenates Lib.plainPlatform 30000 u "https://gateway.example/v1?" := by
  refine ⟨by decide +kernel, ⟨Lib.httpsScheme, [], [], "gateway.example".toList, none,
    ["v1".toList], some [], none⟩, by decide +kernel, fun C => ?_⟩
  obtain ⟨v, hv, -, -, -, -, -, hquery, -⟩ := C.responses
  have hread : Lib.Url.parse Lib.plainPlatform (responsesUrl "https://gateway.example/v1?") none =
      some (.http ⟨Lib.httpsScheme, [], [], "gateway.example".toList, none, ["v1".toList],
        some "/responses".toList, none⟩) := by
    decide +kernel
  rw [hread] at hv
  cases hv
  exact absurd hquery (by decide)

end CliProxy.Auth.CodexCustomApiKey
