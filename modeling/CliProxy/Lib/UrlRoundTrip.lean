import CliProxy.Lib.Text
import CliProxy.Lib.Url
import Mathlib.Data.List.TakeWhile

/-! # Reading a serialized URL

The records that the parser returns are `Normal`, and the parser reads the text of a normal record
back as that record. -/

namespace CliProxy.Lib

theorem ne_of_set {set : Char → Bool} {c d : Char} (hd : set d = true) (hc : set c = false) :
    c ≠ d := by
  rintro rfl
  exact Bool.false_ne_true (hc.symm.trans hd)

/-- Neither a control nor a space, and ASCII. -/
def Visible (c : Char) : Prop := 0x20 < c.toNat ∧ c.toNat ≤ 0x7e

instance : DecidablePred Visible := fun _ => inferInstanceAs (Decidable (_ ∧ _))

theorem isTrimmed_of_visible {c : Char} (h : Visible c) : isTrimmed c = false := by
  obtain ⟨hlow, hhigh⟩ := h
  simp only [isTrimmed, Bool.or_eq_false_iff, List.contains_eq_mem, decide_eq_false_iff_not,
    Bool.and_eq_false_iff, List.mem_cons, List.not_mem_nil, or_false]
  omega

theorem visible_of_c0ControlSet {c : Char} (h : c0ControlSet c = false) (hspace : c ≠ ' ') :
    Visible c := by
  have hne : c.toNat ≠ 0x20 := fun heq => hspace (Char.toNat_inj.mp heq)
  simp [c0ControlSet] at h
  constructor <;> omega

theorem visible_of_querySet {c : Char} (h : querySet c = false) : Visible c := by
  have hspace : c ≠ ' ' := ne_of_set rfl h
  simp only [querySet, Bool.or_eq_false_iff] at h
  exact visible_of_c0ControlSet h.1 hspace

theorem querySet_of_pathSet {c : Char} (h : pathSet c = false) : querySet c = false := by
  simp only [pathSet, Bool.or_eq_false_iff] at h
  exact h.1

theorem pathSet_of_userinfoSet {c : Char} (h : userinfoSet c = false) : pathSet c = false := by
  simp only [userinfoSet, Bool.or_eq_false_iff] at h
  exact h.1

theorem visible_of_fragmentSet {c : Char} (h : fragmentSet c = false) : Visible c := by
  have hspace : c ≠ ' ' := ne_of_set rfl h
  simp only [fragmentSet, Bool.or_eq_false_iff] at h
  exact visible_of_c0ControlSet h.1 hspace

/-! ## Escapes are outside of the sets -/

theorem isPercentChar_bounds {c : Char} (h : isPercentChar c = true) :
    c.toNat = 0x25 ∨ 48 ≤ c.toNat ∧ c.toNat ≤ 57 ∨ 65 ≤ c.toNat ∧ c.toNat ≤ 70 := by
  simp only [isPercentChar, Bool.or_eq_true, Bool.and_eq_true, decide_eq_true_eq] at h
  rcases h with (rfl | h) | h
  · exact .inl rfl
  · exact .inr (.inl h)
  · exact .inr (.inr h)

theorem notMem_of_isPercentChar {c : Char} (h : isPercentChar c = true) {l : List Char}
    (hl : ∀ d ∈ l, isPercentChar d = false) : l.contains c = false := by
  cases hc : l.contains c with
  | false => rfl
  | true =>
    have := hl c (List.contains_iff_mem.mp hc)
    exact absurd (this.symm.trans h) Bool.false_ne_true

theorem c0ControlSet_isPercentChar {c : Char} (h : isPercentChar c = true) :
    c0ControlSet c = false := by
  have := isPercentChar_bounds h
  simp only [c0ControlSet, Bool.or_eq_false_iff, decide_eq_false_iff_not]
  omega

theorem querySet_isPercentChar {c : Char} (h : isPercentChar c = true) : querySet c = false := by
  simp only [querySet, Bool.or_eq_false_iff]
  exact ⟨c0ControlSet_isPercentChar h, notMem_of_isPercentChar h (by simp [isPercentChar])⟩

theorem specialQuerySet_isPercentChar {c : Char} (h : isPercentChar c = true) :
    specialQuerySet c = false := by
  simp only [specialQuerySet, Bool.or_eq_false_iff, decide_eq_false_iff_not]
  refine ⟨querySet_isPercentChar h, ?_⟩
  rintro rfl
  cases h

theorem pathSet_isPercentChar {c : Char} (h : isPercentChar c = true) : pathSet c = false := by
  simp only [pathSet, Bool.or_eq_false_iff]
  exact ⟨querySet_isPercentChar h, notMem_of_isPercentChar h (by simp [isPercentChar])⟩

theorem userinfoSet_isPercentChar {c : Char} (h : isPercentChar c = true) :
    userinfoSet c = false := by
  simp only [userinfoSet, Bool.or_eq_false_iff]
  exact ⟨pathSet_isPercentChar h, notMem_of_isPercentChar h (by simp [isPercentChar])⟩

theorem fragmentSet_isPercentChar {c : Char} (h : isPercentChar c = true) :
    fragmentSet c = false := by
  simp only [fragmentSet, Bool.or_eq_false_iff]
  exact ⟨c0ControlSet_isPercentChar h, notMem_of_isPercentChar h (by simp [isPercentChar])⟩

/-! ## Normal records -/

structure NormalSegment (segment : List Char) : Prop where
  clear : ∀ c ∈ segment, pathSet c = false
  noSlash : ∀ c ∈ segment, isSlash c = false
  notSingleDot : isSingleDot segment = false
  notDoubleDot : isDoubleDot segment = false

/-- What the parser guarantees of a record before it has read the path. -/
structure HttpUrl.Rooted (P : Platform) (u : HttpUrl) : Prop where
  scheme : u.scheme = httpScheme ∨ u.scheme = httpsScheme
  username : ∀ c ∈ u.username, userinfoSet c = false
  password : ∀ c ∈ u.password, userinfoSet c = false
  host : P.host u.host = some u.host
  port : ∀ n, u.port = some n → n ≤ 65535 ∧ n ≠ defaultPort u.scheme
  path : ∀ segment ∈ u.path, NormalSegment segment
  query : ∀ q, u.query = some q → ∀ c ∈ q, specialQuerySet c = false
  fragment : ∀ f, u.fragment = some f → ∀ c ∈ f, fragmentSet c = false

/-- What the parser guarantees of the records it returns. -/
structure HttpUrl.Normal (P : Platform) (u : HttpUrl) : Prop extends u.Rooted P where
  path_ne_nil : u.path ≠ []

/-! ## The parser returns normal records -/

theorem normalSegment_nil : NormalSegment [] := ⟨nofun, nofun, rfl, rfl⟩

theorem isSlash_isPercentChar {c : Char} (h : isPercentChar c = true) : isSlash c = false := by
  simp only [isSlash, Bool.or_eq_false_iff, decide_eq_false_iff_not]
  constructor <;> rintro rfl <;> cases h

theorem mem_addSegment {path : List (List Char)} {text segment : List Char} {last : Bool}
    (hpath : ∀ segment ∈ path, NormalSegment segment) (htext : ∀ c ∈ text, isSlash c = false)
    (h : segment ∈ addSegment path text last) : NormalSegment segment := by
  have hlast : segment ∈ (if last then [([] : List Char)] else []) → NormalSegment segment := by
    intro hmem
    cases last with
    | false => cases hmem
    | true =>
      cases List.mem_singleton.mp hmem
      exact normalSegment_nil
  unfold addSegment at h
  dsimp only at h
  split at h
  next =>
    rcases List.mem_append.mp h with h | h
    · exact hpath _ ((List.dropLast_sublist path).subset h)
    · exact hlast h
  next hdouble =>
    split at h
    next =>
      rcases List.mem_append.mp h with h | h
      · exact hpath _ h
      · exact hlast h
    next hsingle =>
      rcases List.mem_append.mp h with h | h
      · exact hpath _ h
      · cases List.mem_singleton.mp h
        refine ⟨percentEncode_clear fun c => pathSet_isPercentChar, ?_,
          Bool.eq_false_iff.mpr hsingle, Bool.eq_false_iff.mpr hdouble⟩
        intro c hc
        rcases mem_percentEncode hc with h | h
        · exact isSlash_isPercentChar h
        · exact htext c h.2

theorem addSegments_normal {path segments : List (List Char)}
    (hpath : ∀ segment ∈ path, NormalSegment segment)
    (hsegments : ∀ text ∈ segments, ∀ c ∈ text, isSlash c = false) :
    ∀ segment ∈ addSegments path segments, NormalSegment segment := by
  induction path, segments using addSegments.induct with
  | case1 path => exact hpath
  | case2 path text => exact fun segment h => mem_addSegment hpath (hsegments text (.head _)) h
  | case3 path text segments hne ih =>
    rw [addSegments]
    · refine ih (fun segment h => ?_) fun text h => hsegments text (.tail _ h)
      exact mem_addSegment hpath (hsegments text (.head _)) h
    · exact hne

theorem addSegment_last_ne_nil (path : List (List Char)) (text : List Char) :
    addSegment path text true ≠ [] := by
  unfold addSegment
  dsimp only
  split
  · simp
  · split <;> simp

theorem addSegments_ne_nil {path segments : List (List Char)} (h : segments ≠ []) :
    addSegments path segments ≠ [] := by
  induction path, segments using addSegments.induct with
  | case1 path => exact absurd rfl h
  | case2 path text => exact addSegment_last_ne_nil path text
  | case3 path text segments hne ih =>
    rw [addSegments]
    · exact ih (fun hnil => hne (by rw [hnil]))
    · exact hne

theorem length_addSegment_le (path : List (List Char)) (text : List Char) (last : Bool) :
    (addSegment path text last).length ≤ path.length + 1 := by
  unfold addSegment
  cases last <;> dsimp only <;> split
  · simp
    omega
  · split <;> simp
  · simp
  · split <;> simp

/-- Dot segments only make a path shorter. -/
theorem length_addSegments_le (path segments : List (List Char)) :
    (addSegments path segments).length ≤ path.length + segments.length := by
  induction path, segments using addSegments.induct with
  | case1 path => exact Nat.le_refl _
  | case2 path text => exact length_addSegment_le path text true
  | case3 path text segments hne ih =>
    rw [addSegments]
    · have hstep := length_addSegment_le path text false
      rw [List.length_cons]
      omega
    · exact hne

theorem splitSegments_ne_nil (text : List Char) : splitSegments text ≠ [] := by
  induction text with
  | nil => simp [splitSegments]
  | cons c text ih =>
    rw [splitSegments]
    split
    · simp
    · cases h : splitSegments text <;> simp_all

theorem splitSegments_noSlash (text : List Char) :
    ∀ segment ∈ splitSegments text, ∀ c ∈ segment, isSlash c = false := by
  induction text with
  | nil => simp [splitSegments]
  | cons c text ih =>
    rw [splitSegments]
    split
    next => simpa using ih
    next hc =>
      cases h : splitSegments text with
      | nil => simp
      | cons segment segments =>
        rw [h] at ih
        simp only [List.modifyHead_cons, List.forall_mem_cons] at ih ⊢
        exact ⟨⟨Bool.eq_false_iff.mpr hc, ih.1⟩, ih.2⟩

namespace HttpUrl

variable {P : Platform} {u : HttpUrl}

theorem Normal.set_query (N : u.Normal P) (text : List Char) :
    Normal P { u with query := some (percentEncode specialQuerySet text) } :=
  { N with
    query := by
      rintro _ ⟨⟩
      exact percentEncode_clear fun c => specialQuerySet_isPercentChar }

theorem Normal.set_fragment (N : u.Normal P) (text : List Char) :
    Normal P { u with fragment := some (percentEncode fragmentSet text) } :=
  { N with
    fragment := by
      rintro _ ⟨⟩
      exact percentEncode_clear fun c => fragmentSet_isPercentChar }

theorem Normal.parseTail (N : u.Normal P) (text : List Char) : (u.parseTail text).Normal P := by
  unfold HttpUrl.parseTail
  split
  next text =>
    dsimp only
    split
    · exact (N.set_query _).set_fragment _
    · exact N.set_query _
  next text => exact N.set_fragment _
  next => exact N

theorem Rooted.parsePath (R : u.Rooted P) (text : List Char) : (u.parsePath text).Normal P := by
  apply Normal.parseTail
  exact { R with
    path_ne_nil := addSegments_ne_nil (splitSegments_ne_nil _)
    path := addSegments_normal R.path (splitSegments_noSlash _) }

theorem Rooted.parsePathStart (R : u.Rooted P) (text : List Char) :
    (u.parsePathStart text).Normal P := by
  cases text with
  | nil => exact R.parsePath []
  | cons c text => exact R.parsePath _

end HttpUrl

section
variable {P : Platform}

theorem parsePort_normal {scheme digits : List Char} {port : Option Nat}
    (h : parsePort scheme digits = some port) :
    ∀ n, port = some n → n ≤ 65535 ∧ n ≠ defaultPort scheme := by
  rintro n rfl
  unfold parsePort at h
  dsimp only at h
  split at h
  · cases h
  · split at h
    · cases h
    · split at h
      · cases h
      · split at h
        · cases h
        · cases h
          omega

theorem parseAuthority_normal {scheme text : List Char} {u : HttpUrl}
    (hscheme : scheme = httpScheme ∨ scheme = httpsScheme)
    (h : parseAuthority P scheme text = some u) : u.Normal P := by
  simp only [parseAuthority] at h
  split at h
  · cases h
  · split at h
    next host port hhost hport =>
      rw [← Option.some.inj h]
      apply HttpUrl.Rooted.parsePathStart
      exact {
        scheme := hscheme
        username := percentEncode_clear fun c => userinfoSet_isPercentChar
        password := percentEncode_clear fun c => userinfoSet_isPercentChar
        host := P.host_host hhost
        port := parsePort_normal hport
        path := nofun
        query := nofun
        fragment := nofun }
    next => cases h

theorem parseRelative_normal {base u : HttpUrl} {text : List Char} (N : base.Normal P)
    (h : parseRelative P base text = some u) : u.Normal P := by
  have habsent {p : List Char → Prop} : ∀ q, none = some q → p q :=
    fun _ hq => absurd hq.symm (Option.some_ne_none _)
  have hclear : ∀ {path : List (List Char)}, (∀ segment ∈ path, NormalSegment segment) →
      HttpUrl.Rooted P { base with path := path, query := none, fragment := none } :=
    fun hpath => { N.toRooted with path := hpath, query := habsent, fragment := habsent }
  cases text with
  | nil =>
    cases h
    exact { N with fragment := habsent }
  | cons c text =>
    simp only [parseRelative] at h
    split at h
    · cases text with
      | nil =>
        cases h
        exact (hclear (List.forall_mem_nil _)).parsePath []
      | cons d text =>
        dsimp only at h
        split at h
        · exact parseAuthority_normal N.scheme h
        · cases h
          exact (hclear (List.forall_mem_nil _)).parsePath (d :: text)
    · split at h
      · rw [← Option.some.inj h]
        have N' : HttpUrl.Normal P { base with query := none, fragment := none } :=
          { N with query := habsent, fragment := habsent }
        exact N'.parseTail (c :: text)
      · split at h
        · rw [← Option.some.inj h]
          have N' : HttpUrl.Normal P { base with fragment := none } := { N with fragment := habsent }
          exact N'.parseTail (c :: text)
        · cases h
          refine (hclear fun segment hmem => ?_).parsePath (c :: text)
          exact N.path segment ((List.dropLast_sublist _).subset hmem)

/-- Every record the parser returns is normal. -/
theorem Url.parse_normal {input : List Char} {base : Option Url} {u : HttpUrl}
    (hbase : ∀ b, base = some (.http b) → b.Normal P) (h : parse P input base = some (.http u)) :
    u.Normal P := by
  simp only [parse] at h
  split at h
  next scheme rest hscheme =>
    split at h
    next hhttp =>
      have hhttp : scheme = httpScheme ∨ scheme = httpsScheme := by simpa using hhttp
      split at h
      next b =>
        split at h
        all_goals
          obtain ⟨v, hv, hu⟩ := Option.map_eq_some_iff.mp h
          cases hu
        · exact parseRelative_normal (hbase b rfl) hv
        · exact parseAuthority_normal hhttp hv
      next =>
        obtain ⟨v, hv, hu⟩ := Option.map_eq_some_iff.mp h
        cases hu
        exact parseAuthority_normal hhttp hv
    next =>
      obtain ⟨v, -, hu⟩ := Option.map_eq_some_iff.mp h
      cases hu
  next =>
    split at h
    next b =>
      obtain ⟨v, hv, hu⟩ := Option.map_eq_some_iff.mp h
      cases hu
      exact parseRelative_normal (hbase b rfl) hv
    next =>
      obtain ⟨v, -, hu⟩ := Option.map_eq_some_iff.mp h
      cases hu
    next => cases h

end

theorem Url.normal_of_parse {P : Platform} {input : List Char} {u : HttpUrl}
    (h : parse P input none = some (.http u)) : u.Normal P :=
  parse_normal (fun _ hb => by cases hb) h

theorem Url.parse_other {P : Platform} {text : List Char} {base : Option Url} {o : OtherUrl}
    (h : parse P text base = some (.other o)) : ∃ text base, P.other text base = some o := by
  simp only [parse] at h
  split at h
  · split at h
    · split at h
      · split at h
        all_goals
          obtain ⟨v, -, hv⟩ := Option.map_eq_some_iff.mp h
          cases hv
      · obtain ⟨v, -, hv⟩ := Option.map_eq_some_iff.mp h
        cases hv
    · obtain ⟨v, ho, hv⟩ := Option.map_eq_some_iff.mp h
      cases hv
      exact ⟨_, _, ho⟩
  · split at h
    · obtain ⟨v, -, hv⟩ := Option.map_eq_some_iff.mp h
      cases hv
    · obtain ⟨v, ho, hv⟩ := Option.map_eq_some_iff.mp h
      cases hv
      exact ⟨_, _, ho⟩
    · cases h

/-! ## Reading the text of a normal record -/

theorem clean_eq_self {text : List Char} (h : ∀ c ∈ text, Visible c) : clean text = text := by
  have hdrop : ∀ {l : List Char}, (∀ c ∈ l, Visible c) →
      l.dropWhile (·.toNat ≤ 0x20) = l := by
    intro l hl
    cases l with
    | nil => rfl
    | cons c l =>
      apply List.dropWhile_cons_of_neg
      have := (hl c (.head _)).1
      simp
      omega
  have hfilter : text.filter (!isTabOrNewline ·) = text := by
    apply List.filter_eq_self.mpr
    intro c hc
    have := (h c hc).1
    simp only [isTabOrNewline, Bool.not_eq_true', Bool.or_eq_false_iff, decide_eq_false_iff_not]
    refine ⟨⟨?_, ?_⟩, ?_⟩ <;> rintro rfl <;> simp at this
  have hreverse : ∀ c ∈ text.reverse, Visible c := fun c hc => h c (List.mem_reverse.mp hc)
  rw [clean, hdrop h, hdrop hreverse, List.reverse_reverse, hfilter]

theorem splitScheme_scheme {scheme : List Char}
    (h : scheme = httpScheme ∨ scheme = httpsScheme) (rest : List Char) :
    splitScheme (scheme ++ ':' :: rest) = some (scheme, rest) := by
  rcases h with rfl | rfl <;> rfl

theorem splitUserinfo_eq_none {text : List Char} (h : '@' ∉ text) : splitUserinfo text = none := by
  induction text with
  | nil => rfl
  | cons c text ih =>
    rw [List.mem_cons, not_or] at h
    rw [splitUserinfo, ih h.2]
    exact if_neg (Ne.symm h.1)

theorem splitUserinfo_append (userinfo : List Char) {host : List Char} (h : '@' ∉ host) :
    splitUserinfo (userinfo ++ '@' :: host) = some (userinfo, host) := by
  induction userinfo with
  | nil => simp [splitUserinfo, splitUserinfo_eq_none h]
  | cons c userinfo ih => simp [splitUserinfo, ih]

theorem splitPort_append {host : List Char} {inside : Bool}
    (h : brackets inside host = some false) (rest : List Char) :
    splitPort inside (host ++ rest) =
      (host ++ (splitPort false rest).1, (splitPort false rest).2) := by
  induction host generalizing inside with
  | nil =>
    rw [brackets, Option.some.injEq] at h
    rw [h]
    rfl
  | cons c host ih =>
    rw [brackets] at h
    split at h
    · cases h
    next hc =>
      rw [List.cons_append, splitPort, if_neg hc, ih h]
      rfl

theorem parsePort_toDigits {scheme : List Char} {n : Nat} (hle : n ≤ 65535)
    (hne : n ≠ defaultPort scheme) : parsePort scheme (Nat.toDigits 10 n) = some (some n) := by
  have hdigits : (Nat.toDigits 10 n).all Char.isDigit = true :=
    List.all_eq_true.mpr fun c hc => Nat.isDigit_of_mem_toDigits (by omega) (by omega) hc
  have hvalue := Nat.ofDigitChars_toDigits (b := 10) (n := n) (by omega) (by omega)
  simp [parsePort, Nat.toDigits_ne_nil, hdigits, hvalue, hne]
  omega

theorem splitSegments_append {segment : List Char} (h : ∀ c ∈ segment, isSlash c = false)
    (text : List Char) :
    splitSegments (segment ++ text) = (splitSegments text).modifyHead (segment ++ ·) := by
  induction segment with
  | nil => cases hsegments : splitSegments text <;> simp [hsegments]
  | cons c segment ih =>
    rw [List.forall_mem_cons] at h
    rw [List.cons_append, splitSegments, if_neg (by simp [h.1]), ih h.2]
    cases splitSegments text <;> rfl

theorem splitSegments_pathname {segment : List Char} {segments : List (List Char)}
    (h : ∀ text ∈ segment :: segments, ∀ c ∈ text, isSlash c = false) :
    splitSegments (segment ++ segments.flatMap ('/' :: ·)) = segment :: segments := by
  induction segments generalizing segment with
  | nil =>
    rw [splitSegments_append (h segment (.head _))]
    simp [splitSegments]
  | cons next segments ih =>
    rw [splitSegments_append (h segment (.head _)), List.flatMap_cons, List.cons_append,
      splitSegments, if_pos (show isSlash '/' = true from rfl), ih fun text htext => h text (.tail _ htext)]
    simp

theorem addSegment_of_normal {segment : List Char} (N : NormalSegment segment)
    (path : List (List Char)) (last : Bool) : addSegment path segment last = path ++ [segment] := by
  simp [addSegment, percentEncode_of_clear N.clear, N.notSingleDot, N.notDoubleDot]

theorem addSegments_of_normal {path segments : List (List Char)}
    (h : ∀ segment ∈ segments, NormalSegment segment) :
    addSegments path segments = path ++ segments := by
  induction path, segments using addSegments.induct with
  | case1 path => simp [addSegments]
  | case2 path text => exact addSegment_of_normal (h text (.head _)) path true
  | case3 path text segments hne ih =>
    rw [addSegments]
    · rw [ih fun segment hmem => h segment (.tail _ hmem),
        addSegment_of_normal (h text (.head _))]
      simp
    · exact hne

/-- The segments of a path name. -/
theorem splitOn_pathname {path : List (List Char)} (hne : path ≠ [])
    (h : ∀ segment ∈ path, '/' ∉ segment) :
    (path.flatMap ('/' :: ·)).splitOn '/' = [] :: path := by
  have hslash : ∀ text : List Char, ('/' :: text).splitOn '/' = [] :: text.splitOn '/' :=
    fun text => List.splitOn_append_cons_self_of_not_mem List.not_mem_nil text
  induction path with
  | nil => exact absurd rfl hne
  | cons segment path ih =>
    rw [List.forall_mem_cons] at h
    rw [List.flatMap_cons, List.cons_append, hslash]
    cases path with
    | nil => rw [List.flatMap_nil, List.append_nil, List.splitOn_eq_singleton h.1]
    | cons next path =>
      have hrest := ih (List.cons_ne_nil _ _) h.2
      rw [List.flatMap_cons, List.cons_append] at hrest ⊢
      rw [List.splitOn_append_cons_self_of_not_mem h.1]
      rw [hslash] at hrest
      rw [(List.cons.inj hrest).2]

namespace HttpUrl

variable {P : Platform} {u : HttpUrl}

/-- What follows the path is read back. -/
theorem Rooted.parseTail_text (R : u.Rooted P) :
    { u with query := none, fragment := none }.parseTail
      ((u.query.map ('?' :: ·)).getD [] ++ (u.fragment.map ('#' :: ·)).getD []) = u := by
  have hquery : ∀ q, u.query = some q →
      percentEncode specialQuerySet q = q ∧ ∀ c ∈ q, decide (c ≠ '#') = true := by
    intro q hq
    refine ⟨percentEncode_of_clear (R.query q hq), fun c hc => decide_eq_true ?_⟩
    exact ne_of_set rfl (R.query q hq c hc)
  have hfragment : ∀ f, u.fragment = some f → percentEncode fragmentSet f = f :=
    fun f hf => percentEncode_of_clear (R.fragment f hf)
  obtain ⟨scheme, username, password, host, port, path, query, fragment⟩ := u
  dsimp only at hquery hfragment
  cases query with
  | none =>
    cases fragment with
    | none => rfl
    | some f => simp [parseTail, hfragment f rfl]
  | some q =>
    obtain ⟨hencode, hne⟩ := hquery q rfl
    cases fragment with
    | none =>
      have htake : q.takeWhile (· ≠ '#') = q := List.takeWhile_eq_self_iff.mpr hne
      have hdrop : q.dropWhile (· ≠ '#') = [] := List.dropWhile_eq_nil_iff.mpr hne
      simp only [Option.map_some, Option.map_none, Option.getD_some, Option.getD_none,
        List.append_nil, parseTail, htake, hdrop, hencode]
    | some f =>
      simp only [Option.map_some, Option.getD_some, List.cons_append, parseTail,
        List.takeWhile_append_of_pos hne, List.dropWhile_append_of_pos hne]
      simp [hencode, hfragment f rfl]

theorem noEnd_of_normalSegment {segment : List Char} (N : NormalSegment segment) :
    ∀ c ∈ segment, endsPath c = false := by
  intro c hc
  simp only [endsPath, Bool.or_eq_false_iff, decide_eq_false_iff_not]
  exact ⟨ne_of_set rfl (N.clear c hc), ne_of_set rfl (querySet_of_pathSet (N.clear c hc))⟩

theorem pathname_noEnd {path : List (List Char)} (h : ∀ segment ∈ path, NormalSegment segment) :
    ∀ c ∈ path.flatMap ('/' :: ·), endsPath c = false := by
  intro c hc
  obtain ⟨segment, hsegment, hc⟩ := List.mem_flatMap.mp hc
  rcases List.mem_cons.mp hc with rfl | hc
  · rfl
  · exact noEnd_of_normalSegment (h segment hsegment) c hc

/-- The path state reads plain segments, and drops those that are dots. -/
theorem parsePathStart_segments (u : HttpUrl) {segments : List (List Char)} (hne : segments ≠ [])
    (hslash : ∀ segment ∈ segments, ∀ c ∈ segment, isSlash c = false)
    (hends : ∀ segment ∈ segments, ∀ c ∈ segment, endsPath c = false) :
    u.parsePathStart (segments.flatMap ('/' :: ·)) =
      { u with path := addSegments u.path segments } := by
  obtain ⟨segment, segments, rfl⟩ := List.exists_cons_of_ne_nil hne
  have htext : ∀ c ∈ segment ++ segments.flatMap ('/' :: ·), (!endsPath c) = true := by
    intro c hc
    rw [Bool.not_eq_true']
    rcases List.mem_append.mp hc with hc | hc
    · exact hends segment (.head _) c hc
    · obtain ⟨text, htext, hc⟩ := List.mem_flatMap.mp hc
      rcases List.mem_cons.mp hc with rfl | hc
      · rfl
      · exact hends text (.tail _ htext) c hc
  rw [List.flatMap_cons, List.cons_append, parsePathStart,
    if_pos (show isSlash '/' = true from rfl), parsePath, List.takeWhile_eq_self_iff.mpr htext,
    List.dropWhile_eq_nil_iff.mpr htext, splitSegments_pathname hslash]
  rfl

/-- The path and what follows it are read back. -/
theorem Normal.parsePathStart_text (N : u.Normal P) :
    { u with path := [], query := none, fragment := none }.parsePathStart
      (u.pathname ++ ((u.query.map ('?' :: ·)).getD [] ++ (u.fragment.map ('#' :: ·)).getD [])) =
        u := by
  obtain ⟨segment, segments, hpath⟩ := List.exists_cons_of_ne_nil N.path_ne_nil
  have hnormal := N.path
  rw [hpath] at hnormal
  set tail := (u.query.map ('?' :: ·)).getD [] ++ (u.fragment.map ('#' :: ·)).getD [] with htail
  have hends : ∀ c ∈ segment ++ segments.flatMap ('/' :: ·), (!endsPath c) = true := by
    intro c hc
    rw [Bool.not_eq_true']
    rcases List.mem_append.mp hc with hc | hc
    · exact noEnd_of_normalSegment (hnormal segment (.head _)) c hc
    · exact pathname_noEnd (fun text h => hnormal text (.tail _ h)) c hc
  have htake : tail.takeWhile (!endsPath ·) = [] ∧ tail.dropWhile (!endsPath ·) = tail := by
    rw [htail]
    cases u.query <;> cases u.fragment <;> simp [endsPath]
  have hsegments := splitSegments_pathname fun text h => (hnormal text h).noSlash
  have hstart : u.pathname ++ tail = '/' :: (segment ++ segments.flatMap ('/' :: ·) ++ tail) := by
    simp [pathname, hpath]
  rw [hstart, parsePathStart, if_pos (show isSlash '/' = true from rfl), parsePath,
    List.takeWhile_append_of_pos hends, List.dropWhile_append_of_pos hends, htake.1, htake.2,
    List.append_nil, hsegments, addSegments_of_normal hnormal, List.nil_append, ← hpath]
  exact N.parseTail_text

/-! ### The authority -/

theorem isHostChar_bounds {c : Char} (h : isHostChar c = true) :
    Visible c ∧ endsAuthority c = false ∧ c ≠ '@' := by
  have hne : ∀ d, isHostChar d = false → c ≠ d := by
    rintro d hd rfl
    exact Bool.false_ne_true (hd.symm.trans h)
  have hslash : isSlash c = false := by simp [isSlash, hne '/' rfl, hne '\\' rfl]
  refine ⟨?_, by simp [endsAuthority, hslash, hne '?' rfl, hne '#' rfl], hne '@' rfl⟩
  simp only [isHostChar, Bool.and_eq_true, decide_eq_true_eq] at h
  exact ⟨h.1.1.1, by omega⟩

theorem isDigit_bounds {c : Char} (h : c.isDigit = true) :
    Visible c ∧ endsAuthority c = false ∧ c ≠ '@' := by
  have hne : ∀ d, Char.isDigit d = false → c ≠ d := by
    rintro d hd rfl
    exact Bool.false_ne_true (hd.symm.trans h)
  have hslash : isSlash c = false := by simp [isSlash, hne '/' rfl, hne '\\' rfl]
  refine ⟨?_, by simp [endsAuthority, hslash, hne '?' rfl, hne '#' rfl], hne '@' rfl⟩
  simp only [Char.isDigit, Bool.and_eq_true, decide_eq_true_eq, ge_iff_le,
    UInt32.le_iff_toNat_le] at h
  have : c.toNat = c.val.toNat := rfl
  have : '0'.val.toNat = 48 := rfl
  have : '9'.val.toNat = 57 := rfl
  constructor <;> omega

theorem userinfoSet_bounds {c : Char} (h : userinfoSet c = false) :
    Visible c ∧ endsAuthority c = false := by
  have hne : ∀ d, userinfoSet d = true → c ≠ d := fun d hd => ne_of_set hd h
  have hslash : isSlash c = false := by simp [isSlash, hne '/' rfl, hne '\\' rfl]
  exact ⟨visible_of_querySet (querySet_of_pathSet (pathSet_of_userinfoSet h)),
    by simp [endsAuthority, hslash, hne '?' rfl, hne '#' rfl]⟩

/-- The host and the port of an authority. -/
def hostPort (u : HttpUrl) : List Char := u.host ++ if u.port.isSome then ':' :: u.portText else []

theorem authority_eq (u : HttpUrl) : u.authority = u.credentials ++ u.hostPort := by
  simp [authority, hostPort]

theorem Rooted.hostPort_bounds (R : u.Rooted P) :
    ∀ c ∈ u.hostPort, Visible c ∧ endsAuthority c = false ∧ c ≠ '@' := by
  intro c hc
  rcases List.mem_append.mp hc with hc | hc
  · exact isHostChar_bounds (P.host_chars R.host c hc)
  · cases hport : u.port with
    | none => simp [hport] at hc
    | some n =>
      simp only [hport, Option.isSome_some, if_true, portText, Option.map_some,
        Option.getD_some, List.mem_cons] at hc
      rcases hc with rfl | hc
      · decide
      · exact isDigit_bounds (Nat.isDigit_of_mem_toDigits (by omega) (by omega) hc)

theorem Rooted.credentials_bounds (R : u.Rooted P) :
    ∀ c ∈ u.credentials, Visible c ∧ endsAuthority c = false := by
  intro c hc
  rw [credentials] at hc
  split at hc
  · cases hc
  · simp only [List.mem_append, List.mem_singleton] at hc
    rcases hc with (hc | hc) | rfl
    · exact userinfoSet_bounds (R.username c hc)
    · split at hc
      · cases hc
      · rcases List.mem_cons.mp hc with rfl | hc
        · decide
        · exact userinfoSet_bounds (R.password c hc)
    · decide

theorem Rooted.hostPort_ne_nil (R : u.Rooted P) : u.hostPort ≠ [] := by
  intro h
  exact P.host_ne_nil R.host (List.append_eq_nil_iff.mp h).1

theorem Rooted.splitUserinfo_authority (R : u.Rooted P) :
    (splitUserinfo u.authority).getD ([], u.authority) =
      (u.username ++ if u.password = [] then [] else ':' :: u.password, u.hostPort) := by
  have hat : '@' ∉ u.hostPort := fun h => (R.hostPort_bounds _ h).2.2 rfl
  rw [authority_eq, credentials]
  split
  next h =>
    rw [Bool.and_eq_true, decide_eq_true_eq, decide_eq_true_eq] at h
    rw [List.nil_append, splitUserinfo_eq_none hat, h.1, h.2]
    rfl
  next =>
    rw [List.append_assoc, List.singleton_append, splitUserinfo_append _ hat]
    rfl

theorem Rooted.splitPort_hostPort (R : u.Rooted P) :
    splitPort false u.hostPort = (u.host, u.port.map (Nat.toDigits 10)) := by
  rw [hostPort, splitPort_append (P.host_brackets R.host)]
  cases hport : u.port <;> simp [splitPort, portText, hport]

theorem Rooted.parsePort_port (R : u.Rooted P) :
    parsePort u.scheme ((u.port.map (Nat.toDigits 10)).getD []) = some u.port := by
  cases hport : u.port with
  | none => rfl
  | some n =>
    obtain ⟨hle, hne⟩ := R.port n hport
    exact parsePort_toDigits hle hne

/-- The credentials are read back. -/
theorem Rooted.userinfo (R : u.Rooted P) :
    percentEncode userinfoSet ((u.username ++
      if u.password = [] then [] else ':' :: u.password).takeWhile (· ≠ ':')) = u.username ∧
    percentEncode userinfoSet ((u.username ++
      if u.password = [] then [] else ':' :: u.password).dropWhile (· ≠ ':')).tail =
        u.password := by
  have hne : ∀ c ∈ u.username, decide (c ≠ ':') = true :=
    fun c hc => decide_eq_true (ne_of_set rfl (R.username c hc))
  rw [List.takeWhile_append_of_pos hne, List.dropWhile_append_of_pos hne]
  split
  next h => simp [h, percentEncode_of_clear R.username]
  next => simp [percentEncode_of_clear R.username, percentEncode_of_clear R.password]

/-! ### The whole text -/

/-- The text of what follows the authority. -/
def tailText (u : HttpUrl) : List Char :=
  u.pathname ++ ((u.query.map ('?' :: ·)).getD [] ++ (u.fragment.map ('#' :: ·)).getD [])

theorem href_eq (u : HttpUrl) :
    u.href = u.scheme ++ ':' :: '/' :: '/' :: (u.authority ++ u.tailText) := by
  simp [href, tailText]

theorem Normal.tailText_head (N : u.Normal P) : ∃ rest, u.tailText = '/' :: rest := by
  obtain ⟨segment, segments, hpath⟩ := List.exists_cons_of_ne_nil N.path_ne_nil
  simp [tailText, pathname, hpath]

/-- The authority is read back, before a path or at the end of the text. -/
theorem Rooted.parseAuthority_text (R : u.Rooted P) {tail : List Char}
    (htail : tail = [] ∨ ∃ rest, tail = '/' :: rest) :
    parseAuthority P u.scheme (u.authority ++ tail) =
      some ({ u with path := [], query := none, fragment := none }.parsePathStart tail) := by
  have hends : ∀ c ∈ u.authority, (!endsAuthority c) = true := by
    intro c hc
    rw [Bool.not_eq_true']
    rw [authority_eq] at hc
    rcases List.mem_append.mp hc with hc | hc
    · exact (R.credentials_bounds c hc).2
    · exact (R.hostPort_bounds c hc).2.1
  have htake : (u.authority ++ tail).takeWhile (!endsAuthority ·) = u.authority := by
    rw [List.takeWhile_append_of_pos hends]
    rcases htail with rfl | ⟨rest, rfl⟩ <;> simp [endsAuthority, isSlash]
  have hdrop : (u.authority ++ tail).dropWhile (!endsAuthority ·) = tail := by
    rw [List.dropWhile_append_of_pos hends]
    rcases htail with rfl | ⟨rest, rfl⟩ <;> simp [endsAuthority, isSlash]
  obtain ⟨husername, hpassword⟩ := R.userinfo
  simp only [parseAuthority, htake, hdrop, R.splitUserinfo_authority, R.splitPort_hostPort,
    if_neg (P.host_ne_nil R.host), R.host, R.parsePort_port, husername, hpassword]

theorem Rooted.authority_head (R : u.Rooted P) :
    ∃ c rest, u.authority = c :: rest ∧ isSlash c = false := by
  have hne : u.authority ≠ [] := by
    rw [authority_eq]
    exact fun h => R.hostPort_ne_nil (List.append_eq_nil_iff.mp h).2
  obtain ⟨c, rest, h⟩ := List.exists_cons_of_ne_nil hne
  refine ⟨c, rest, h, ?_⟩
  have hc : c ∈ u.credentials ++ u.hostPort := by
    rw [← authority_eq, h]
    exact .head _
  have hends : endsAuthority c = false := by
    rcases List.mem_append.mp hc with hc | hc
    · exact (R.credentials_bounds c hc).2
    · exact (R.hostPort_bounds c hc).2.1
  simp only [endsAuthority, Bool.or_eq_false_iff] at hends
  exact hends.1.1

theorem Rooted.visible_tailText (R : u.Rooted P) : ∀ c ∈ u.tailText, Visible c := by
  intro c hc
  rw [tailText] at hc
  rcases List.mem_append.mp hc with hc | hc
  · obtain ⟨segment, hsegment, hc⟩ := List.mem_flatMap.mp hc
    rcases List.mem_cons.mp hc with rfl | hc
    · decide
    · exact visible_of_querySet (querySet_of_pathSet ((R.path segment hsegment).clear c hc))
  · rcases List.mem_append.mp hc with hc | hc
    · cases hquery : u.query with
      | none => simp [hquery] at hc
      | some q =>
        simp only [hquery, Option.map_some, Option.getD_some, List.mem_cons] at hc
        rcases hc with rfl | hc
        · decide
        · have := R.query q hquery c hc
          simp only [specialQuerySet, Bool.or_eq_false_iff] at this
          exact visible_of_querySet this.1
    · cases hfragment : u.fragment with
      | none => simp [hfragment] at hc
      | some f =>
        simp only [hfragment, Option.map_some, Option.getD_some, List.mem_cons] at hc
        rcases hc with rfl | hc
        · decide
        · exact visible_of_fragmentSet (R.fragment f hfragment c hc)

theorem Rooted.visible_origin (R : u.Rooted P) :
    ∀ c ∈ u.scheme ++ ':' :: '/' :: '/' :: u.authority, Visible c := by
  intro c hc
  rw [authority_eq] at hc
  simp only [List.mem_append, List.mem_cons] at hc
  rcases hc with hc | rfl | rfl | rfl | hc | hc
  · have hscheme : ∀ c ∈ httpsScheme, Visible c := by simp [httpsScheme, Visible]
    rcases R.scheme with h | h <;> rw [h] at hc
    · exact hscheme c ((List.prefix_append httpScheme ['s']).subset hc)
    · exact hscheme c hc
  · decide
  · decide
  · decide
  · exact (R.credentials_bounds c hc).1
  · exact (R.hostPort_bounds c hc).1

end HttpUrl

theorem Url.parse_text {P : Platform} {u : HttpUrl} (R : u.Rooted P) {tail : List Char}
    (htail : tail = [] ∨ ∃ rest, tail = '/' :: rest) (hvisible : ∀ c ∈ tail, Visible c) :
    parse P (u.scheme ++ ':' :: '/' :: '/' :: (u.authority ++ tail)) none = some (.http
      ({ u with path := [], query := none, fragment := none }.parsePathStart tail)) := by
  obtain ⟨c, rest, hhead, hslash⟩ := R.authority_head
  have hdrop : ('/' :: '/' :: (u.authority ++ tail)).dropWhile isSlash = u.authority ++ tail := by
    rw [List.dropWhile_cons_of_pos rfl, List.dropWhile_cons_of_pos rfl, hhead, List.cons_append]
    exact List.dropWhile_cons_of_neg (by simp [hslash])
  have hhttp : (u.scheme = httpScheme || u.scheme = httpsScheme) = true := by simpa using R.scheme
  have hclean : clean (u.scheme ++ ':' :: '/' :: '/' :: (u.authority ++ tail)) =
      u.scheme ++ ':' :: '/' :: '/' :: (u.authority ++ tail) := by
    refine clean_eq_self fun c hc => ?_
    have hsplit : u.scheme ++ ':' :: '/' :: '/' :: (u.authority ++ tail) =
        (u.scheme ++ ':' :: '/' :: '/' :: u.authority) ++ tail := by simp
    rcases List.mem_append.mp (hsplit ▸ hc) with hc | hc
    · exact R.visible_origin c hc
    · exact hvisible c hc
  simp only [parse, hclean, splitScheme_scheme R.scheme, if_pos hhttp, parseSlashes, hdrop,
    R.parseAuthority_text htail, Option.map_some]

/-- The text of a normal record is read back as the record. -/
theorem Url.parse_href {P : Platform} {u : HttpUrl} (N : u.Normal P) :
    parse P u.href none = some (.http u) := by
  rw [HttpUrl.href_eq, parse_text N.toRooted (.inr N.tailText_head) N.visible_tailText]
  exact congrArg (some ∘ Url.http) N.parsePathStart_text

/-! ## Whether there is a query or a fragment -/

theorem mem_dropWhile_of_neg {α : Type*} {p : α → Bool} {a : α} (h : p a = false) {l : List α} :
    a ∈ l.dropWhile p ↔ a ∈ l := by
  induction l with
  | nil => simp
  | cons b l ih =>
    rw [List.dropWhile_cons]
    split
    next hb =>
      have hne : a ≠ b := by
        rintro rfl
        exact Bool.false_ne_true (h.symm.trans hb)
      simp [ih, hne]
    next => rfl

theorem mem_clean_of_visible {c : Char} (h : Visible c) {text : List Char} :
    c ∈ clean text ↔ c ∈ text := by
  have hdrop : ∀ l : List Char, c ∈ l.dropWhile (·.toNat ≤ 0x20) ↔ c ∈ l := by
    intro l
    apply mem_dropWhile_of_neg
    have := h.1
    simp
    omega
  have hkeep : isTabOrNewline c = false := by
    simp only [isTabOrNewline, Bool.or_eq_false_iff, decide_eq_false_iff_not]
    refine ⟨⟨?_, ?_⟩, ?_⟩ <;> rintro rfl <;> simp [Visible] at h
  simp only [clean, List.mem_filter, List.mem_reverse, hkeep, Bool.not_false, and_true]
  rw [hdrop, List.mem_reverse, hdrop]

theorem eq_of_endsPath {c : Char} (h : endsPath c = true) : c = '?' ∨ c = '#' := by
  simpa [endsPath] using h

theorem mem_splitScheme {text scheme rest : List Char} (h : splitScheme text = some (scheme, rest))
    {c : Char} (hc : endsPath c = true) : c ∈ rest ↔ c ∈ text := by
  cases text with
  | nil => cases h
  | cons first text =>
    rw [splitScheme] at h
    split at h
    next halpha =>
      split at h
      next rest' hrest =>
        cases h
        have hscheme : isSchemeChar c = false := by
          rcases eq_of_endsPath hc with rfl | rfl <;> rfl
        have hfirst : c ≠ first := by
          rintro rfl
          rcases eq_of_endsPath hc with rfl | rfl <;> cases halpha
        have hcolon : c ≠ ':' := by
          rintro rfl
          cases hc
        have htext : c ∈ text.dropWhile isSchemeChar ↔ c ∈ text := mem_dropWhile_of_neg hscheme
        rw [List.mem_cons, ← htext, hrest]
        simp [hfirst, hcolon]
      next => cases h
    next => cases h

/-- The text holds no character that starts a query or a fragment. -/
def Bare (text : List Char) : Prop := ∀ c ∈ text, endsPath c = false

theorem bare_congr {a b : List Char} (h : ∀ c, endsPath c = true → (c ∈ a ↔ c ∈ b)) :
    Bare a ↔ Bare b := by
  constructor
  · intro ha c hc
    rw [Bool.eq_false_iff]
    intro hends
    exact Bool.false_ne_true ((ha c ((h c hends).mpr hc)).symm.trans hends)
  · intro hb c hc
    rw [Bool.eq_false_iff]
    intro hends
    exact Bool.false_ne_true ((hb c ((h c hends).mp hc)).symm.trans hends)

namespace HttpUrl

variable {u : HttpUrl}

theorem parsePath_bare_iff (hquery : u.query = none) (hfragment : u.fragment = none)
    (text : List Char) :
    ((u.parsePath text).query = none ∧ (u.parsePath text).fragment = none) ↔ Bare text := by
  rw [parsePath]
  have hbare : text.dropWhile (!endsPath ·) = [] ↔ Bare text := by
    simp [List.dropWhile_eq_nil_iff, Bare]
  cases hrest : text.dropWhile (!endsPath ·) with
  | nil => exact iff_of_true ⟨hquery, hfragment⟩ (hbare.mp hrest)
  | cons c rest =>
    have hc : endsPath c = true := by
      have := List.head?_dropWhile_not (!endsPath ·) text
      simpa [hrest] using this
    refine iff_of_false ?_ fun h => List.cons_ne_nil _ _ (hrest.symm.trans (hbare.mpr h))
    rintro ⟨hq, hf⟩
    rcases eq_of_endsPath hc with rfl | rfl
    · simp only [parseTail] at hq
      split at hq <;> cases hq
    · simp only [parseTail] at hf
      cases hf

theorem parsePathStart_bare_iff (hquery : u.query = none) (hfragment : u.fragment = none)
    (text : List Char) :
    ((u.parsePathStart text).query = none ∧ (u.parsePathStart text).fragment = none) ↔
      Bare text := by
  cases text with
  | nil => exact parsePath_bare_iff hquery hfragment []
  | cons c text =>
    rw [parsePathStart, parsePath_bare_iff hquery hfragment]
    split
    next hslash =>
      refine bare_congr fun d hd => ?_
      have hne : d ≠ c := by
        rintro rfl
        rcases eq_of_endsPath hd with rfl | rfl <;> cases hslash
      simp [hne]
    next => rfl

end HttpUrl

theorem parseSlashes_bare_iff {P : Platform} {scheme text : List Char} {u : HttpUrl}
    (h : parseSlashes P scheme text = some u) :
    (u.query = none ∧ u.fragment = none) ↔ Bare text := by
  simp only [parseSlashes, parseAuthority] at h
  split at h
  · cases h
  · split at h
    next =>
      rw [← Option.some.inj h, HttpUrl.parsePathStart_bare_iff rfl rfl]
      refine bare_congr fun c hc => ?_
      rw [mem_dropWhile_of_neg, mem_dropWhile_of_neg]
      · rcases eq_of_endsPath hc with rfl | rfl <;> rfl
      · rcases eq_of_endsPath hc with rfl | rfl <;> rfl
    next => cases h

/-- A URL has neither a query nor a fragment, not even an empty one, if its text has neither of
the two characters that start them. -/
theorem Url.parse_bare_iff {P : Platform} {text : List Char} {u : HttpUrl}
    (h : parse P text none = some (.http u)) :
    (u.query = none ∧ u.fragment = none) ↔ Bare text := by
  have hclean : Bare (clean text) ↔ Bare text := by
    refine bare_congr fun c hc => mem_clean_of_visible ?_
    rcases eq_of_endsPath hc with rfl | rfl <;> decide
  simp only [parse] at h
  split at h
  next scheme rest hscheme =>
    split at h
    · obtain ⟨v, hv, hu⟩ := Option.map_eq_some_iff.mp h
      cases hu
      rw [parseSlashes_bare_iff hv, ← hclean]
      exact bare_congr fun c hc => mem_splitScheme hscheme hc
    · obtain ⟨v, -, hu⟩ := Option.map_eq_some_iff.mp h
      cases hu
  next => cases h

end CliProxy.Lib
