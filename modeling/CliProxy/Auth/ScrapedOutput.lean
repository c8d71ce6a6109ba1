import CliProxy.Auth.ClaudeSetupToken
import CliProxy.Auth.CodexDeviceAuth

/-! # How output is split does not matter, where the match is whole

What a probe accepts in a buffer is what it finds in the whole output exactly if the match is
settled there, or what follows does not go on with it. -/

namespace CliProxy.Auth

open Lib (Reader Settled Lexeme)

/-! ### What further output can change -/

/-- The visible text of a buffer, up to an escape sequence that is still open at its end. -/
def settledText (buffer : List Char) : List Char := (ANSI.settled buffer).others

/-- The visible text that follows the settled text once `rest` has been printed too. -/
def textAfter (buffer rest : List Char) : List Char :=
  (ANSI.late (ANSI.settled buffer) rest).filterMap Lexeme.other?

theorem stripAnsi_append (buffer rest : List Char) :
    stripAnsi (buffer ++ rest) = settledText buffer ++ textAfter buffer rest :=
  ANSI.erase_append buffer rest

theorem stripAnsi_eq (buffer : List Char) :
    stripAnsi buffer = settledText buffer ++ textAfter buffer [] := by
  have h := stripAnsi_append buffer []
  rwa [List.append_nil] at h

/-- The matches that the visible text holds from the settled state of a pattern on. -/
def matchesAfter (r : Reader Char) (buffer rest : List Char) : List (List Char) :=
  (r.late (r.settled (settledText buffer)) (textAfter buffer rest)).filterMap Lexeme.piece?

theorem matchAll_stripAnsi (r : Reader Char) (buffer rest : List Char) :
    r.matchAll (stripAnsi (buffer ++ rest)) =
      (r.settled (settledText buffer)).matched ++ matchesAfter r buffer rest := by
  rw [stripAnsi_append, r.matchAll_append]
  rfl

theorem definite_tokenHead : Reader.Definite
    (((Reader.many Char.isDigit).atLeast 1).seq (Reader.one (· = '-'))) :=
  Reader.definite_many_one 1 none _ _

theorem continues_OAUTH_TOKEN : OAUTH_TOKEN.Continues isTokenChar :=
  ((((Reader.continues_many isTokenChar).atLeast 1).seq definite_tokenHead).seq
    (Reader.definite_literal _))

theorem continues_PLAIN_URL : PLAIN_URL.Continues isUrlChar :=
  ((Reader.continues_many isUrlChar).atLeast 1).seq (Reader.definite_literal _)

theorem endsBefore_USER_CODE : USER_CODE.EndsBefore isWordChar := by
  refine (Reader.endsBefore_word (fun c hc => ?_) 4 (some 10)).seq
    ((Reader.definite_many_one 4 (some 10) _ _).boundary_seq (fun _ => rfl) _)
  rw [isWordChar, Char.isAlphanum, Char.isAlpha]
  simp only [Bool.or_eq_true] at hc ⊢
  tauto

/-! ### The conditions -/

section
variable (r : Reader Char) (p : Char → Bool) (accept : List Char → Bool)
  (buffer rest value : List Char)

/-- The first accepted match `value` of the buffer is whole, where `rest` follows. Either it is
settled; or it is the match at the end of the settled text, and the same characters of the class
go on with it in the buffer and in the whole output; or it was read inside an escape sequence
that is open at the end of the buffer, and the whole output shows the same text there. -/
inductive Whole : Prop
  | settled (h : (r.settled (settledText buffer)).matched.find? accept = some value)
  | ended {word : List Char}
    (hnone : (r.settled (settledText buffer)).matched.find? accept = none)
    (hopen : r.openMatch (r.settled (settledText buffer)) = some word) (haccept : accept word = true)
    (h : (textAfter buffer []).takeWhile p = (textAfter buffer rest).takeWhile p)
  | exposed
    (hnone : (r.settled (settledText buffer)).matched.find? accept = none)
    (hopen : ∀ word, r.openMatch (r.settled (settledText buffer)) = some word → accept word = false)
    (h : (matchesAfter r buffer rest).find? accept = some value)

/-- As `Whole`, for a match that needs a boundary of words behind it. -/
inductive WholeWord : Prop
  | settled (h : (r.settled (settledText buffer)).matched.head? = some value)
  | ended {word : List Char} (hnone : (r.settled (settledText buffer)).matched = [])
    (hopen : r.openMatch (r.settled (settledText buffer)) = some word)
    (hbuffer : (textAfter buffer []).head?.any p = false)
    (h : (textAfter buffer rest).head?.any p = false)
  | exposed (hnone : (r.settled (settledText buffer)).matched = [])
    (hopen : r.openMatch (r.settled (settledText buffer)) = none ∨
      (textAfter buffer []).head?.any p = true ∨ (textAfter buffer rest).head?.any p = true)
    (h : (matchesAfter r buffer rest).head? = some value)

end

section
variable {r : Reader Char} {p : Char → Bool} {accept : List Char → Bool}
  {buffer rest value : List Char}

theorem whole_iff (hcontinues : r.Continues p)
    (haccept : ∀ word more, accept word = true → accept (word ++ more) = true)
    (h : (r.matchAll (stripAnsi buffer)).find? accept = some value) :
    (r.matchAll (stripAnsi (buffer ++ rest))).find? accept = some value ↔
      Whole r p accept buffer rest value := by
  have hbuffer := matchAll_stripAnsi r buffer []
  rw [List.append_nil] at hbuffer
  rw [hbuffer, List.find?_append] at h
  rw [matchAll_stripAnsi, List.find?_append]
  cases hm : (r.settled (settledText buffer)).matched.find? accept with
  | some w =>
    rw [hm, Option.some_or] at h
    rw [Option.some_or]
    exact iff_of_true h (.settled (hm.trans h))
  | none =>
    rw [hm, Option.none_or] at h
    rw [Option.none_or]
    by_cases hopen : ∃ word, r.openMatch (r.settled (settledText buffer)) = some word ∧
        accept word = true
    · obtain ⟨word, hword, ha⟩ := hopen
      have hfirst : ∀ rest, (matchesAfter r buffer rest).find? accept =
          some (word ++ (textAfter buffer rest).takeWhile p) := by
        intro rest
        obtain ⟨pieces, hpieces⟩ := hcontinues.late hword (textAfter buffer rest)
        rw [matchesAfter, hpieces, List.find?_cons_of_pos (haccept word _ ha)]
      rw [hfirst, Option.some.injEq] at h
      rw [hfirst, Option.some.injEq, ← h, List.append_cancel_left_eq]
      constructor
      · exact fun he => .ended hm hword ha he.symm
      · rintro (hs | ⟨-, -, -, he⟩ | ⟨-, hnone, -⟩)
        · exact absurd (hs.symm.trans hm) (Option.some_ne_none _)
        · exact he.symm
        · exact absurd (ha.symm.trans (hnone word hword)) Bool.false_ne_true.symm
    · have hnone : ∀ word, r.openMatch (r.settled (settledText buffer)) = some word →
          accept word = false :=
        fun word hword => Bool.eq_false_iff.mpr fun ha => hopen ⟨word, hword, ha⟩
      constructor
      · exact fun hl => .exposed hm hnone hl
      · rintro (hs | ⟨-, hword, ha, -⟩ | ⟨-, -, hl⟩)
        · exact absurd (hs.symm.trans hm) (Option.some_ne_none _)
        · exact absurd ⟨_, hword, ha⟩ hopen
        · exact hl

theorem wholeWord_iff (hends : r.EndsBefore p)
    (h : (r.matchAll (stripAnsi buffer)).head? = some value) :
    (r.matchAll (stripAnsi (buffer ++ rest))).head? = some value ↔
      WholeWord r p buffer rest value := by
  have hbuffer := matchAll_stripAnsi r buffer []
  rw [List.append_nil] at hbuffer
  rw [hbuffer] at h
  rw [matchAll_stripAnsi]
  cases hm : (r.settled (settledText buffer)).matched with
  | cons w pieces =>
    rw [hm, List.cons_append, List.head?_cons] at h
    rw [List.cons_append, List.head?_cons]
    refine iff_of_true h (.settled ?_)
    rw [hm, List.head?_cons, h]
  | nil =>
    rw [hm, List.nil_append] at h
    rw [List.nil_append]
    constructor
    · intro hl
      by_cases hopen : r.openMatch (r.settled (settledText buffer)) = none ∨
          (textAfter buffer []).head?.any p = true ∨ (textAfter buffer rest).head?.any p = true
      · exact .exposed hm hopen hl
      · rw [not_or, not_or, Bool.not_eq_true, Bool.not_eq_true] at hopen
        obtain ⟨word, hword⟩ := Option.ne_none_iff_exists'.mp hopen.1
        exact .ended hm hword hopen.2.1 hopen.2.2
    · rintro (hs | ⟨-, hword, hb, hr⟩ | ⟨-, -, hl⟩)
      · rw [hm] at hs
        exact absurd hs.symm (Option.some_ne_none value)
      · obtain ⟨_, hpieces⟩ := hends.late hword hb
        obtain ⟨_, hpieces'⟩ := hends.late hword hr
        rw [matchesAfter, hpieces, List.head?_cons] at h
        rw [matchesAfter, hpieces', List.head?_cons, h]
      · exact hl

end

/-! ### An unfinished link holds no link -/

/-- The text behind the first semicolon. -/
def afterSemicolon (text : List Char) : List Char := (text.dropWhile (· ≠ ';')).tail

theorem afterSemicolon_suffix {w text : List Char} (h : w <:+ text) :
    afterSemicolon w <:+ afterSemicolon text := by
  induction text with
  | nil => rw [List.suffix_nil.mp h]
  | cons a text ih =>
    obtain rfl | h := List.suffix_cons_iff.mp h
    · exact List.suffix_refl _
    · by_cases ha : a = ';'
      · have hs : afterSemicolon w <:+ w := (List.tail_suffix _).trans (List.dropWhile_suffix _)
        rw [afterSemicolon.eq_def (a :: text), List.dropWhile_cons_of_neg (by simp [ha])]
        exact hs.trans h
      · rw [afterSemicolon.eq_def (a :: text), List.dropWhile_cons_of_pos (by simp [ha])]
        exact ih h

theorem afterSemicolon_open {text : List Char} :
    afterSemicolon ([esc, ']', '8', ';'] ++ text) = text := by
  rw [afterSemicolon]
  rfl

/-- The text of a link behind its second semicolon: the URI and what ends it. -/
def targetText (text : List Char) : List Char := afterSemicolon (afterSemicolon text)

/-- `ST` stands somewhere in the text. -/
def HasEnd (text : List Char) : Prop := bel ∈ text ∨ [esc, '\\'] <:+: text

theorem HasEnd.of_suffix {w text : List Char} (H : HasEnd w) (h : w <:+ text) : HasEnd text :=
  H.imp (h.subset ·) (·.trans h.isInfix)

theorem hasEnd_of_read {before : Option Char} {text : List Char} {n : Nat}
    (h : OSC8_LINK.read before text = some n) : HasEnd (targetText text) := by
  obtain ⟨_, _, hlit, h, -⟩ := Reader.seq_read.mp h
  obtain ⟨body, rfl, hbody⟩ := Reader.literal_read hlit
  rw [hbody] at h
  obtain ⟨_, _, h⟩ := Reader.many_seq_read h
  obtain ⟨a, target, _, _, hsep, -, h, -⟩ := Reader.one_seq_read h
  have htarget : targetText ([esc, ']', '8', ';'] ++ body) = target := by
    rw [targetText, afterSemicolon_open, afterSemicolon, hsep]
    rfl
  rw [htarget]
  obtain ⟨_, k, h⟩ := Reader.many_seq_read h
  have hsuffix : target.dropWhile (fun c => c ≠ esc && c ≠ bel) <:+ target :=
    List.dropWhile_suffix _
  refine HasEnd.of_suffix ?_ hsuffix
  generalize target.dropWhile (fun c => c ≠ esc && c ≠ bel) = final at h
  obtain h | ⟨-, h⟩ := Option.or_eq_some_iff.mp h
  · cases final with
    | nil => exact absurd h.symm (Option.some_ne_none k)
    | cons b final =>
      have h : (if decide (b = bel) = true then some 1 else none) = some k := h
      split at h
      next hb => exact .inl (of_decide_eq_true hb ▸ List.mem_cons_self)
      next => exact absurd h.symm (Option.some_ne_none k)
  · obtain ⟨final, rfl, -⟩ := Reader.literal_read h
    exact .inr (List.prefix_append _ _).isInfix

theorem not_hasEnd_of_plain {text : List Char} (h : ∀ a ∈ text, (a ≠ esc && a ≠ bel) = true) :
    ¬HasEnd text := by
  have hesc : esc ∉ text := fun hm => by simpa using h esc hm
  rintro (hbel | hst)
  · simpa using h bel hbel
  · exact hesc (hst.subset List.mem_cons_self)

theorem not_hasEnd_of_esc {text : List Char} (h : ∀ a ∈ text, (a ≠ esc && a ≠ bel) = true) :
    ¬HasEnd (text ++ [esc]) := by
  rintro (hbel | ⟨a, b, hst⟩)
  · obtain hm | hm := List.mem_append.mp hbel
    · exact not_hasEnd_of_plain h (.inl hm)
    · exact absurd (List.mem_singleton.mp hm) (by decide)
  · cases b using List.reverseRecOn with
    | nil =>
      rw [List.append_nil, show [esc, '\\'] = [esc] ++ ['\\'] from rfl, ← List.append_assoc] at hst
      exact absurd (List.append_inj_right' hst rfl) (by decide)
    | append_singleton b c =>
      rw [← List.append_assoc] at hst
      have hst := List.append_inj_left' hst rfl
      exact not_hasEnd_of_plain h (.inr ⟨a, b, hst⟩)

theorem not_hasEnd_of_unfinished {before : Option Char} {text : List Char}
    (h : OSC8_LINK.unfinished before text = true) : ¬HasEnd (targetText text) := by
  have hnil : ¬HasEnd [] := not_hasEnd_of_plain (List.forall_mem_nil _)
  obtain h | ⟨_, hlit, h⟩ := Reader.seq_unfinished.mp h
  · obtain ⟨a, rest, he⟩ := Reader.literal_unfinished h
    have hlength := congrArg List.length he
    rw [List.length_append, List.length_cons] at hlength
    have hshort : text <+: [esc, ']', '8'] := by
      refine List.prefix_of_prefix_length_le ⟨a :: rest, he.symm⟩ ⟨[';'], rfl⟩ ?_
      simp only [List.length_cons, List.length_nil] at hlength ⊢
      omega
    have hsemicolon : ∀ c ∈ text, decide (c ≠ ';') = true := by
      have hthree : ∀ c ∈ [esc, ']', '8'], decide (c ≠ ';') = true := by simp [esc]
      exact fun c hc => hthree c (hshort.subset hc)
    have hempty : targetText text = [] := by
      rw [targetText, afterSemicolon.eq_def text, List.dropWhile_eq_nil_iff.mpr hsemicolon]
      rfl
    rw [hempty]
    exact hnil
  · obtain ⟨body, rfl, hbody⟩ := Reader.literal_read hlit
    rw [hbody] at h
    rw [targetText, afterSemicolon_open, afterSemicolon]
    obtain hall | ⟨_, h⟩ := Reader.many_seq_unfinished h
    · rw [List.dropWhile_eq_nil_iff.mpr hall]
      exact hnil
    obtain hsep | ⟨a, target, _, hsep, -, h⟩ := Reader.one_seq_unfinished h
    · rw [hsep]
      exact hnil
    rw [hsep, List.tail_cons]
    obtain hall | ⟨_, h⟩ := Reader.many_seq_unfinished h
    · exact not_hasEnd_of_plain hall
    have hplain : ∀ a ∈ target.takeWhile (fun c => c ≠ esc && c ≠ bel), (a ≠ esc && a ≠ bel) = true :=
      List.all_eq_true.mp List.all_takeWhile
    rw [← List.takeWhile_append_dropWhile (p := fun c => c ≠ esc && c ≠ bel) (l := target)]
    generalize target.dropWhile (fun c => c ≠ esc && c ≠ bel) = final at h ⊢
    have hfinal : final = [] ∨ final = [esc] := by
      cases final with
      | nil => exact .inl rfl
      | cons b final =>
        obtain h | h := Reader.orElse_unfinished.mp h
        · exact absurd h Bool.false_ne_true
        · obtain ⟨c, rest, he⟩ := Reader.literal_unfinished h.2
          rw [List.cons_append] at he
          obtain ⟨rfl, he⟩ := List.cons.inj he
          cases final with
          | nil => exact .inr rfl
          | cons d final =>
            have := congrArg List.length he
            simp at this
    obtain rfl | rfl := hfinal
    · rw [List.append_nil]
      exact not_hasEnd_of_plain hplain
    · exact not_hasEnd_of_esc hplain

/-! ### Verification URLs -/

/-- The target of a link that may be handed out as a verification URL. -/
def acceptedTarget (accept : List Char → Bool) (link : List Char) : Option (List Char) :=
  if "https://".toList.isPrefixOf (linkTarget link) && accept (linkTarget link) then
    some (linkTarget link)
  else none

def firstLink (accept : List Char → Bool) (buffer : List Char) : Option (List Char) :=
  OSC8_LINK.firstMatch (acceptedTarget accept) buffer

/-- The first accepted link that further output completes. -/
def linkAfter (accept : List Char → Bool) (buffer rest : List Char) : Option (List Char) :=
  ((OSC8_LINK.late (OSC8_LINK.settled buffer) rest).filterMap Lexeme.piece?).findSome?
    (acceptedTarget accept)

/-- Leaving out the links that are there already does not change the first accepted one. -/
theorem find_foldl_links {f : List Char → Bool} (hf : f [] = false)
    (links seen : List (List Char)) :
    (links.foldl (fun links link =>
      if linkTarget link ≠ [] ∧ linkTarget link ∉ links then links ++ [linkTarget link]
      else links) seen).find? f =
    (seen.find? f).or
      (links.findSome? fun link => if f (linkTarget link) then some (linkTarget link) else none) := by
  induction links generalizing seen with
  | nil => exact (Option.or_none).symm
  | cons link links ih =>
    rw [List.foldl_cons, ih, List.findSome?_cons]
    cases ha : f (linkTarget link) with
    | false =>
      split
      · rw [List.find?_append, List.find?_cons_of_neg (by rw [ha]; exact Bool.false_ne_true),
          List.find?_nil, Option.or_none]
        rfl
      · rfl
    | true =>
      split
      · rw [List.find?_append, List.find?_cons_of_pos ha, Option.or_assoc]
        rfl
      next hmem =>
        have hne : linkTarget link ≠ [] := by
          intro he
          rw [he, hf] at ha
          exact Bool.false_ne_true ha
        rw [not_and, not_not] at hmem
        obtain ⟨uri, huri⟩ := Option.isSome_iff_exists.mp
          (List.find?_isSome.mpr ⟨linkTarget link, hmem hne, ha⟩)
        rw [huri, Option.some_or, Option.some_or]

theorem find_extractOsc8Links (accept : List Char → Bool) (buffer : List Char) :
    ((extractOsc8Links buffer).find? fun uri => "https://".toList.isPrefixOf uri && accept uri) =
      firstLink accept buffer :=
  find_foldl_links rfl _ _

/-- An unfinished link holds no link: what is accepted in a buffer is settled there. -/
theorem linkAfter_nil (accept : List Char → Bool) (buffer : List Char) :
    linkAfter accept buffer [] = none := by
  rw [linkAfter, Reader.late, List.append_nil]
  obtain hnil | hopen := OSC8_LINK.unfinished_tail none 0 buffer
  · rw [Reader.settled, hnil]
    rfl
  · rw [OSC8_LINK.lexFrom_of_read_none]
    · rfl
    · intro before w hw
      by_contra hread
      obtain ⟨n, hn⟩ := Option.ne_none_iff_exists'.mp hread
      exact not_hasEnd_of_unfinished hopen
        ((hasEnd_of_read hn).of_suffix (afterSemicolon_suffix (afterSemicolon_suffix hw)))

/-- The URL `value` that is found in the buffer is whole, where `rest` follows: it is the target
of a link, or of a later one; or no link is accepted in the whole output, and the URL is whole as
a part of the visible text. -/
inductive WholeUrl (accept : List Char → Bool) (buffer rest value : List Char) : Prop
  | link (h : firstLink accept buffer = some value)
  | laterLink (hnone : firstLink accept buffer = none)
    (h : linkAfter accept buffer rest = some value)
  | plain (hnone : firstLink accept (buffer ++ rest) = none)
    (h : Whole PLAIN_URL isUrlChar accept buffer rest value)

theorem firstLink_append (accept : List Char → Bool) (buffer rest : List Char) :
    firstLink accept (buffer ++ rest) =
      (firstLink accept buffer).or (linkAfter accept buffer rest) := by
  have hbuffer := OSC8_LINK.firstMatch_append (acceptedTarget accept) buffer []
  rw [List.append_nil] at hbuffer
  rw [firstLink, OSC8_LINK.firstMatch_append, firstLink, hbuffer]
  have hnil : ((OSC8_LINK.late (OSC8_LINK.settled buffer) []).filterMap Lexeme.piece?).findSome?
      (acceptedTarget accept) = none := linkAfter_nil accept buffer
  rw [hnil, Option.or_none]
  rfl

theorem wholeUrl_iff {accept : List Char → Bool} {buffer rest value : List Char}
    (haccept : ∀ word more, accept word = true → accept (word ++ more) = true)
    (h : findVerificationUrl buffer accept = some value) :
    findVerificationUrl (buffer ++ rest) accept = some value ↔
      WholeUrl accept buffer rest value := by
  rw [findVerificationUrl, find_extractOsc8Links] at h ⊢
  have happend := firstLink_append accept buffer rest
  cases hlink : firstLink accept buffer with
  | some link =>
    rw [hlink, Option.some_or] at h happend
    rw [happend, Option.some_or]
    exact iff_of_true h (.link (hlink.trans h))
  | none =>
    rw [hlink, Option.none_or] at h happend
    cases hafter : linkAfter accept buffer rest with
    | some link =>
      rw [happend, hafter, Option.some_or]
      constructor
      · exact fun he => .laterLink hlink (hafter.trans he)
      · rintro (hl | ⟨-, hl⟩ | ⟨hnone, -⟩)
        · exact absurd (hl.symm.trans hlink) (Option.some_ne_none value)
        · exact hafter.symm.trans hl
        · exact absurd (hafter.symm.trans (happend.symm.trans hnone)) (Option.some_ne_none link)
    | none =>
      rw [happend, hafter, Option.none_or, whole_iff continues_PLAIN_URL haccept h]
      constructor
      · exact fun hw => .plain (happend.trans hafter) hw
      · rintro (hl | ⟨-, hl⟩ | ⟨-, hw⟩)
        · exact absurd (hl.symm.trans hlink) (Option.some_ne_none value)
        · exact absurd (hl.symm.trans hafter) (Option.some_ne_none value)
        · exact hw

end CliProxy.Auth
