import CliProxy.Lib.JsonText

/-! # JSON in an answer

`extractJsonFromText` of `src/adapter/cli-to-openai.ts`: the text as a whole, the first code fence,
and the block from the first bracket to the closer that a count of brackets finds. -/

namespace CliProxy.Adapter.Extraction

open Lib.JsonText (parses Frame State step)

/-! ## The source -/

def isOpen (c : Char) : Bool := c = '{' || c = '['

/-- What precedes and what follows the first code fence mark. -/
def cutFence : List Char → Option (List Char × List Char)
  | '`' :: '`' :: '`' :: text => some ([], text)
  | c :: text => (cutFence text).map fun (before, after) => (c :: before, after)
  | [] => none

/-- The trimmed group of the match of the regex for a fenced block. The group is lazy and white
space around it is trimmed, so it reaches from the first mark to the next one. -/
def fenceMatch (trimmed : List Char) : Option (List Char) := do
  let (_, after) ← cutFence trimmed
  let (inner, _) ← cutFence after
  return Lib.trim (if "json".toList.isPrefixOf inner then inner.drop 4 else inner)

/-- The loop over the block: the text up to the character that brings the depth back to zero. -/
def scan (opener closer : Char) (depth : Int) (inString escape : Bool) :
    List Char → Option (List Char)
  | [] => none
  | ch :: text =>
    if escape then (scan opener closer depth inString false text).map (ch :: ·)
    else if ch = '\\' then (scan opener closer depth inString true text).map (ch :: ·)
    else if ch = '"' then (scan opener closer depth (!inString) false text).map (ch :: ·)
    else if inString then (scan opener closer depth inString false text).map (ch :: ·)
    else if ch = opener then (scan opener closer (depth + 1) inString false text).map (ch :: ·)
    else if ch = closer then
      if depth - 1 = 0 then some [ch]
      else (scan opener closer (depth - 1) inString false text).map (ch :: ·)
    else (scan opener closer depth inString false text).map (ch :: ·)

/-- The candidate from the first bracket on. -/
def block (trimmed : List Char) : Option (List Char) :=
  match trimmed.dropWhile fun c => !isOpen c with
  | [] => none
  | c :: text => scan c (if c = '{' then '}' else ']') 0 false false (c :: text)

def extractJsonFromText (text : List Char) : List Char :=
  let trimmed := Lib.trim text
  if parses trimmed then trimmed
  else match (fenceMatch trimmed).filter parses with
    | some candidate => candidate
    | none => ((block trimmed).filter parses).getD text

/-! ## The scanner and the grammar -/

def opener : Frame → Char
  | .object => '{'
  | .array => '['

def closer : Frame → Char
  | .object => '}'
  | .array => ']'

/-- The scanner for the bracket of `frame` after the automaton has reached `s`. -/
def scanAt (frame : Frame) (s : State) : List Char → Option (List Char) :=
  scan (opener frame) (closer frame) (s.stack.count frame) s.mode.inString s.mode.isEscape

theorem not_isEscape {s : State} (h : s.mode.inString = false) : s.mode.isEscape = false := by
  cases hmode : s.mode with
  | escape isKey =>
    rw [hmode] at h
    cases h
  | _ => rfl

theorem scan_other {frame : Frame} {depth : Int} {c : Char} (text : List Char)
    (hquote : c ≠ '"') (hslash : c ≠ '\\') (hopen : c ≠ opener frame) (hclose : c ≠ closer frame) :
    scan (opener frame) (closer frame) depth false false (c :: text) =
      (scan (opener frame) (closer frame) depth false false text).map (c :: ·) := by
  simp [scan, hquote, hslash, hopen, hclose]

/-- The scanner reads on after a character that opens and closes nothing. -/
theorem scan_plain {frame : Frame} {depth : Int} {c : Char} (text : List Char)
    (h : Lib.JsonText.isPlain c = true) :
    scan (opener frame) (closer frame) depth false false (c :: text) =
      (scan (opener frame) (closer frame) depth false false text).map (c :: ·) := by
  apply scan_other
  all_goals
    rintro rfl
    revert h
    try cases frame
    all_goals decide

/-- A closer brings the depth back to zero exactly if nothing else is open. -/
theorem scan_close {frame closed : Frame} {stack : List Frame}
    (hlast : (closed :: stack).getLast? = some frame) (text : List Char) :
    scan (opener frame) (closer frame) ((closed :: stack).count frame) false false
        (closer closed :: text) =
      if stack = [] then some [closer closed]
      else (scan (opener frame) (closer frame) (stack.count frame) false false text).map
        (closer closed :: ·) := by
  by_cases hstack : stack = []
  · subst hstack
    cases Option.some.inj hlast
    cases closed <;> simp [scan, opener, closer]
  · rw [if_neg hstack]
    rw [List.getLast?_cons_of_ne_nil hstack] at hlast
    have hcount : 0 < stack.count frame := List.count_pos_iff.mpr (List.mem_of_getLast? hlast)
    by_cases hclosed : closed = frame
    · subst hclosed
      have hdepth : ((stack.count closed + 1 : Nat) : Int) - 1 = stack.count closed := by omega
      have hne : ((stack.count closed : Nat) : Int) ≠ 0 := by omega
      rw [List.count_cons_self]
      cases closed <;> simp only [scan, opener, closer, hdepth, if_neg hne] <;> rfl
    · rw [List.count_cons_of_ne hclosed]
      apply scan_other
      all_goals cases closed <;> cases frame
      all_goals first | decide | exact absurd rfl hclosed

/-- As long as the bracket of the scanner is open, the scanner ends exactly where it is closed. -/
theorem scanAt_step {frame : Frame} {s s' : State} {c : Char} (h : step s c = some s')
    (hlast : s.stack.getLast? = some frame) (text : List Char) :
    scanAt frame s (c :: text) =
      if s'.stack = [] then some [c] else (scanAt frame s' text).map (c :: ·) := by
  have hne : s.stack ≠ [] := by
    intro hnil
    rw [hnil] at hlast
    cases hlast
  unfold scanAt
  cases hstring : s.mode.inString with
  | true =>
    obtain ⟨hstack, hmode⟩ := Lib.JsonText.step_inString hstring h
    rw [hstack, if_neg hne, scan]
    cases hescape : s.mode.isEscape with
    | true =>
      rw [hescape, if_pos rfl] at hmode
      rw [if_pos rfl, hmode.1, hmode.2]
    | false =>
      rw [hescape, if_neg Bool.false_ne_true] at hmode
      rw [if_neg Bool.false_ne_true]
      split
      next hc =>
        rw [if_pos hc] at hmode
        rw [hmode.1, hmode.2]
      next hc =>
        rw [if_neg hc] at hmode
        rw [hmode.1, hmode.2]
        split
        next hquote => rw [hquote]; rfl
        next hquote =>
          rw [bne_iff_ne.mpr hquote]
          rfl
  | false =>
    have hescape := not_isEscape hstring
    rw [hescape]
    cases Lib.JsonText.step_outside hstring h with
    | quote hc hmode hescape' hstack =>
      rw [hstack, if_neg hne, hmode, hescape', hc]
      simp [scan]
    | openObject hc hs =>
      subst hc hs
      rw [if_neg (List.cons_ne_nil _ _)]
      cases frame with
      | object => simp [scan, opener, Lib.JsonText.Mode.inString, Lib.JsonText.Mode.isEscape]
      | array =>
        rw [scan_other text (by decide) (by decide) (by decide) (by decide)]
        simp [Lib.JsonText.Mode.inString, Lib.JsonText.Mode.isEscape]
    | openArray hc hs =>
      subst hc hs
      rw [if_neg (List.cons_ne_nil _ _)]
      cases frame with
      | array => simp [scan, opener, Lib.JsonText.Mode.inString, Lib.JsonText.Mode.isEscape]
      | object =>
        rw [scan_other text (by decide) (by decide) (by decide) (by decide)]
        simp [Lib.JsonText.Mode.inString, Lib.JsonText.Mode.isEscape]
    | closeObject hc stack hstack hs =>
      subst hc hs
      rw [hstack] at hlast
      rw [hstack]
      exact scan_close hlast text
    | closeArray hc stack hstack hs =>
      subst hc hs
      rw [hstack] at hlast
      rw [hstack]
      exact scan_close hlast text
    | plain hplain hmode hstack =>
      rw [hstack, if_neg hne, hmode, not_isEscape hmode, scan_plain text hplain]

theorem scanAt_run {frame : Frame} {t : State} {p : List Char} (ht : t.stack = [])
    (more : List Char) : ∀ {s : State}, p.foldlM step s = some t →
      s.stack.getLast? = some frame →
      ∃ q, scanAt frame s (p ++ more) = some q ∧ q.foldlM step s = some ⟨.done, []⟩ := by
  induction p with
  | nil =>
    intro s hrun hlast
    cases hrun
    rw [ht] at hlast
    cases hlast
  | cons c p ih =>
    intro s hrun hlast
    rw [List.foldlM_cons] at hrun
    obtain ⟨s', hstep, hrun⟩ := Option.bind_eq_some_iff.mp hrun
    rw [List.cons_append, scanAt_step hstep hlast]
    rcases Lib.JsonText.step_bottom hstep hlast with hlast' | rfl
    · have hne : s'.stack ≠ [] := by
        intro hnil
        rw [hnil] at hlast'
        cases hlast'
      obtain ⟨q, hscan, hq⟩ := ih hrun hlast'
      refine ⟨c :: q, by rw [if_neg hne, hscan]; rfl, ?_⟩
      rw [List.foldlM_cons, hstep]
      exact hq
    · refine ⟨[c], if_pos rfl, ?_⟩
      rw [List.foldlM_cons, hstep]
      rfl

/-! ## The block -/

def opened (frame : Frame) : State :=
  match frame with
  | .object => ⟨.firstKey, [.object]⟩
  | .array => ⟨.firstItem, [.array]⟩

theorem step_opener (frame : Frame) : step Lib.JsonText.start (opener frame) = some (opened frame) := by
  cases frame <;> rfl

theorem exists_opener {c : Char} (h : isOpen c = true) : ∃ frame, c = opener frame := by
  rw [isOpen, Bool.or_eq_true, decide_eq_true_eq, decide_eq_true_eq] at h
  rcases h with rfl | rfl
  · exact ⟨.object, rfl⟩
  · exact ⟨.array, rfl⟩

theorem block_opener {trimmed text : List Char} {frame : Frame}
    (h : (trimmed.dropWhile fun c => !isOpen c) = opener frame :: text) :
    block trimmed = (scanAt frame (opened frame) text).map (opener frame :: ·) := by
  rw [block, h]
  cases frame <;> simp [scan, scanAt, opener, closer, opened, Lib.JsonText.Mode.inString,
    Lib.JsonText.Mode.isEscape]

theorem scan_prefix {opener closer : Char} {text q : List Char} : ∀ {depth : Int}
    {inString escape : Bool}, scan opener closer depth inString escape text = some q →
      q <+: text := by
  induction text generalizing q with
  | nil =>
    intro depth inString escape h
    cases h
  | cons c text ih =>
    intro depth inString escape h
    have hmap : ∀ {depth inString escape},
        (scan opener closer depth inString escape text).map (c :: ·) = some q → q <+: c :: text := by
      intro depth inString escape h
      obtain ⟨q', hq', rfl⟩ := Option.map_eq_some_iff.mp h
      exact List.prefix_cons_inj c |>.mpr (ih hq')
    rw [scan] at h
    repeat' split at h
    all_goals first
      | exact hmap h
      | (cases h; exact (List.prefix_cons_inj c).mpr (List.nil_prefix))

/-- The block is JSON exactly if a JSON text begins at the first bracket. -/
theorem block_parses (trimmed : List Char) :
    (∃ q, block trimmed = some q ∧ parses q = true) ↔
      ∃ p, p <+: (trimmed.dropWhile fun c => !isOpen c) ∧ parses p = true := by
  constructor
  · rintro ⟨q, hblock, hq⟩
    refine ⟨q, ?_, hq⟩
    unfold block at hblock
    split at hblock
    next => cases hblock
    next c text hdrop =>
      rw [hdrop]
      exact scan_prefix hblock
  · rintro ⟨p, hp, hparses⟩
    obtain ⟨more, hmore⟩ := hp
    cases p with
    | nil => cases hparses
    | cons c p =>
      rw [List.cons_append] at hmore
      have hc : isOpen c = true := by
        have hhead := List.head?_dropWhile_not (fun c => !isOpen c) trimmed
        rw [← hmore] at hhead
        simpa using hhead
      obtain ⟨frame, rfl⟩ := exists_opener hc
      rw [parses, List.foldlM_cons, step_opener] at hparses
      obtain ⟨t, hrun, ht⟩ := (Option.any_eq_true _ _).mp hparses
      have hstack : t.stack = [] := by
        rw [State.accepts, Bool.and_eq_true] at ht
        exact List.isEmpty_iff.mp ht.1
      have hlast : (opened frame).stack.getLast? = some frame := by cases frame <;> rfl
      obtain ⟨q, hscan, hq⟩ := scanAt_run hstack more hrun hlast
      refine ⟨opener frame :: q, ?_, ?_⟩
      · rw [block_opener hmore.symm, hscan]
        rfl
      · rw [parses, List.foldlM_cons, step_opener]
        show (q.foldlM step (opened frame)).any State.accepts = true
        rw [hq]
        rfl

/-! ## What is found -/

/-- A JSON object or array is within the text. -/
def HasJson (text : List Char) : Prop :=
  ∃ c p, isOpen c = true ∧ (c :: p) <:+: text ∧ parses (c :: p) = true

/-- The result is a JSON text, or the text itself if neither the trimmed text nor any part of it
from a bracket to its closer is one. -/
def FindsJson (text : List Char) : Prop :=
  parses (extractJsonFromText text) = true ∨
    extractJsonFromText text = text ∧ parses (Lib.trim text) = false ∧ ¬HasJson (Lib.trim text)

/-- The trimmed text or the first fenced block is JSON, or a JSON object or array begins at the first
bracket. -/
def JsonFirst (trimmed : List Char) : Prop :=
  parses trimmed = true ∨ (∃ candidate, fenceMatch trimmed = some candidate ∧
    parses candidate = true) ∨
    ∃ p, p <+: (trimmed.dropWhile fun c => !isOpen c) ∧ parses p = true

theorem extract_jsonFirst {text : List Char} (h : JsonFirst (Lib.trim text)) :
    parses (extractJsonFromText text) = true := by
  unfold extractJsonFromText
  dsimp only
  split
  next htrimmed => exact htrimmed
  next htrimmed =>
    split
    next candidate hfence => exact (Option.filter_eq_some_iff.mp hfence).2
    next hfence =>
      rcases h with h | ⟨candidate, hcandidate, h⟩ | hblock
      · exact absurd h htrimmed
      · rw [hcandidate, Option.filter_eq_none_iff] at hfence
        exact absurd h (by simpa using hfence)
      · obtain ⟨q, hq, hparses⟩ := (block_parses _).mpr hblock
        rw [hq, Option.filter_some_pos hparses]
        exact hparses

theorem extract_of_not_jsonFirst {text : List Char} (h : ¬JsonFirst (Lib.trim text)) :
    extractJsonFromText text = text := by
  simp only [JsonFirst, not_or] at h
  obtain ⟨htrimmed, hfence, hblock⟩ := h
  have hfence' : (fenceMatch (Lib.trim text)).filter parses = none := by
    rw [Option.filter_eq_none_iff]
    exact fun candidate hcandidate hparses => hfence ⟨candidate, hcandidate, hparses⟩
  have hblock' : (block (Lib.trim text)).filter parses = none := by
    rw [Option.filter_eq_none_iff]
    exact fun q hq hparses => hblock ((block_parses _).mp ⟨q, hq, hparses⟩)
  unfold extractJsonFromText
  dsimp only
  rw [if_neg htrimmed, hfence', hblock']
  rfl

/-- JSON is found unless it begins at a later bracket only. -/
theorem findsJson_iff (text : List Char) :
    FindsJson text ↔ JsonFirst (Lib.trim text) ∨ ¬HasJson (Lib.trim text) := by
  constructor
  · intro h
    by_cases hfirst : JsonFirst (Lib.trim text)
    · exact .inl hfirst
    · rcases h with h | h
      · rw [extract_of_not_jsonFirst hfirst] at h
        exact absurd (.inl (Lib.JsonText.parses_trim h)) hfirst
      · exact .inr h.2.2
  · intro h
    by_cases hfirst : JsonFirst (Lib.trim text)
    · exact .inl (extract_jsonFirst hfirst)
    · refine .inr ⟨extract_of_not_jsonFirst hfirst, ?_, h.resolve_left hfirst⟩
      rw [Bool.eq_false_iff]
      exact fun htrimmed => hfirst (.inl htrimmed)

/-- Prose with a bracket hides the object after it. -/
theorem prose_hides :
    extractJsonFromText "Use [x] here: \x7b\x7d".toList = "Use [x] here: \x7b\x7d".toList ∧
      parses "Use [x] here: \x7b\x7d".toList = false ∧ parses "\x7b\x7d".toList = true ∧
      ¬FindsJson "Use [x] here: \x7b\x7d".toList := by
  have hextract : extractJsonFromText "Use [x] here: \x7b\x7d".toList = "Use [x] here: \x7b\x7d".toList := by
    decide +kernel
  refine ⟨hextract, by decide +kernel, by decide +kernel, ?_⟩
  rintro (h | ⟨-, -, h⟩)
  · rw [hextract] at h
    exact absurd h (by decide +kernel)
  · exact h ⟨'{', ['}'], rfl, ⟨"Use [x] here: ".toList, [], by decide +kernel⟩, by decide +kernel⟩

end CliProxy.Adapter.Extraction
