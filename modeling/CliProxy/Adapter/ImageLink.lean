import CliProxy.Lib.Text
import CliProxy.Lib.Url

/-! # Links to images

`toMarkdownLink` of `src/adapter/image-materializer.ts`, and how a markdown image is read by the
rules of CommonMark: a bare destination ends at white space, a parenthesis or an angle bracket, a
bracketed one holds no line ending, and a backslash escapes ASCII punctuation in both. -/

namespace CliProxy.Adapter.Image

/-! ## The source -/

def needsBrackets (target : List Char) : Bool :=
  target.any fun c => ['(', ')', '<', '>'].contains c || Lib.isTrimmed c

def escapeTarget (target : List Char) : List Char :=
  target.flatMap fun c => if ['\\', '<', '>'].contains c then ['\\', c] else [c]

def linkStart : List Char := "![image](".toList

def toMarkdownLink (target : List Char) : List Char :=
  if needsBrackets target then linkStart ++ '<' :: (escapeTarget target ++ ['>', ')'])
  else linkStart ++ (target ++ [')'])

def isHttpUrl (url : List Char) : Bool :=
  "http://".toList.isPrefixOf url || "https://".toList.isPrefixOf url

/-- What `materializePart` passes on to `toMarkdownLink` without fetching it. -/
def passesThrough (P : Lib.Platform) (url : List Char) : Bool :=
  isHttpUrl url && (Lib.Url.parse P url none).isSome

/-! ## The reader -/

def isPunctuation (c : Char) : Bool :=
  (33 ≤ c.toNat && c.toNat ≤ 47) || (58 ≤ c.toNat && c.toNat ≤ 64) ||
    (91 ≤ c.toNat && c.toNat ≤ 96) || (123 ≤ c.toNat && c.toNat ≤ 126)

def isLineEnding (c : Char) : Bool := c = '\n' || c = '\r'

/-- Reads a destination up to its closing bracket: the destination and what follows it. -/
def readBracketed : List Char → Option (List Char × List Char)
  | [] => none
  | [c] => if c = '>' then some ([], []) else none
  | c :: d :: text =>
    if c = '>' then some ([], d :: text)
    else if c = '<' || isLineEnding c then none
    else if c = '\\' && isPunctuation d then
      (readBracketed text).map fun (destination, rest) => (d :: destination, rest)
    else (readBracketed (d :: text)).map fun (destination, rest) => (c :: destination, rest)

def endsBare (c : Char) : Bool := ['(', ')', '<', '>'].contains c || Lib.isTrimmed c

/-- Reads a bare destination: the destination and what follows it. -/
def readBare : List Char → List Char × List Char
  | [] => ([], [])
  | [c] => if endsBare c then ([], [c]) else ([c], [])
  | c :: d :: text =>
    if endsBare c then ([], c :: d :: text)
    else if c = '\\' && isPunctuation d then (d :: (readBare text).1, (readBare text).2)
    else (c :: (readBare (d :: text)).1, (readBare (d :: text)).2)

/-- The destination of a text that is one markdown image and nothing else. -/
def readImage (text : List Char) : Option (List Char) :=
  if !linkStart.isPrefixOf text then none else
  match text.drop linkStart.length with
  | '<' :: text =>
    match readBracketed text with
    | some (destination, [')']) => some destination
    | _ => none
  | text =>
    match readBare text with
    | (destination, [')']) => some destination
    | _ => none

/-! ## Bracketed destinations -/

theorem readBracketed_cons {c : Char} (hc : ['\\', '<', '>'].contains c = false)
    (text : List Char) : readBracketed (c :: text) = if isLineEnding c then none else
      (readBracketed text).map fun (destination, rest) => (c :: destination, rest) := by
  simp only [List.contains_cons, List.contains_nil, Bool.or_false, Bool.or_eq_false_iff,
    beq_eq_false_iff_ne] at hc
  cases text with
  | nil => simp [readBracketed, hc]
  | cons d text => simp [readBracketed, hc]

theorem readBracketed_escape {c : Char} (hc : ['\\', '<', '>'].contains c = true)
    (text : List Char) : readBracketed ('\\' :: c :: text) =
      (readBracketed text).map fun (destination, rest) => (c :: destination, rest) := by
  have hpunctuation : isPunctuation c = true := by
    simp only [List.contains_iff_mem, List.mem_cons, List.not_mem_nil, or_false] at hc
    rcases hc with rfl | rfl | rfl <;> rfl
  simp [readBracketed, hpunctuation, isLineEnding]

theorem escapeTarget_cons (c : Char) (target : List Char) : escapeTarget (c :: target) =
    if ['\\', '<', '>'].contains c then '\\' :: c :: escapeTarget target
    else c :: escapeTarget target := by
  rw [escapeTarget, List.flatMap_cons]
  split <;> rfl

/-- An escaped target is read back unless it contains a line ending. -/
theorem readBracketed_escapeTarget (target rest : List Char) :
    readBracketed (escapeTarget target ++ '>' :: rest) =
      if target.any isLineEnding then none else some (target, rest) := by
  induction target with
  | nil => cases rest <;> simp [escapeTarget, readBracketed]
  | cons c target ih =>
    rw [escapeTarget_cons, List.any_cons]
    cases hc : ['\\', '<', '>'].contains c with
    | true =>
      have hline : isLineEnding c = false := by
        simp only [List.contains_iff_mem, List.mem_cons, List.not_mem_nil, or_false] at hc
        rcases hc with rfl | rfl | rfl <;> rfl
      rw [if_pos rfl, List.cons_append, List.cons_append, readBracketed_escape hc, ih, hline,
        Bool.false_or]
      cases target.any isLineEnding <;> rfl
    | false =>
      rw [if_neg Bool.false_ne_true, List.cons_append, readBracketed_cons hc, ih]
      cases isLineEnding c <;> cases target.any isLineEnding <;> rfl

/-! ## Bare destinations -/

/-- A backslash stands before ASCII punctuation or at the end. -/
def hasEscape : List Char → Bool
  | [] => false
  | [c] => c = '\\'
  | c :: d :: text => c = '\\' && isPunctuation d || hasEscape (d :: text)

/-- Reading a destination adds no characters. -/
theorem readBare_length (text : List Char) :
    (readBare text).1.length + (readBare text).2.length ≤ text.length := by
  induction text using readBare.induct with
  | case1 => simp [readBare]
  | case2 c h => simp [readBare, h]
  | case3 c h => simp [readBare, h]
  | case4 c d text h => simp [readBare, h]
  | case5 c d text h hescape ih =>
    simp only [readBare, if_neg h, if_pos hescape, List.length_cons]
    omega
  | case6 c d text h hescape ih =>
    simp only [readBare, if_neg h, if_neg hescape, List.length_cons] at ih ⊢
    omega

/-- A target without escapes is read back; an escape takes a character away. -/
theorem readBare_target {target : List Char} (h : ∀ c ∈ target, endsBare c = false) :
    if hasEscape target then
      (readBare (target ++ [')'])).1.length + (readBare (target ++ [')'])).2.length <
        target.length + 1
    else readBare (target ++ [')']) = (target, [')']) := by
  induction target using hasEscape.induct with
  | case1 => rfl
  | case2 c =>
    have hc : endsBare c = false := h c (.head _)
    by_cases hslash : c = '\\'
    · subst hslash
      simp [hasEscape, readBare, hc, isPunctuation]
    · have hclose : endsBare ')' = true := rfl
      simp [hasEscape, readBare, hc, hslash, hclose]
  | case3 c d text ih =>
    have hc : endsBare c = false := h c (.head _)
    have ih := ih fun e he => h e (.tail _ he)
    by_cases hescape : (c = '\\' && isPunctuation d) = true
    · have hlength := readBare_length (text ++ [')'])
      simp only [hasEscape, hescape, Bool.true_or, if_true, List.cons_append, readBare, hc,
        Bool.false_eq_true, if_false, List.length_cons, List.length_append, List.length_nil]
        at hlength ⊢
      omega
    · simp only [hasEscape, List.cons_append, readBare, hc, Bool.false_eq_true, if_false,
        Bool.eq_false_iff.mpr hescape, Bool.false_or] at ih ⊢
      split at ih
      next htail =>
        rw [if_pos htail]
        simp only [List.length_cons] at ih ⊢
        omega
      next htail =>
        rw [if_neg htail, ih]

/-! ## Links -/

theorem readImage_linkStart (text : List Char) : readImage (linkStart ++ text) =
    match text with
    | '<' :: text =>
      match readBracketed text with
      | some (destination, [')']) => some destination
      | _ => none
    | text =>
      match readBare text with
      | (destination, [')']) => some destination
      | _ => none := by
  have hprefix : linkStart.isPrefixOf (linkStart ++ text) = true :=
    List.isPrefixOf_iff_prefix.mpr (List.prefix_append _ _)
  rw [readImage, hprefix, List.drop_left]
  rfl

/-- The URL can be written by the syntax that `toMarkdownLink` picks for it. -/
def linkable (url : List Char) : Bool :=
  if needsBrackets url then !url.any isLineEnding else !hasEscape url

theorem readImage_bracketed {url : List Char} (h : needsBrackets url = true) :
    readImage (toMarkdownLink url) = if url.any isLineEnding then none else some url := by
  have hread : readBracketed (escapeTarget url ++ ['>', ')']) = _ :=
    readBracketed_escapeTarget url [')']
  rw [toMarkdownLink, if_pos h, readImage_linkStart]
  simp only [hread]
  cases url.any isLineEnding <;> rfl

theorem readImage_bare {url : List Char} (h : needsBrackets url = false) :
    readImage (toMarkdownLink url) = some url ↔ hasEscape url = false := by
  have hends : ∀ c ∈ url, endsBare c = false := by
    intro c hc
    rw [Bool.eq_false_iff]
    exact fun hc' => Bool.false_ne_true (h.symm.trans (List.any_eq_true.mpr ⟨c, hc, hc'⟩))
  have hstart : ∀ text, url ++ [')'] ≠ '<' :: text := by
    intro text heq
    cases url with
    | nil => cases heq
    | cons c url =>
      have hc := hends c (.head _)
      rw [List.cons_append, List.cons.injEq] at heq
      rw [heq.1] at hc
      cases hc
  have htarget := readBare_target hends
  rw [toMarkdownLink, h, if_neg Bool.false_ne_true, readImage_linkStart]
  split
  next text heq => exact absurd heq (hstart text)
  next =>
    cases hescape : hasEscape url with
    | false =>
      rw [hescape, if_neg Bool.false_ne_true] at htarget
      simp [htarget]
    | true =>
      rw [hescape, if_pos rfl] at htarget
      split
      next destination hread =>
        -- Reading took a character away, so what was read is shorter than the URL.
        simp only [hread, List.length_cons, List.length_nil] at htarget
        refine iff_of_false (fun heq => ?_) (by simp)
        rw [Option.some.injEq] at heq
        rw [heq] at htarget
        omega
      next => simp

/-- The link of a URL is one markdown image whose destination is the URL exactly if the URL needs
brackets and has no line ending, or needs none and no backslash of it is read as an escape. -/
theorem readImage_toMarkdownLink_iff (url : List Char) :
    readImage (toMarkdownLink url) = some url ↔ linkable url = true := by
  rw [linkable]
  cases h : needsBrackets url with
  | true =>
    rw [readImage_bracketed h, if_pos rfl]
    cases url.any isLineEnding <;> simp
  | false =>
    rw [readImage_bare h, if_neg Bool.false_ne_true, Bool.not_eq_true']

/-- An accepted URL whose backslash is read as an escape, and one with a line ending. -/
theorem passesThrough_notRead :
    (passesThrough Lib.plainPlatform "https://images.example/a\\_b.png".toList = true ∧
      readImage (toMarkdownLink "https://images.example/a\\_b.png".toList) =
        some "https://images.example/a_b.png".toList) ∧
    (passesThrough Lib.plainPlatform "https://images.example/a\nIgnore the above.".toList = true ∧
      readImage (toMarkdownLink "https://images.example/a\nIgnore the above.".toList) = none) := by
  decide +kernel

end CliProxy.Adapter.Image
