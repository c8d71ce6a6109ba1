import CliProxy.Lib.Hex
import CliProxy.Lib.Lines

/-! # TOML documents with one entry per line

A reader of comments, table headers and `key = value` lines. Basic strings are read to their value,
the text of another value is kept as it is. Quoted keys, inline tables, nested arrays and values over
several lines are not read. -/

namespace CliProxy.Lib.Toml

def isBlank (c : Char) : Bool := c = ' ' || c = '\t'

/-- A basic string holds no control character but the tab. -/
def isControl (c : Char) : Bool := (c.toNat < 32 && c ≠ '\t') || c.toNat = 127

/-- The characters with an escape sequence of one letter. -/
def letterEscapes : List (Char × Char) :=
  [('b', '\x08'), ('t', '\t'), ('n', '\n'), ('f', '\x0c'), ('r', '\r'), ('"', '"'), ('\\', '\\')]

/-- The character of `n` hexadecimal digits, and the text after them. -/
def readUnicode (n : Nat) (text : List Char) : Option (Char × List Char) :=
  let digits := (text.take n).map Char.toLower
  if digits.length = n ∧ digits.all isLowerHex ∧ (hexValue digits).isValidChar then
    some (Char.ofNat (hexValue digits), text.drop n)
  else none

/-- What follows a backslash. -/
def readEscape : List Char → Option (Char × List Char)
  | [] => none
  | c :: text =>
    if c = 'u' then readUnicode 4 text
    else if c = 'U' then readUnicode 8 text
    else (letterEscapes.lookup c).map (·, text)

/-- The next character of a basic string. -/
def readChar : List Char → Option (Char × List Char)
  | [] => none
  | c :: text => if c = '\\' then readEscape text else if isControl c then none else some (c, text)

theorem readUnicode_length {n : Nat} {text rest : List Char} {c : Char}
    (h : readUnicode n text = some (c, rest)) : rest.length ≤ text.length := by
  rw [readUnicode] at h
  split at h
  · cases h
    exact (List.drop_sublist n text).length_le
  · cases h

theorem readChar_length {text rest : List Char} {c : Char} (h : readChar text = some (c, rest)) :
    rest.length < text.length := by
  cases text with
  | nil => cases h
  | cons c text =>
    rw [readChar] at h
    split at h
    · refine Nat.lt_succ_of_le ?_
      cases text with
      | nil => cases h
      | cons c text =>
        rw [readEscape] at h
        split at h
        · exact (readUnicode_length h).trans (Nat.le_succ _)
        split at h
        · exact (readUnicode_length h).trans (Nat.le_succ _)
        · obtain ⟨value, -, heq⟩ := Option.map_eq_some_iff.mp h
          cases heq
          exact Nat.le_succ _
    split at h
    · cases h
    · cases h
      exact Nat.lt_succ_self _

/-- The value of a basic string after its opening quote, and the text after its closing quote. -/
def readBasic (text : List Char) : Option (List Char × List Char) :=
  if text.head? = some '"' then some ([], text.tail)
  else
    match _h : readChar text with
    | none => none
    | some (c, rest) => (readBasic rest).map fun (value, after) => (c :: value, after)
termination_by text.length
decreasing_by exact readChar_length _h

inductive Value where
  | string (text : List Char)
  | other (text : List Char)
  deriving DecidableEq

/-- The table is the text of its header, nothing before the first header. -/
structure Entry where
  table : List Char
  key : List Char
  value : Value
  deriving DecidableEq

/-- Nothing but a comment. -/
def isRest (text : List Char) : Bool :=
  match text.dropWhile isBlank with
  | [] => true
  | c :: _ => c = '#'

/-- An array of strings, numbers and the like without a comment. -/
def isFlatArray (text : List Char) : Bool :=
  text.head? = some '[' && text.tail.dropLast.all (fun c => !(['[', ']', '#'].contains c)) &&
    text.getLast? = some ']'

def readValue (text : List Char) : Option Value :=
  if text.head? = some '"' then
    (readBasic text.tail).bind fun (value, rest) =>
      if isRest rest then some (.string value) else none
  else if text = [] ∨ text.head? = some '\x7b' ∨ List.replicate 3 '\x27' <+: text ∨
      text.head? = some '[' ∧ ¬ isFlatArray text then none
  else some (.other text)

/-- A bare or a dotted key. -/
def isKeyChar (c : Char) : Bool := c.isAlphanum || c = '_' || c = '-' || c = '.'

/-- The table after the line, and the entries of the line. -/
def readLine (table line : List Char) : Option (List Char × List Entry) :=
  let text := line.dropWhile isBlank
  if isRest line then some (table, [])
  else if text.head? = some '[' then some (text, [])
  else
    let key := text.takeWhile isKeyChar
    let rest := (text.drop key.length).dropWhile isBlank
    if key = [] ∨ rest.head? ≠ some '=' then none
    else (readValue (rest.tail.dropWhile isBlank)).map fun value => (table, [⟨table, key, value⟩])

def readLines : List Char → List (List Char) → Option (List Char × List Entry)
  | table, [] => some (table, [])
  | table, line :: lines =>
    (readLine table line).bind fun (table', entries) =>
      (readLines table' lines).map fun (last, more) => (last, entries ++ more)

def read (text : List Char) : Option (List Entry) :=
  (readLines [] (text.splitOn '\n')).map (·.2)

/-! ## Strings -/

theorem readBasic_quote (rest : List Char) : readBasic ('"' :: rest) = some ([], rest) := by
  rw [readBasic, if_pos (show ('"' :: rest).head? = some '"' from rfl)]
  rfl

theorem readBasic_char {text rest : List Char} {c : Char} (hquote : text.head? ≠ some '"')
    (h : readChar text = some (c, rest)) :
    readBasic text = (readBasic rest).map fun (value, after) => (c :: value, after) := by
  rw [readBasic, if_neg hquote]
  split
  · next hchar => exact absurd (h.symm.trans hchar) (Option.some_ne_none _)
  · next hchar =>
    cases h.symm.trans hchar
    rfl

theorem readChar_plain {c : Char} (hescape : c ≠ '\\') (hcontrol : isControl c = false)
    (rest : List Char) : readChar (c :: rest) = some (c, rest) := by
  rw [readChar, if_neg hescape, hcontrol]
  rfl

theorem readChar_letter {e c : Char} (h : (e, c) ∈ letterEscapes) (rest : List Char) :
    readChar ('\\' :: e :: rest) = some (c, rest) := by
  have hlookup : ∀ p ∈ letterEscapes, p.1 ≠ 'u' ∧ p.1 ≠ 'U' ∧ letterEscapes.lookup p.1 = some p.2 := by
    decide
  obtain ⟨hu, hU, hc⟩ := hlookup _ h
  rw [readChar, if_pos rfl, readEscape, if_neg hu, if_neg hU, hc]
  rfl

theorem toLower_of_isLowerHex {c : Char} (h : isLowerHex c = true) : c.toLower = c := by
  simp only [isLowerHex, Bool.or_eq_true, Bool.and_eq_true, decide_eq_true_eq] at h
  refine dif_neg fun hupper => ?_
  have hlow : 65 ≤ c.toNat := hupper.1
  have hhigh : c.toNat ≤ 90 := hupper.2
  omega

theorem readChar_unicode {n : Nat} (hn : n < 128) (rest : List Char) :
    readChar ('\\' :: 'u' :: (hexText 4 n ++ rest)) = some (Char.ofNat n, rest) := by
  have htake : (hexText 4 n ++ rest).take 4 = hexText 4 n := List.take_left' (hexText_length 4 n)
  have hdrop : (hexText 4 n ++ rest).drop 4 = rest := List.drop_left' (hexText_length 4 n)
  have hdigits : (hexText 4 n).map Char.toLower = hexText 4 n :=
    (List.map_congr_left fun c hc => toLower_of_isLowerHex (isLowerHex_hexText 4 n c hc)).trans
      (List.map_id _)
  rw [readChar, if_pos rfl, readEscape, if_pos rfl, readUnicode, htake, hdrop, hdigits,
    hexValue_hexText 4 n (by omega)]
  exact if_pos ⟨hexText_length 4 n, List.all_eq_true.mpr (isLowerHex_hexText 4 n), .inl (by omega)⟩

/-! ## Lines -/

theorem readLines_cons {table table' line : List Char} {entries : List Entry}
    (h : readLine table line = some (table', entries)) (lines : List (List Char)) :
    readLines table (line :: lines) =
      (readLines table' lines).map fun (last, more) => (last, entries ++ more) := by
  rw [readLines, h]
  rfl

/-- Lines that are read continue with the table that they end in. -/
theorem readLines_append {table table' : List Char} {lines : List (List Char)} {entries : List Entry}
    (h : readLines table lines = some (table', entries)) (lines' : List (List Char)) :
    readLines table (lines ++ lines') =
      (readLines table' lines').map fun (last, more) => (last, entries ++ more) := by
  induction lines generalizing table entries with
  | nil =>
    cases h
    exact Option.map_id'.symm
  | cons line lines ih =>
    rw [readLines] at h
    obtain ⟨⟨middle, found⟩, hline, hlines⟩ := Option.bind_eq_some_iff.mp h
    obtain ⟨⟨last, more⟩, hrest, heq⟩ := Option.map_eq_some_iff.mp hlines
    cases heq
    rw [List.cons_append, readLines_cons hline, ih hrest, Option.map_map]
    congr 1
    funext ⟨last', more'⟩
    exact congrArg (Prod.mk last') (List.append_assoc ..).symm

theorem readLine_rest {line : List Char} (table : List Char) (h : isRest line = true) :
    readLine table line = some (table, []) := if_pos h

theorem readLine_header (table header : List Char) :
    readLine table ('[' :: header) = some ('[' :: header, []) := rfl

theorem isBlank_of_isKeyChar {c : Char} (h : isKeyChar c = true) : ¬ isBlank c = true := by
  intro hblank
  rcases Bool.or_eq_true_iff.mp hblank with hc | hc
  · exact absurd (of_decide_eq_true hc ▸ h) (by decide)
  · exact absurd (of_decide_eq_true hc ▸ h) (by decide)

/-- A key with a basic string. -/
theorem readLine_string {key text value : List Char} (hne : key ≠ []) (hkey : key.all isKeyChar = true)
    (htext : readBasic (text ++ ['"']) = some (value, [])) (table : List Char) :
    readLine table (key ++ ' ' :: '=' :: ' ' :: '"' :: (text ++ ['"'])) =
      some (table, [⟨table, key, .string value⟩]) := by
  generalize hline : key ++ ' ' :: '=' :: ' ' :: '"' :: (text ++ ['"']) = line
  obtain ⟨c, rest, hc, hcons⟩ : ∃ c rest, isKeyChar c = true ∧ line = c :: rest := by
    cases key with
    | nil => exact absurd rfl hne
    | cons c key => exact ⟨c, _, List.all_eq_true.mp hkey c List.mem_cons_self, hline.symm⟩
  have hdrop : line.dropWhile isBlank = line := by
    rw [hcons, List.dropWhile_cons_of_neg (isBlank_of_isKeyChar hc)]
  have hrest : isRest line = false := by
    rw [isRest, hdrop, hcons]
    exact decide_eq_false fun h => absurd (h ▸ hc) (by decide)
  have hheader : line.head? ≠ some '[' := by
    rw [hcons]
    exact fun h => absurd (Option.some.inj h ▸ hc) (by decide)
  have htake : line.takeWhile isKeyChar = key := by
    rw [← hline, List.takeWhile_append_of_pos fun c hc => List.all_eq_true.mp hkey c hc]
    exact List.append_nil key
  have hvalue : (line.drop key.length).dropWhile isBlank =
      '=' :: ' ' :: '"' :: (text ++ ['"']) := by
    rw [← hline, List.drop_left]
    rfl
  have hread : readValue ('"' :: (text ++ ['"'])) = some (.string value) := by
    rw [readValue, if_pos (show ('"' :: (text ++ ['"'])).head? = some '"' from rfl), List.tail_cons,
      htext]
    rfl
  rw [readLine, hdrop, hrest, if_neg Bool.false_ne_true, if_neg hheader]
  dsimp only
  rw [htake, hvalue, if_neg (not_or.mpr ⟨hne, fun h => h rfl⟩)]
  show (readValue ('"' :: (text ++ ['"']))).map _ = _
  rw [hread]
  rfl

end CliProxy.Lib.Toml
