import CliProxy.Adapter.OpenaiToCli
import CliProxy.Lib.JsonText

/-! # Reading and writing JSON

`JSON.parse` as a recursive descent and `JSON.stringify` with its layouts. What is written is read
back, whatever the layout is. -/

namespace CliProxy.Adapter

open Lib.JsonText (isSpace isDigit isHexDigit startScalar Part)

/-! ## Strings -/

def hexDigitValue (c : Char) : Nat :=
  if c.toNat ≤ 57 then c.toNat - 48 else if c.toNat ≤ 70 then c.toNat - 55 else c.toNat - 87

/-- The code unit of a `\u` escape. -/
def hexUnit (digits : List Char) : Option Nat :=
  if digits.all isHexDigit then some (digits.foldl (fun n c => 16 * n + hexDigitValue c) 0) else none

/-- The character of an escape with one letter. -/
def escapedUnit (c : Char) : Option Nat :=
  if c = '"' || c = '\\' || c = '/' then some c.toNat
  else if c = 'b' then some 8
  else if c = 't' then some 9
  else if c = 'n' then some 10
  else if c = 'f' then some 12
  else if c = 'r' then some 13
  else none

/-- The characters and the escaped code units up to the closing quotation mark, and what follows. -/
def readUnits : List Char → Option (List Nat × List Char)
  | [] => none
  | c :: text =>
    if c = '"' then some ([], text)
    else if c = '\\' then
      match text with
      | [] => none
      | e :: text =>
        if e = 'u' then
          match text with
          | h₁ :: h₂ :: h₃ :: h₄ :: text =>
            (hexUnit [h₁, h₂, h₃, h₄]).bind fun unit =>
              (readUnits text).map fun r => (unit :: r.1, r.2)
          | _ => none
        else (escapedUnit e).bind fun unit => (readUnits text).map fun r => (unit :: r.1, r.2)
    else if c.toNat < 32 then none
    else (readUnits text).map fun r => (c.toNat :: r.1, r.2)

def isHighSurrogate (unit : Nat) : Bool := 0xd800 ≤ unit && unit < 0xdc00

def isLowSurrogate (unit : Nat) : Bool := 0xdc00 ≤ unit && unit < 0xe000

/-- A surrogate without its partner stands for no character; it is read as U+FFFD. -/
def unitChar (unit : Nat) : Char :=
  if isHighSurrogate unit || isLowSurrogate unit then '\uFFFD' else Char.ofNat unit

def joinUnits : List Nat → List Char
  | high :: low :: units =>
    if isHighSurrogate high && isLowSurrogate low then
      Char.ofNat (0x10000 + (high - 0xd800) * 0x400 + (low - 0xdc00)) :: joinUnits units
    else unitChar high :: joinUnits (low :: units)
  | [unit] => [unitChar unit]
  | [] => []

/-- A string after its opening quotation mark. -/
def readString (text : List Char) : Option (String × List Char) :=
  (readUnits text).map fun r => (String.ofList (joinUnits r.1), r.2)

/-! ## Values -/

def skipSpace (text : List Char) : List Char := text.dropWhile isSpace

/-- A character of a number, `true`, `false` or `null`. -/
def isScalarChar (c : Char) : Bool := c.isAlphanum || c = '+' || c = '-' || c = '.'

def isNumberText : List Char → Bool
  | [] => false
  | c :: text =>
    match startScalar c with
    | some (.number part) => (text.foldlM Part.next part).any Part.complete
    | _ => false

/-- A number is the text that `String` makes of it; `number` makes it of a number text. -/
def scalarValue (number : List Char → String) (text : List Char) : Option Json :=
  if text = "true".toList then some (.bool true)
  else if text = "false".toList then some (.bool false)
  else if text = "null".toList then some .null
  else if isNumberText text then some (.num (number text))
  else none

/-- A later value of a property takes the place of the earlier one. -/
def assign (fields : List (String × Json)) (field : String × Json) : List (String × Json) :=
  if fields.any (·.1 = field.1) then
    fields.map fun f => if f.1 = field.1 then field else f
  else fields ++ [field]

def assignAll (fields : List (String × Json)) : List (String × Json) := fields.foldl assign []

/-- A key and the colon after it. -/
def readKey (text : List Char) : Option (String × List Char) :=
  match skipSpace text with
  | [] => none
  | c :: text =>
    if c = '"' then
      (readString text).bind fun r =>
        match skipSpace r.2 with
        | [] => none
        | c :: rest => if c = ':' then some (r.1, rest) else none
    else none

section

variable (number : List Char → String)

mutual

/-- The value at the start of a text, and what follows it. -/
def readValue : Nat → List Char → Option (Json × List Char)
  | 0, _ => none
  | n + 1, text =>
    match skipSpace text with
    | [] => none
    | c :: text =>
      if c = '"' then (readString text).map fun r => (.str r.1, r.2)
      else if c = '[' then
        match skipSpace text with
        | [] => none
        | d :: rest =>
          if d = ']' then some (.arr [], rest)
          else (readItems n (d :: rest)).map fun r => (.arr r.1, r.2)
      else if c = '{' then
        match skipSpace text with
        | [] => none
        | d :: rest =>
          if d = '}' then some (.obj [], rest)
          else (readFields n (d :: rest)).map fun r => (.obj (assignAll r.1), r.2)
      else
        (scalarValue number ((c :: text).takeWhile isScalarChar)).map fun v =>
          (v, (c :: text).dropWhile isScalarChar)

/-- The items up to the closing bracket. -/
def readItems : Nat → List Char → Option (List Json × List Char)
  | 0, _ => none
  | n + 1, text =>
    (readValue n text).bind fun r =>
      match skipSpace r.2 with
      | [] => none
      | c :: rest =>
        if c = ',' then (readItems n rest).map fun s => (r.1 :: s.1, s.2)
        else if c = ']' then some ([r.1], rest)
        else none

/-- The properties up to the closing brace. -/
def readFields : Nat → List Char → Option (List (String × Json) × List Char)
  | 0, _ => none
  | n + 1, text =>
    (readKey text).bind fun k =>
      (readValue n k.2).bind fun r =>
        match skipSpace r.2 with
        | [] => none
        | c :: rest =>
          if c = ',' then (readFields n rest).map fun s => ((k.1, r.1) :: s.1, s.2)
          else if c = '}' then some ([(k.1, r.1)], rest)
          else none

end

/-- `JSON.parse`, `none` if it throws. -/
def parseJson (text : List Char) : Option Json :=
  (readValue number (text.length + 1) text).bind fun r =>
    if skipSpace r.2 = [] then some r.1 else none

end

/-! ## Layouts -/

/-- The white space that `JSON.stringify` writes. -/
structure Layout where
  /-- Before an item, a property or a closing bracket at a depth. -/
  line : Nat → List Char
  afterColon : List Char
  line_space : ∀ depth, ∀ c ∈ line depth, isSpace c = true
  colon_space : ∀ c ∈ afterColon, isSpace c = true

/-- `JSON.stringify(value)` -/
def Layout.compact : Layout where
  line _ := []
  afterColon := []
  line_space _ := List.forall_mem_nil _
  colon_space := List.forall_mem_nil _

/-- `JSON.stringify(value, null, 2)` -/
def Layout.indented : Layout where
  line depth := '\n' :: List.replicate (2 * depth) ' '
  afterColon := [' ']
  line_space _ := List.forall_mem_cons.mpr
    ⟨rfl, fun _ hc => (List.eq_of_mem_replicate hc).symm ▸ rfl⟩
  colon_space := List.forall_mem_singleton.mpr rfl

section

variable (L : Layout)

mutual

def print (depth : Nat) : Json → List Char
  | .null => "null".toList
  | .bool b => (if b then "true" else "false").toList
  | .num text => text.toList
  | .str s => quoteJson s
  | .arr [] => ['[', ']']
  | .arr (v :: items) =>
    '[' :: (L.line (depth + 1) ++ (printItems (depth + 1) (v :: items) ++ (L.line depth ++ [']'])))
  | .obj [] => ['{', '}']
  | .obj (field :: fields) =>
    '{' :: (L.line (depth + 1) ++ (printFields (depth + 1) (field :: fields) ++
      (L.line depth ++ ['}'])))

def printItems (depth : Nat) : List Json → List Char
  | [] => []
  | [v] => print depth v
  | v :: items => print depth v ++ ',' :: (L.line depth ++ printItems depth items)

def printFields (depth : Nat) : List (String × Json) → List Char
  | [] => []
  | [(key, v)] => quoteJson key ++ ':' :: (L.afterColon ++ print depth v)
  | (key, v) :: fields =>
    quoteJson key ++ ':' :: (L.afterColon ++ (print depth v ++
      ',' :: (L.line depth ++ printFields depth fields)))

end

end

mutual

theorem print_compact (depth : Nat) : ∀ v : Json, print .compact depth v = stringify v
  | .null | .bool _ | .num _ | .str _ | .arr [] | .obj [] => rfl
  | .arr (v :: items) => congrArg ('[' :: · ++ [']']) (printItems_compact _ (v :: items))
  | .obj (field :: fields) => congrArg ('{' :: · ++ ['}']) (printFields_compact _ (field :: fields))

theorem printItems_compact (depth : Nat) : ∀ items : List Json,
    printItems .compact depth items = stringifyItems items
  | [] => rfl
  | [v] => print_compact depth v
  | v :: w :: items =>
    congrArg₂ (fun a b => a ++ ',' :: b) (print_compact depth v) (printItems_compact depth (w :: items))

theorem printFields_compact (depth : Nat) : ∀ fields : List (String × Json),
    printFields .compact depth fields = stringifyFields fields
  | [] => rfl
  | [(key, v)] => congrArg (quoteJson key ++ ':' :: ·) (print_compact depth v)
  | (key, v) :: field :: fields =>
    congrArg₂ (fun a b => quoteJson key ++ ':' :: (a ++ ',' :: b)) (print_compact depth v)
      (printFields_compact depth (field :: fields))

end

/-! ## Strings are read back -/

theorem hexUnit_control : ∀ n < 32, hexUnit ['0', '0', hexDigit (n / 16), hexDigit (n % 16)] =
    some n := by
  decide

theorem readUnits_quote (rest : List Char) : readUnits ('"' :: rest) = some ([], rest) := by
  rw [readUnits.eq_def]
  exact if_pos rfl

theorem readUnits_letter {e : Char} {unit : Nat} (hletter : e ≠ 'u')
    (h : escapedUnit e = some unit) (rest : List Char) : readUnits ('\\' :: e :: rest) =
      (readUnits rest).map fun r => (unit :: r.1, r.2) := by
  rw [readUnits.eq_def]
  dsimp only
  rw [if_neg (by decide), if_pos rfl, if_neg hletter, h, Option.bind_some]

theorem readUnits_hex {h₁ h₂ h₃ h₄ : Char} {unit : Nat} (h : hexUnit [h₁, h₂, h₃, h₄] = some unit)
    (rest : List Char) : readUnits ('\\' :: 'u' :: h₁ :: h₂ :: h₃ :: h₄ :: rest) =
      (readUnits rest).map fun r => (unit :: r.1, r.2) := by
  rw [readUnits.eq_def]
  dsimp only
  rw [if_neg (by decide), if_pos rfl, if_pos rfl, h, Option.bind_some]

theorem readUnits_char {c : Char} (hquote : c ≠ '"') (hescape : c ≠ '\\') (hcontrol : ¬c.toNat < 32)
    (rest : List Char) : readUnits (c :: rest) =
      (readUnits rest).map fun r => (c.toNat :: r.1, r.2) := by
  rw [readUnits.eq_def]
  dsimp only
  rw [if_neg hquote, if_neg hescape, if_neg hcontrol]

theorem readUnits_escapeJson (c : Char) (rest : List Char) : readUnits (escapeJson c ++ rest) =
    (readUnits rest).map fun r => (c.toNat :: r.1, r.2) := by
  unfold escapeJson
  split
  next h =>
    simp only [Bool.or_eq_true, decide_eq_true_eq] at h
    rcases h with rfl | rfl
    · exact readUnits_letter (by decide) rfl rest
    · exact readUnits_letter (by decide) rfl rest
  split
  next h => exact h ▸ readUnits_letter (by decide) rfl rest
  split
  next h => exact h ▸ readUnits_letter (by decide) rfl rest
  split
  next h => exact h ▸ readUnits_letter (by decide) rfl rest
  split
  next h => exact h ▸ readUnits_letter (by decide) rfl rest
  split
  next h => exact h ▸ readUnits_letter (by decide) rfl rest
  split
  next h => exact readUnits_hex (hexUnit_control _ h) rest
  next hquote _ _ _ _ _ hcontrol =>
    simp only [Bool.or_eq_true, decide_eq_true_eq, not_or] at hquote
    exact readUnits_char hquote.1 hquote.2 hcontrol rest

theorem readUnits_flatMap (s rest : List Char) :
    readUnits (s.flatMap escapeJson ++ '"' :: rest) = some (s.map Char.toNat, rest) := by
  induction s with
  | nil => exact readUnits_quote rest
  | cons c s ih =>
    rw [List.flatMap_cons, List.append_assoc, readUnits_escapeJson, ih]
    rfl

theorem not_surrogate (c : Char) : isHighSurrogate c.toNat = false ∧ isLowSurrogate c.toNat = false := by
  have hvalid : c.toNat < 0xd800 ∨ 0xdfff < c.toNat ∧ c.toNat < 0x110000 := c.valid
  simp only [isHighSurrogate, isLowSurrogate, Bool.and_eq_false_iff, decide_eq_false_iff_not]
  omega

theorem unitChar_toNat (c : Char) : unitChar c.toNat = c := by
  rw [unitChar, (not_surrogate c).1, (not_surrogate c).2]
  exact Char.ofNat_toNat c

theorem joinUnits_map (s : List Char) : joinUnits (s.map Char.toNat) = s := by
  induction s with
  | nil => rfl
  | cons c s ih =>
    cases s with
    | nil => exact congrArg (· :: []) (unitChar_toNat c)
    | cons d s =>
      rw [List.map_cons, List.map_cons, joinUnits, (not_surrogate c).1, Bool.false_and,
        if_neg Bool.false_ne_true, unitChar_toNat, ← List.map_cons, ih]

theorem readString_quoteJson (s : String) (rest : List Char) :
    ∃ text, quoteJson s ++ rest = '"' :: text ∧ readString text = some (s, rest) := by
  refine ⟨s.toList.flatMap escapeJson ++ '"' :: rest, ?_, ?_⟩
  · simp only [quoteJson, List.cons_append, List.append_assoc, List.nil_append]
  · rw [readString, readUnits_flatMap, Option.map_some, joinUnits_map, String.ofList_toList]

/-! ## Scalars and white space -/

theorem skipSpace_append {space : List Char} (h : ∀ c ∈ space, isSpace c = true) (text : List Char) :
    skipSpace (space ++ text) = skipSpace text := List.dropWhile_append_of_pos h

theorem skipSpace_cons {c : Char} (h : isSpace c = false) (text : List Char) :
    skipSpace (c :: text) = c :: text := List.dropWhile_cons_of_neg (by simp [h])

theorem skipSpace_skipSpace (text : List Char) : skipSpace (skipSpace text) = skipSpace text :=
  List.dropWhile_idempotent ..

/-- No scalar goes on at the start of the text. -/
def Ends (text : List Char) : Prop := ∀ c ∈ text.head?, isScalarChar c = false

theorem isScalarChar_of_isSpace {c : Char} (h : isSpace c = true) : isScalarChar c = false := by
  simp only [isSpace, List.contains_iff_mem, List.mem_cons, List.not_mem_nil, or_false] at h
  rcases h with rfl | rfl | rfl | rfl <;> rfl

theorem ends_cons {c : Char} (h : isScalarChar c = false) (text : List Char) : Ends (c :: text) := by
  intro d hd
  cases hd
  exact h

theorem ends_space {space : List Char} (h : ∀ c ∈ space, isSpace c = true) {c : Char}
    (hc : isScalarChar c = false) (text : List Char) : Ends (space ++ c :: text) := by
  cases space with
  | nil => exact ends_cons hc text
  | cons d space => exact ends_cons (isScalarChar_of_isSpace (h d (.head _))) _

theorem takeWhile_ends {text rest : List Char} (h : ∀ c ∈ text, isScalarChar c = true)
    (hrest : Ends rest) : (text ++ rest).takeWhile isScalarChar = text ∧
      (text ++ rest).dropWhile isScalarChar = rest := by
  rw [List.takeWhile_append_of_pos h, List.dropWhile_append_of_pos h]
  cases rest with
  | nil => exact ⟨List.append_nil _, rfl⟩
  | cons c rest =>
    have hc : ¬isScalarChar c = true := by simp [hrest c rfl]
    rw [List.takeWhile_cons_of_neg hc, List.dropWhile_cons_of_neg hc]
    exact ⟨List.append_nil _, rfl⟩

theorem isScalarChar_ne {c : Char} (h : isScalarChar c = true) :
    isSpace c = false ∧ c ≠ '"' ∧ c ≠ '[' ∧ c ≠ '{' ∧ c ≠ ']' ∧ c ≠ '}' := by
  have hne : ∀ d, isScalarChar d = false → c ≠ d := by
    rintro d hd rfl
    exact Bool.false_ne_true (hd.symm.trans h)
  refine ⟨?_, hne _ rfl, hne _ rfl, hne _ rfl, hne _ rfl, hne _ rfl⟩
  cases hspace : isSpace c with
  | false => rfl
  | true => exact absurd (h.symm.trans (isScalarChar_of_isSpace hspace)) (by decide)

theorem isScalarChar_digit {c : Char} (h : isDigit c = true) : isScalarChar c = true := by
  have hdigit : c.isDigit = true := by
    simpa only [isDigit, Char.isDigit, Char.le_def, Bool.and_eq_true, decide_eq_true_eq, ge_iff_le]
      using h
  simp [isScalarChar, Char.isAlphanum, hdigit]

theorem isScalarChar_next {part part' : Part} {c : Char} (h : part.next c = some part') :
    isScalarChar c = true := by
  by_cases hdigit : isDigit c = true
  · exact isScalarChar_digit hdigit
  · unfold Part.next at h
    simp only [if_neg hdigit] at h
    have hsome : ['0', '.', 'e', 'E', '+', '-'].contains c = true := by
      cases part <;> simp at h ⊢ <;> grind
    simp only [List.contains_iff_mem, List.mem_cons, List.not_mem_nil, or_false] at hsome
    rcases hsome with rfl | rfl | rfl | rfl | rfl | rfl <;> decide

theorem isScalarChar_start {part : Part} {c : Char} (h : startScalar c = some (.number part)) :
    isScalarChar c = true := by
  unfold startScalar at h
  split at h
  next => cases h
  split at h
  next => cases h
  split at h
  next => cases h
  split at h
  next hc => exact hc ▸ rfl
  split at h
  next hc => exact hc ▸ rfl
  split at h
  next hc => exact isScalarChar_digit hc
  next => cases h

theorem isScalarChar_foldlM {text : List Char} {part part' : Part}
    (h : text.foldlM Part.next part = some part') : ∀ c ∈ text, isScalarChar c = true := by
  induction text generalizing part with
  | nil => exact List.forall_mem_nil _
  | cons c text ih =>
    rw [List.foldlM_cons, Option.bind_eq_bind, Option.bind_eq_some_iff] at h
    obtain ⟨next, hnext, h⟩ := h
    exact List.forall_mem_cons.mpr ⟨isScalarChar_next hnext, ih h⟩

theorem isScalarChar_number {text : List Char} (h : isNumberText text = true) :
    text ≠ [] ∧ ∀ c ∈ text, isScalarChar c = true := by
  unfold isNumberText at h
  split at h
  next => cases h
  next c text =>
    split at h
    next part hstart =>
      obtain ⟨part', hpart, -⟩ := (Option.any_eq_true ..).mp h
      exact ⟨List.cons_ne_nil _ _,
        List.forall_mem_cons.mpr ⟨isScalarChar_start hstart, isScalarChar_foldlM hpart⟩⟩
    next => cases h

/-- A number is no literal. -/
theorem scalarValue_number (number : List Char → String) {text : List Char}
    (h : isNumberText text = true) : scalarValue number text = some (.num (number text)) := by
  have hne : ∀ literal, isNumberText literal = false → text ≠ literal := by
    rintro literal hliteral rfl
    exact Bool.false_ne_true (hliteral.symm.trans h)
  rw [scalarValue, if_neg (hne _ rfl), if_neg (hne _ rfl), if_neg (hne _ rfl), if_pos h]

theorem readValue_scalar (number : List Char → String) (n : Nat) (text : List Char)
    {rest : List Char} {v : Json} (hne : text ≠ []) (h : ∀ c ∈ text, isScalarChar c = true)
    (hvalue : scalarValue number text = some v) (hrest : Ends rest) :
    readValue number (n + 1) (text ++ rest) = some (v, rest) := by
  cases text with
  | nil => exact absurd rfl hne
  | cons c text =>
    obtain ⟨hspace, hquote, hbracket, hbrace, -, -⟩ := isScalarChar_ne (h c (.head _))
    obtain ⟨htake, hdrop⟩ := takeWhile_ends h hrest
    rw [readValue, List.cons_append, skipSpace_cons hspace]
    dsimp only
    rw [if_neg hquote, if_neg hbracket, if_neg hbrace, ← List.cons_append, htake, hdrop, hvalue,
      Option.map_some]

/-! ## Objects and arrays -/

theorem assign_of_notMem {fields : List (String × Json)} {field : String × Json}
    (h : field.1 ∉ fields.map Prod.fst) : assign fields field = fields ++ [field] := by
  refine if_neg fun hany => h ?_
  obtain ⟨f, hf, hkey⟩ := List.any_eq_true.mp hany
  exact List.mem_map.mpr ⟨f, hf, of_decide_eq_true hkey⟩

theorem foldl_assign {fields assigned : List (String × Json)}
    (h : ((assigned ++ fields).map Prod.fst).Nodup) :
    fields.foldl assign assigned = assigned ++ fields := by
  induction fields generalizing assigned with
  | nil => exact (List.append_nil _).symm
  | cons field fields ih =>
    have hnew : field.1 ∉ assigned.map Prod.fst := by
      rw [List.map_append, List.nodup_append] at h
      exact fun hmem => h.2.2 _ hmem _ (.head _) rfl
    rw [List.foldl_cons, assign_of_notMem hnew, ih (by rwa [List.append_assoc, List.singleton_append]),
      List.append_assoc, List.singleton_append]

theorem assignAll_of_nodup {fields : List (String × Json)} (h : (fields.map Prod.fst).Nodup) :
    assignAll fields = fields := foldl_assign h

section

variable (number : List Char → String)

mutual

/-- A value that `JSON.parse` can return. -/
def Canonical : Json → Prop
  | .null | .bool _ | .str _ => True
  | .num text => isNumberText text.toList = true ∧ number text.toList = text
  | .arr items => CanonicalItems items
  | .obj fields => (fields.map Prod.fst).Nodup ∧ CanonicalFields fields

def CanonicalItems : List Json → Prop
  | [] => True
  | v :: items => Canonical v ∧ CanonicalItems items

def CanonicalFields : List (String × Json) → Prop
  | [] => True
  | (_, v) :: fields => Canonical v ∧ CanonicalFields fields

end

end

variable {number : List Char → String}

theorem readValue_skipSpace (n : Nat) (text : List Char) :
    readValue number n (skipSpace text) = readValue number n text := by
  cases n with
  | zero => rfl
  | succ n => rw [readValue, readValue, skipSpace_skipSpace]

theorem readItems_skipSpace (n : Nat) (text : List Char) :
    readItems number n (skipSpace text) = readItems number n text := by
  cases n with
  | zero => rfl
  | succ n => rw [readItems, readItems, readValue_skipSpace]

theorem readFields_skipSpace (n : Nat) (text : List Char) :
    readFields number n (skipSpace text) = readFields number n text := by
  cases n with
  | zero => rfl
  | succ n => rw [readFields, readFields, readKey, readKey, skipSpace_skipSpace]

theorem readValue_str (n : Nat) (s : String) (rest : List Char) :
    readValue number (n + 1) (quoteJson s ++ rest) = some (.str s, rest) := by
  obtain ⟨text, hquote, hread⟩ := readString_quoteJson s rest
  rw [hquote, readValue, skipSpace_cons rfl]
  dsimp only
  rw [if_pos rfl, hread, Option.map_some]

theorem readKey_quoteJson (key : String) (rest : List Char) :
    readKey (quoteJson key ++ ':' :: rest) = some (key, rest) := by
  obtain ⟨text, hquote, hread⟩ := readString_quoteJson key (':' :: rest)
  rw [hquote, readKey, skipSpace_cons rfl]
  dsimp only
  rw [if_pos rfl, hread, Option.bind_some, skipSpace_cons rfl]
  exact if_pos rfl

theorem readValue_arr {n : Nat} {text rest : List Char} {items : List Json}
    (hstart : ∃ c tail, skipSpace text = c :: tail ∧ c ≠ ']')
    (h : readItems number n text = some (items, rest)) :
    readValue number (n + 1) ('[' :: text) = some (.arr items, rest) := by
  obtain ⟨c, tail, hskip, hc⟩ := hstart
  rw [readValue, skipSpace_cons rfl]
  dsimp only
  rw [if_neg (by decide), if_pos rfl, hskip]
  dsimp only
  rw [if_neg hc, ← hskip, readItems_skipSpace, h, Option.map_some]

theorem readValue_obj {n : Nat} {text rest : List Char} {fields : List (String × Json)}
    (hstart : ∃ c tail, skipSpace text = c :: tail ∧ c ≠ '}')
    (h : readFields number n text = some (fields, rest)) :
    readValue number (n + 1) ('{' :: text) = some (.obj (assignAll fields), rest) := by
  obtain ⟨c, tail, hskip, hc⟩ := hstart
  rw [readValue, skipSpace_cons rfl]
  dsimp only
  rw [if_neg (by decide), if_neg (by decide), if_pos rfl, hskip]
  dsimp only
  rw [if_neg hc, ← hskip, readFields_skipSpace, h, Option.map_some]

/-! ## Values are read back -/

/-- The first character of a value. -/
theorem print_head (L : Layout) (depth : Nat) {v : Json} (h : Canonical number v) :
    ∃ c text, print L depth v = c :: text ∧ isSpace c = false ∧ c ≠ ']' := by
  cases v with
  | null => exact ⟨_, _, rfl, rfl, by decide⟩
  | bool b => cases b <;> exact ⟨_, _, rfl, rfl, by decide⟩
  | num text =>
    obtain ⟨hne, hscalar⟩ := isScalarChar_number h.1
    obtain ⟨c, rest, htext⟩ := List.exists_cons_of_ne_nil hne
    obtain ⟨hspace, -, -, -, hbracket, -⟩ := isScalarChar_ne (hscalar c (htext ▸ .head _))
    exact ⟨c, rest, htext, hspace, hbracket⟩
  | str s => exact ⟨_, _, rfl, rfl, by decide⟩
  | arr items => cases items <;> exact ⟨_, _, rfl, rfl, by decide⟩
  | obj fields => cases fields <;> exact ⟨_, _, rfl, rfl, by decide⟩

theorem printItems_head (L : Layout) (depth : Nat) {v : Json} (items : List Json) (rest : List Char)
    (h : Canonical number v) : ∃ c tail, printItems L depth (v :: items) ++ rest = c :: tail ∧
      isSpace c = false ∧ c ≠ ']' := by
  obtain ⟨c, text, htext, hspace, hbracket⟩ := print_head L depth h
  cases items with
  | nil => exact ⟨c, text ++ rest, by rw [printItems, htext, List.cons_append], hspace, hbracket⟩
  | cons w items =>
    refine ⟨c, text ++ ',' :: (L.line depth ++ printItems L depth (w :: items)) ++ rest, ?_, hspace,
      hbracket⟩
    rw [printItems, htext, List.cons_append, List.cons_append]
    exact List.cons_ne_nil _ _

theorem printFields_head (L : Layout) (depth : Nat) (field : String × Json)
    (fields : List (String × Json)) (rest : List Char) :
    ∃ tail, printFields L depth (field :: fields) ++ rest = '"' :: tail := by
  cases fields with
  | nil => exact ⟨_, rfl⟩
  | cons next fields => exact ⟨_, rfl⟩

mutual

theorem readValue_print (L : Layout) : ∀ (v : Json) (n depth : Nat) {rest : List Char},
    Canonical number v → (print L depth v).length < n → Ends rest →
    readValue number n (print L depth v ++ rest) = some (v, rest)
  | _, 0, _, _, _, hn, _ => absurd hn (Nat.not_lt_zero _)
  | .null, n + 1, _, _, _, _, hrest =>
    readValue_scalar number n "null".toList (List.cons_ne_nil _ _) (List.all_eq_true.mp rfl) rfl hrest
  | .bool true, n + 1, _, _, _, _, hrest =>
    readValue_scalar number n "true".toList (List.cons_ne_nil _ _) (List.all_eq_true.mp rfl) rfl hrest
  | .bool false, n + 1, _, _, _, _, hrest =>
    readValue_scalar number n "false".toList (List.cons_ne_nil _ _) (List.all_eq_true.mp rfl) rfl hrest
  | .num text, n + 1, _, _, h, _, hrest => by
    obtain ⟨hne, hscalar⟩ := isScalarChar_number h.1
    exact readValue_scalar number n text.toList hne hscalar
      (by rw [scalarValue_number number h.1, h.2]) hrest
  | .str s, n + 1, _, rest, _, _, _ => readValue_str n s rest
  | .arr [], n + 1, _, _, _, _, _ => rfl
  | .arr (v :: items), n + 1, depth, rest, h, hn, _ => by
    have hlength : (printItems L (depth + 1) (v :: items)).length + 1 < n := by
      simp only [print, List.length_cons, List.length_append] at hn
      omega
    simp only [print, List.cons_append, List.append_assoc, List.nil_append]
    refine readValue_arr ?_ ?_
    · obtain ⟨c, tail, hhead, hspace, hbracket⟩ :=
        printItems_head L (depth + 1) items (L.line depth ++ ']' :: rest) h.1
      refine ⟨c, tail, ?_, hbracket⟩
      rw [skipSpace_append (L.line_space _), hhead, skipSpace_cons hspace]
    · rw [← readItems_skipSpace, skipSpace_append (L.line_space _), readItems_skipSpace]
      exact readItems_print L (v :: items) n (depth + 1) (List.cons_ne_nil _ _) h hlength
        (L.line_space depth)
  | .obj [], n + 1, _, _, _, _, _ => rfl
  | .obj (field :: fields), n + 1, depth, rest, h, hn, _ => by
    have hlength : (printFields L (depth + 1) (field :: fields)).length + 1 < n := by
      simp only [print, List.length_cons, List.length_append] at hn
      omega
    have hread : readFields number n (L.line (depth + 1) ++
        (printFields L (depth + 1) (field :: fields) ++ (L.line depth ++ '}' :: rest))) =
          some (field :: fields, rest) := by
      rw [← readFields_skipSpace, skipSpace_append (L.line_space _), readFields_skipSpace]
      exact readFields_print L (field :: fields) n (depth + 1) (List.cons_ne_nil _ _) h.2 hlength
        (L.line_space depth)
    obtain ⟨tail, hhead⟩ :=
      printFields_head L (depth + 1) field fields (L.line depth ++ '}' :: rest)
    have hvalue := readValue_obj ⟨'"', tail, by
      rw [skipSpace_append (L.line_space _), hhead, skipSpace_cons rfl], by decide⟩ hread
    rw [assignAll_of_nodup h.1] at hvalue
    simp only [print, List.cons_append, List.append_assoc, List.nil_append]
    exact hvalue

theorem readItems_print (L : Layout) : ∀ (items : List Json) (n depth : Nat)
    {space rest : List Char}, items ≠ [] → CanonicalItems number items →
    (printItems L depth items).length + 1 < n → (∀ c ∈ space, isSpace c = true) →
    readItems number n (printItems L depth items ++ (space ++ ']' :: rest)) = some (items, rest)
  | [], _, _, _, _, hne, _, _, _ => absurd rfl hne
  | _, 0, _, _, _, _, _, hn, _ => absurd hn (Nat.not_lt_zero _)
  | [v], n + 1, depth, space, rest, _, h, hn, hspace => by
    have hlength : (print L depth v).length < n := Nat.lt_of_succ_lt_succ hn
    rw [printItems, readItems, readValue_print L v n depth h.1 hlength (ends_space hspace rfl rest),
      Option.bind_some, skipSpace_append hspace, skipSpace_cons rfl]
    rfl
  | v :: w :: items, n + 1, depth, space, rest, _, h, hn, hspace => by
    have hlength : (print L depth v).length < n ∧ (printItems L depth (w :: items)).length + 1 < n := by
      simp only [printItems, List.length_cons, List.length_append] at hn
      omega
    rw [printItems, readItems, List.append_assoc, List.cons_append,
      readValue_print L v n depth h.1 hlength.1 (ends_cons rfl _), Option.bind_some, skipSpace_cons rfl]
    dsimp only
    rw [if_pos rfl, List.append_assoc, ← readItems_skipSpace, skipSpace_append (L.line_space _),
      readItems_skipSpace,
      readItems_print L (w :: items) n depth (List.cons_ne_nil _ _) h.2 hlength.2 hspace,
      Option.map_some]
    exact List.cons_ne_nil _ _

theorem readFields_print (L : Layout) : ∀ (fields : List (String × Json)) (n depth : Nat)
    {space rest : List Char}, fields ≠ [] → CanonicalFields number fields →
    (printFields L depth fields).length + 1 < n → (∀ c ∈ space, isSpace c = true) →
    readFields number n (printFields L depth fields ++ (space ++ '}' :: rest)) = some (fields, rest)
  | [], _, _, _, _, hne, _, _, _ => absurd rfl hne
  | _, 0, _, _, _, _, _, hn, _ => absurd hn (Nat.not_lt_zero _)
  | [(key, v)], n + 1, depth, space, rest, _, h, hn, hspace => by
    have hlength : (print L depth v).length < n := by
      simp only [printFields, List.length_cons, List.length_append] at hn
      omega
    rw [printFields, readFields, List.append_assoc, List.cons_append, readKey_quoteJson,
      Option.bind_some, List.append_assoc]
    dsimp only
    rw [← readValue_skipSpace, skipSpace_append L.colon_space, readValue_skipSpace,
      readValue_print L v n depth h.1 hlength (ends_space hspace rfl rest), Option.bind_some,
      skipSpace_append hspace, skipSpace_cons rfl]
    rfl
  | (key, v) :: field :: fields, n + 1, depth, space, rest, _, h, hn, hspace => by
    have hlength : (print L depth v).length < n ∧
        (printFields L depth (field :: fields)).length + 1 < n := by
      simp only [printFields, List.length_cons, List.length_append] at hn
      omega
    rw [printFields, readFields, List.append_assoc, List.cons_append, readKey_quoteJson,
      Option.bind_some, List.append_assoc, List.append_assoc, List.cons_append]
    dsimp only
    rw [← readValue_skipSpace, skipSpace_append L.colon_space, readValue_skipSpace,
      readValue_print L v n depth h.1 hlength.1 (ends_cons rfl _), Option.bind_some,
      skipSpace_cons rfl]
    dsimp only
    rw [if_pos rfl, List.append_assoc, ← readFields_skipSpace, skipSpace_append (L.line_space _),
      readFields_skipSpace,
      readFields_print L (field :: fields) n depth (List.cons_ne_nil _ _) h.2 hlength.2 hspace,
      Option.map_some]
    exact List.cons_ne_nil _ _

end

/-- What is written is read back. -/
theorem parseJson_print (L : Layout) {v : Json} (h : Canonical number v) {space : List Char}
    (hspace : ∀ c ∈ space, isSpace c = true) : parseJson number (print L 0 v ++ space) = some v := by
  have hends : Ends space := by
    cases space with
    | nil => exact fun c hc => absurd hc (Option.not_mem_none c)
    | cons c space => exact ends_cons (isScalarChar_of_isSpace (hspace c (.head _))) space
  have hlength : (print L 0 v).length < (print L 0 v ++ space).length + 1 := by
    rw [List.length_append]
    omega
  have hskip : skipSpace space = [] := List.dropWhile_eq_nil_iff.mpr hspace
  rw [parseJson, readValue_print L v _ 0 h hlength hends, Option.bind_some, hskip]
  rfl

theorem parseJson_stringify {v : Json} (h : Canonical number v) {space : List Char}
    (hspace : ∀ c ∈ space, isSpace c = true) : parseJson number (stringify v ++ space) = some v :=
  print_compact 0 v ▸ parseJson_print .compact h hspace

end CliProxy.Adapter
