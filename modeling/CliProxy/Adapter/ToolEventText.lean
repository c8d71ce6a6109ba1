import CliProxy.Adapter.JsonParse
import CliProxy.Lib.Replace
import CliProxy.Lib.Utf8Cut

/-! # What tool events carry

`src/adapter/tool-events.ts`: in the inputs and outputs of tools the home directory is masked and a long
text is cut, and a result has the name of its call. -/

namespace CliProxy.Adapter.ToolEvents

open Lib (replaceAll utf8Encode utf8Decode boundary Cut)

/-! ## The source -/

def TOOL_EVENT_MAX_BYTES : Nat := 4096

/-- `JSON.stringify(text).slice(1, -1)` -/
def escapeText (text : List Char) : List Char := text.flatMap escapeJson

def maskHome (text home : List Char) : List Char :=
  if home = [] ∨ home = ['/'] then text
  else
    let escaped := escapeText home
    let masked := if escaped = home then text else replaceAll escaped ['~'] text
    replaceAll home ['~'] masked

/-- `… [truncated n bytes]` -/
def truncation (n : Nat) : List Char :=
  '…' :: (" [truncated ".toList ++ Nat.toDigits 10 n ++ " bytes]".toList)

def clip (home text : List Char) : List Char :=
  let masked := maskHome text home
  let bytes := utf8Encode masked
  if bytes.length ≤ TOOL_EVENT_MAX_BYTES then masked
  else
    let e := boundary bytes TOOL_EVENT_MAX_BYTES
    utf8Decode (bytes.take e) ++ truncation (bytes.length - e)

/-- `none` is `undefined`; a masked text that is no JSON any more is returned as a text. -/
def clipInput (number : List Char → String) (home : List Char) (input : Option Json) : Option Json :=
  input.map fun input =>
    let json := stringify input
    let masked := maskHome json home
    if (utf8Encode masked).length ≤ TOOL_EVENT_MAX_BYTES then
      (parseJson number masked).getD (.str (String.ofList masked))
    else .str (String.ofList (clip home json))

/-! ## What is masked -/

/-- The home directory of a user; short names of Windows may have a tilde. -/
structure HomePath (home : List Char) : Prop where
  noTilde : '~' ∉ home
  noEllipsis : '…' ∉ home
  separator : '/' ∈ home ∨ '\\' ∈ home
  notRoot : home ≠ ['/']

/-- The characters of escape sequences. -/
def isSequenceChar (c : Char) : Bool := c.isAlphanum || c = '\\' || c = '"'

theorem isSequenceChar_hexDigit : ∀ n < 16, isSequenceChar (hexDigit n) = true := by decide

theorem mem_escapeJson {c d : Char} (h : d ∈ escapeJson c) : d = c ∨ isSequenceChar d = true := by
  have hsequence (e : Char) (he : isSequenceChar e = true) (h : d ∈ ['\\', e]) :
      isSequenceChar d = true := by
    rcases List.mem_pair.mp h with rfl | rfl
    · rfl
    · exact he
  rw [escapeJson] at h
  split at h
  · rcases List.mem_pair.mp h with rfl | rfl
    · exact .inr rfl
    · exact .inl rfl
  split at h
  · exact .inr (hsequence 'b' rfl h)
  split at h
  · exact .inr (hsequence 't' rfl h)
  split at h
  · exact .inr (hsequence 'n' rfl h)
  split at h
  · exact .inr (hsequence 'f' rfl h)
  split at h
  · exact .inr (hsequence 'r' rfl h)
  split at h
  · next hlow =>
    have hhigh := isSequenceChar_hexDigit (c.toNat / 16) (by omega)
    have hdigit := isSequenceChar_hexDigit (c.toNat % 16) (Nat.mod_lt _ (by decide))
    simp only [List.mem_cons, List.not_mem_nil, or_false] at h
    rcases h with rfl | rfl | rfl | rfl | rfl | rfl
    · exact .inr rfl
    · exact .inr rfl
    · exact .inr rfl
    · exact .inr rfl
    · exact .inr hhigh
    · exact .inr hdigit
  · exact .inl (List.mem_singleton.mp h)

theorem notMem_escapeText {d : Char} (hd : isSequenceChar d = false) {text : List Char}
    (h : d ∉ text) : d ∉ escapeText text := by
  intro hmem
  obtain ⟨c, hc, hdc⟩ := List.mem_flatMap.mp hmem
  rcases mem_escapeJson hdc with rfl | hsequence
  · exact h hc
  · exact absurd (hd.symm.trans hsequence) (by decide)

section

variable {home : List Char} (H : HomePath home)

include H

theorem HomePath.ne_nil : home ≠ [] := by
  rintro rfl
  rcases H.separator with h | h <;> cases h

theorem HomePath.escaped_separator : '/' ∈ escapeText home ∨ '\\' ∈ escapeText home := by
  rcases H.separator with h | h
  · exact .inl (List.mem_flatMap.mpr ⟨'/', h, by decide⟩)
  · exact .inr (List.mem_flatMap.mpr ⟨'\\', h, by decide⟩)

theorem HomePath.escaped_ne_nil : escapeText home ≠ [] := by
  intro hnil
  have := H.escaped_separator
  rw [hnil] at this
  rcases this with h | h <;> cases h

theorem maskHome_eq (text : List Char) : maskHome text home =
    replaceAll home ['~']
      (if escapeText home = home then text else replaceAll (escapeText home) ['~'] text) :=
  if_neg (not_or.mpr ⟨H.ne_nil, H.notRoot⟩)

/-- Neither the home directory nor its spelling within JSON is left. -/
theorem maskHome_masks (text : List Char) :
    ¬ home <:+: maskHome text home ∧ ¬ escapeText home <:+: maskHome text home := by
  have hescaped : '~' ∉ escapeText home := notMem_escapeText (by decide) H.noTilde
  rw [maskHome_eq H]
  refine ⟨Lib.not_infix_replaceAll H.ne_nil H.noTilde _, fun h => ?_⟩
  split at h
  · next heq =>
    rw [heq] at h
    exact Lib.not_infix_replaceAll H.ne_nil H.noTilde _ h
  · have hfirst := Lib.infix_of_infix_replaceAll H.ne_nil H.escaped_ne_nil hescaped h
    exact Lib.not_infix_replaceAll H.escaped_ne_nil hescaped _ hfirst

end

/-! ## What is cut -/

theorem clip_eq (home text : List Char) :
    clip home text = maskHome text home ∧
        (utf8Encode (maskHome text home)).length ≤ TOOL_EVENT_MAX_BYTES ∨
      ∃ kept, Cut (maskHome text home) kept TOOL_EVENT_MAX_BYTES ∧
        clip home text = kept ++
          truncation ((utf8Encode (maskHome text home)).length - (utf8Encode kept).length) := by
  by_cases hlength : (utf8Encode (maskHome text home)).length ≤ TOOL_EVENT_MAX_BYTES
  · exact .inl ⟨if_pos hlength, hlength⟩
  · obtain ⟨kept, hcut, hboundary⟩ :=
      Lib.boundary_utf8Encode (maskHome text home) (Nat.lt_of_not_le hlength)
    refine .inr ⟨kept, hcut, ?_⟩
    rw [clip]
    dsimp only
    rw [if_neg hlength, hboundary, hcut.take, Lib.utf8Decode_encode]

/-- A word with a separator is not in the note that ends a cut text. -/
theorem not_infix_truncation {w kept : List Char} (hellipsis : '…' ∉ w)
    (hseparator : '/' ∈ w ∨ '\\' ∈ w) (hkept : ¬ w <:+: kept) (n : Nat) :
    ¬ w <:+: kept ++ truncation n := by
  intro h
  rcases Lib.infix_append_cons hellipsis h with hstart | hnote
  · exact hkept hstart
  · have hclear {d : Char} (hd : d ∉ " [truncated ".toList ∧ d.isDigit = false ∧ d ∉ " bytes]".toList) :
        d ∉ w := by
      intro hmem
      have hfound := hnote.subset hmem
      simp only [List.mem_append] at hfound
      rcases hfound with (h | h) | h
      · exact hd.1 h
      · exact absurd (Nat.isDigit_of_mem_toDigits (by omega) (by omega) h) (by simp [hd.2.1])
      · exact hd.2.2 h
    rcases hseparator with h | h
    · exact hclear (by decide) h
    · exact hclear (by decide) h

theorem clip_noHome {home : List Char} (H : HomePath home) (text : List Char) :
    ¬ home <:+: clip home text ∧ ¬ escapeText home <:+: clip home text := by
  obtain ⟨hhome, hescaped⟩ := maskHome_masks H text
  rcases clip_eq home text with ⟨heq, -⟩ | ⟨kept, hcut, heq⟩
  · rw [heq]
    exact ⟨hhome, hescaped⟩
  · rw [heq]
    have hprefix := hcut.isPrefix.isInfix
    exact ⟨not_infix_truncation H.noEllipsis H.separator (fun h => hhome (h.trans hprefix)) _,
      not_infix_truncation (notMem_escapeText (by decide) H.noEllipsis) H.escaped_separator
        (fun h => hescaped (h.trans hprefix)) _⟩

section

variable (home : List Char)

def maskText (s : String) : String := String.ofList (replaceAll home ['~'] s.toList)

mutual

/-- Every string of the value is masked, and every key. -/
def maskJson : Json → Json
  | .null => .null
  | .bool b => .bool b
  | .num text => .num text
  | .str s => .str (maskText home s)
  | .arr items => .arr (maskItems items)
  | .obj fields => .obj (maskFields fields)

def maskItems : List Json → List Json
  | [] => []
  | v :: items => maskJson v :: maskItems items

def maskFields : List (String × Json) → List (String × Json)
  | [] => []
  | (key, v) :: fields => (maskText home key, maskJson v) :: maskFields fields

end

end

mutual

/-- The strings and the keys of a value. -/
def strings : Json → List String
  | .null | .bool _ | .num _ => []
  | .str s => [s]
  | .arr items => stringsOfItems items
  | .obj fields => stringsOfFields fields

def stringsOfItems : List Json → List String
  | [] => []
  | v :: items => strings v ++ stringsOfItems items

def stringsOfFields : List (String × Json) → List String
  | [] => []
  | (key, v) :: fields => key :: (strings v ++ stringsOfFields fields)

end

/-- A home directory that JSON spells as it is. -/
structure PosixHome (home : List Char) : Prop extends HomePath home where
  absolute : home.head? = some '/'
  plain : ∀ c ∈ home, escapeJson c = [c]

theorem escapeJson_cases (c : Char) :
    escapeJson c = [c] ∨ '/' ∉ escapeJson c ∧ (escapeJson c).head? = some '\\' := by
  have hdigit : ∀ n < 16, hexDigit n ≠ '/' := by decide
  by_cases hslash : c = '/'
  · exact .inl (by rw [hslash]; decide)
  rw [escapeJson]
  split
  · exact .inr ⟨by simp [Ne.symm hslash], rfl⟩
  split
  · exact .inr ⟨by decide, rfl⟩
  split
  · exact .inr ⟨by decide, rfl⟩
  split
  · exact .inr ⟨by decide, rfl⟩
  split
  · exact .inr ⟨by decide, rfl⟩
  split
  · exact .inr ⟨by decide, rfl⟩
  split
  · next hlow =>
    have hhigh := hdigit (c.toNat / 16) (by omega)
    have hdigit' := hdigit (c.toNat % 16) (Nat.mod_lt _ (by decide))
    exact .inr ⟨by simp [hhigh.symm, hdigit'.symm], rfl⟩
  · exact .inl rfl

theorem escapeText_cons (c : Char) (text : List Char) :
    escapeText (c :: text) = escapeJson c ++ escapeText text := List.flatMap_cons

theorem escapeText_append (a b : List Char) :
    escapeText (a ++ b) = escapeText a ++ escapeText b := List.flatMap_append

theorem escapeText_plain {w : List Char} (hw : ∀ c ∈ w, escapeJson c = [c]) : escapeText w = w := by
  induction w with
  | nil => rfl
  | cons c w ih =>
    rw [List.forall_mem_cons] at hw
    rw [escapeText_cons, hw.1, ih hw.2]
    rfl

/-- Plain characters are found in the escaped text where they were in the text. -/
theorem prefix_of_prefix_escapeText {w : List Char} (hw : ∀ c ∈ w, escapeJson c = [c])
    {text : List Char} (h : w <+: escapeText text) : w <+: text := by
  induction w generalizing text with
  | nil => exact List.nil_prefix
  | cons d w ih =>
    rw [List.forall_mem_cons] at hw
    cases text with
    | nil => exact h
    | cons c text =>
      rw [escapeText_cons] at h
      rcases escapeJson_cases c with hplain | ⟨-, hhead⟩
      · rw [hplain] at h
        obtain ⟨hd, hrest⟩ := List.cons_prefix_cons.mp h
        exact List.cons_prefix_cons.mpr ⟨hd, ih hw.2 hrest⟩
      · obtain ⟨tail, htail⟩ := List.head?_eq_some_iff.mp hhead
        rw [htail] at h
        have hd : d = '\\' := (List.cons_prefix_cons.mp h).1
        have hplain := hw.1
        rw [hd] at hplain
        exact absurd hplain (by decide)

section

variable {home : List Char} (H : PosixHome home)

include H

theorem PosixHome.eq_cons : ∃ tail, home = '/' :: tail := List.head?_eq_some_iff.mp H.absolute

theorem PosixHome.noQuote : '"' ∉ home := fun h => absurd (H.plain _ h) (by decide)

theorem replaceAll_char {c : Char} (hc : c ≠ '/') (text : List Char) :
    replaceAll home ['~'] (c :: text) = c :: replaceAll home ['~'] text := by
  obtain ⟨tail, rfl⟩ := H.eq_cons
  exact Lib.replaceAll_append_of_notMem (a := [c]) (by simpa using hc.symm) text

theorem replaceAll_scalar {a : List Char} (ha : '/' ∉ a) (text : List Char) :
    replaceAll home ['~'] (a ++ text) = a ++ replaceAll home ['~'] text := by
  obtain ⟨tail, rfl⟩ := H.eq_cons
  exact Lib.replaceAll_append_of_notMem ha text

/-- Masking an escaped text is escaping the masked text. -/
theorem replaceAll_escapeText (text : List Char) :
    replaceAll home ['~'] (escapeText text) = escapeText (replaceAll home ['~'] text) := by
  have hne := H.toHomePath.ne_nil
  induction text using Lib.replace_induction hne with
  | nil => rfl
  | occurrence rest ih =>
    rw [escapeText_append, escapeText_plain H.plain, Lib.replaceAll_word hne, Lib.replaceAll_word hne,
      ih, escapeText_append]
    rfl
  | cons c text hprefix ih =>
    rw [Lib.replaceAll_cons hprefix, escapeText_cons, escapeText_cons, ← ih]
    rcases escapeJson_cases c with hplain | ⟨hslash, -⟩
    · have hprefix' : ¬ home <+: c :: escapeText text := fun h =>
        hprefix (prefix_of_prefix_escapeText H.plain (by rw [escapeText_cons, hplain]; exact h))
      rw [hplain]
      exact Lib.replaceAll_cons hprefix'
    · exact replaceAll_scalar H hslash _

theorem replaceAll_quoteJson (s : String) (rest : List Char) :
    replaceAll home ['~'] (quoteJson s ++ rest) =
      quoteJson (maskText home s) ++ replaceAll home ['~'] rest := by
  have hne := H.toHomePath.ne_nil
  have htext : quoteJson s ++ rest = '"' :: (escapeText s.toList ++ '"' :: rest) := by
    rw [quoteJson, List.cons_append, List.append_assoc]
    rfl
  rw [htext, replaceAll_char H (by decide), Lib.replaceAll_append_cons hne H.noQuote,
    replaceAll_escapeText H, quoteJson, maskText, String.toList_ofList, List.cons_append,
    List.append_assoc]
  rfl

omit H in
theorem slash_notMem_number {text : List Char} (h : isNumberText text = true) : '/' ∉ text :=
  fun hmem => absurd ((isScalarChar_number h).2 _ hmem) (by decide)

variable {number : List Char → String}

mutual

theorem replaceAll_stringify : ∀ (v : Json) (rest : List Char), Canonical number v →
    replaceAll home ['~'] (stringify v ++ rest) =
      stringify (maskJson home v) ++ replaceAll home ['~'] rest
  | .null, rest, _ => replaceAll_scalar H (by decide) rest
  | .bool true, rest, _ => replaceAll_scalar H (by decide) rest
  | .bool false, rest, _ => replaceAll_scalar H (by decide) rest
  | .num text, rest, h => replaceAll_scalar H (slash_notMem_number h.1) rest
  | .str s, rest, _ => replaceAll_quoteJson H s rest
  | .arr items, rest, h => by
    have hitems := replaceAll_stringifyItems items (']' :: rest) h
    rw [replaceAll_char H (by decide)] at hitems
    simp only [stringify, maskJson, List.cons_append, List.append_assoc, List.nil_append]
    rw [replaceAll_char H (by decide), hitems]
  | .obj fields, rest, h => by
    have hfields := replaceAll_stringifyFields fields ('\x7d' :: rest) h.2
    rw [replaceAll_char H (by decide)] at hfields
    simp only [stringify, maskJson, List.cons_append, List.append_assoc, List.nil_append]
    rw [replaceAll_char H (by decide), hfields]

theorem replaceAll_stringifyItems : ∀ (items : List Json) (rest : List Char),
    CanonicalItems number items → replaceAll home ['~'] (stringifyItems items ++ rest) =
      stringifyItems (maskItems home items) ++ replaceAll home ['~'] rest
  | [], _, _ => rfl
  | [v], rest, h => replaceAll_stringify v rest h.1
  | v :: w :: items, rest, h => by
    have hitems := replaceAll_stringifyItems (w :: items) rest h.2
    simp only [stringifyItems, maskItems, List.cons_append, List.append_assoc] at hitems ⊢
    rw [replaceAll_stringify v _ h.1, replaceAll_char H (by decide), hitems]

theorem replaceAll_stringifyFields : ∀ (fields : List (String × Json)) (rest : List Char),
    CanonicalFields number fields → replaceAll home ['~'] (stringifyFields fields ++ rest) =
      stringifyFields (maskFields home fields) ++ replaceAll home ['~'] rest
  | [], _, _ => rfl
  | [(key, v)], rest, h => by
    simp only [stringifyFields, maskFields, List.cons_append, List.append_assoc]
    rw [replaceAll_quoteJson H, replaceAll_char H (by decide), replaceAll_stringify v rest h.1]
  | (key, v) :: field :: fields, rest, h => by
    have hfields := replaceAll_stringifyFields (field :: fields) rest h.2
    simp only [stringifyFields, maskFields, List.cons_append, List.append_assoc] at hfields ⊢
    rw [replaceAll_quoteJson H, replaceAll_char H (by decide), replaceAll_stringify v _ h.1,
      replaceAll_char H (by decide), hfields]

end

/-- Masking the JSON text of a value is masking the strings of the value. -/
theorem maskHome_stringify {v : Json} (hv : Canonical number v) :
    maskHome (stringify v) home = stringify (maskJson home v) := by
  have h := replaceAll_stringify H v [] hv
  rw [List.append_nil, show replaceAll home ['~'] [] = [] from rfl, List.append_nil] at h
  rw [maskHome_eq H.toHomePath, if_pos (escapeText_plain H.plain), h]

end

theorem maskText_masks {home : List Char} (H : HomePath home) (s : String) :
    ¬ home <:+: (maskText home s).toList := by
  rw [maskText, String.toList_ofList]
  exact Lib.not_infix_replaceAll H.ne_nil H.noTilde _

mutual

theorem strings_maskJson {home : List Char} (H : HomePath home) :
    ∀ v : Json, ∀ s ∈ strings (maskJson home v), ¬ home <:+: s.toList
  | .null => fun _ h => absurd h List.not_mem_nil
  | .bool _ => fun _ h => absurd h List.not_mem_nil
  | .num _ => fun _ h => absurd h List.not_mem_nil
  | .str s => List.forall_mem_singleton.mpr (maskText_masks H s)
  | .arr items => strings_maskItems H items
  | .obj fields => strings_maskFields H fields

theorem strings_maskItems {home : List Char} (H : HomePath home) :
    ∀ items : List Json, ∀ s ∈ stringsOfItems (maskItems home items), ¬ home <:+: s.toList
  | [] => fun _ h => absurd h List.not_mem_nil
  | v :: items => List.forall_mem_append.mpr ⟨strings_maskJson H v, strings_maskItems H items⟩

theorem strings_maskFields {home : List Char} (H : HomePath home) :
    ∀ fields : List (String × Json), ∀ s ∈ stringsOfFields (maskFields home fields),
      ¬ home <:+: s.toList
  | [] => fun _ h => absurd h List.not_mem_nil
  | (key, v) :: fields => List.forall_mem_cons.mpr ⟨maskText_masks H key,
      List.forall_mem_append.mpr ⟨strings_maskJson H v, strings_maskFields H fields⟩⟩

end

/-- `ToolEvent` as `ClaudeToolEventExtractor` makes it. -/
structure Event where
  id : Json
  phase : ToolPhase
  name : Json
  input : Option Json
  output : Option (List Char)
  ok : Option Bool
  parentId : Option Json

/-- Two keys of a `Map`; objects and arrays of different messages are never the same. -/
def sameKey : Json → Json → Bool
  | .str s, .str s' => s == s'
  | .num text, .num text' => text == text'
  | .bool b, .bool b' => b == b'
  | _, _ => false

/-- `Map.get`; the last entry comes first. -/
def getName (names : ToolNames) (id : Json) : Option Json :=
  (names.find? fun entry => sameKey id entry.1).map Prod.snd

def partText (part : Json) : List Char :=
  match part.get "text" with
  | some (.str s) => s.toList
  | _ => []

def textOf : Option Json → List Char
  | some (.str s) => s.toList
  | some (.arr parts) => ['\n'].intercalate ((parts.map partText).filter (· ≠ []))
  | none | some .null => []
  | some content => stringify content

section

variable (number : List Char → String) (home : List Char)

/-- One block of a message. -/
def extractBlock (fromAssistant : Bool) (parentId : Option Json) (names : ToolNames) (block : Json) :
    ToolNames × List Event :=
  if fromAssistant && Json.isStr (block.get "type") "tool_use" && Json.truthy (block.get "id") then
    let id := Json.orDefault (block.get "id") .null
    let name := Json.orDefault (block.get "name") (.str "tool")
    ((id, name) :: names,
      [⟨id, .call, name, clipInput number home (block.get "input"), none, none, parentId⟩])
  else if !fromAssistant && Json.isStr (block.get "type") "tool_result"
      && Json.truthy (block.get "tool_use_id") then
    let id := Json.orDefault (block.get "tool_use_id") .null
    let ok := match block.get "is_error" with
      | some (.bool true) => false
      | _ => true
    (names, [⟨id, .result, (getName names id).getD (.str "tool"), none,
      some (clip home (textOf (block.get "content"))), some ok, parentId⟩])
  else (names, [])

def extractContent (fromAssistant : Bool) (parentId : Option Json) (names : ToolNames) :
    List Json → ToolNames × List Event
  | [] => (names, [])
  | block :: blocks =>
    let (names', events) := extractBlock number home fromAssistant parentId names block
    let (last, more) := extractContent fromAssistant parentId names' blocks
    (last, events ++ more)

/-- `ClaudeToolEventExtractor.extract` -/
def extract (names : ToolNames) (message : Json) : ToolNames × List Event :=
  let fromAssistant := Json.isStr (message.get "type") "assistant"
  if !fromAssistant && !Json.isStr (message.get "type") "user" then (names, [])
  else match (message.get "message").bind (·.get "content") with
    | some (.arr content) =>
      let parentId := match message.get "parent_tool_use_id" with
        | some .null => none
        | parentId => parentId
      extractContent number home fromAssistant parentId names content
    | _ => (names, [])

/-- The events of the messages of a run, in their order. -/
def extractAll (names : ToolNames) : List Json → ToolNames × List Event
  | [] => (names, [])
  | message :: messages =>
    let (names', events) := extract number home names message
    let (last, more) := extractAll names' messages
    (last, events ++ more)

end

/-- The name of the last call with the id. -/
def lastName (events : List Event) (id : Json) : Option Json :=
  (events.reverse.find? fun e => e.phase == .call && sameKey id e.id).map (·.name)

/-- What is expected of an event after the events `before`: a result has the name of the last call with
its id, and its output is masked. -/
structure Faithful (home : List Char) (before : List Event) (e : Event) : Prop where
  name : e.phase = .result → e.name = (lastName before e.id).getD (.str "tool")
  output : ∀ output, e.output = some output → ¬ home <:+: output

/-- The extractor remembers the names of the last calls, and every event is as expected after those
before it. -/
structure Extracted (home : List Char) (names : ToolNames) (events : List Event) : Prop where
  remembers : ∀ id, getName names id = lastName events id
  faithful : ∀ pre e post, events = pre ++ e :: post → Faithful home pre e

theorem lastName_append_call (events : List Event) (e : Event) (he : e.phase = .call) (id : Json) :
    lastName (events ++ [e]) id = if sameKey id e.id then some e.name else lastName events id := by
  rw [lastName, List.reverse_append, List.reverse_singleton, List.singleton_append, List.find?_cons, he]
  cases sameKey id e.id <;> rfl

theorem lastName_append_result (events : List Event) (e : Event) (he : e.phase = .result) (id : Json) :
    lastName (events ++ [e]) id = lastName events id := by
  rw [lastName, List.reverse_append, List.reverse_singleton, List.singleton_append, List.find?_cons, he]
  rfl

theorem faithful_append {home : List Char} {events : List Event} {e : Event}
    (H : ∀ pre e post, events = pre ++ e :: post → Faithful home pre e) (he : Faithful home events e) :
    ∀ pre e' post, events ++ [e] = pre ++ e' :: post → Faithful home pre e' := by
  intro pre e' post h
  rcases List.eq_nil_or_concat post with rfl | ⟨post', last, rfl⟩
  · obtain ⟨rfl, hlast⟩ := List.append_inj' h rfl
    cases hlast
    exact he
  · rw [List.concat_eq_append, ← List.cons_append, ← List.append_assoc] at h
    exact H pre e' post' (List.append_inj' h rfl).1

section

variable (number : List Char → String) {home : List Char} (Hhome : HomePath home)
  {names : ToolNames} {events : List Event}

include Hhome

theorem Extracted.block (H : Extracted home names events) (fromAssistant : Bool)
    (parentId : Option Json) (block : Json) :
    Extracted home (extractBlock number home fromAssistant parentId names block).1
      (events ++ (extractBlock number home fromAssistant parentId names block).2) := by
  rw [extractBlock]
  split
  · refine ⟨fun id => ?_, faithful_append H.faithful ⟨fun h => (by cases h), fun _ h => (by cases h)⟩⟩
    rw [lastName_append_call _ _ rfl, ← H.remembers id, getName, List.find?_cons]
    dsimp only
    split
    · next hsame => rw [if_pos hsame]; rfl
    · next hsame => rw [if_neg (by rw [hsame]; decide)]; rfl
  split
  · refine ⟨fun id => ?_, faithful_append H.faithful ⟨fun _ => ?_, fun output h => ?_⟩⟩
    · rw [lastName_append_result _ _ rfl, ← H.remembers id]
    · rw [← H.remembers]
    · cases h
      exact (clip_noHome Hhome _).1
  · rw [List.append_nil]
    exact H

theorem Extracted.content (H : Extracted home names events) (fromAssistant : Bool)
    (parentId : Option Json) (blocks : List Json) :
    Extracted home (extractContent number home fromAssistant parentId names blocks).1
      (events ++ (extractContent number home fromAssistant parentId names blocks).2) := by
  induction blocks generalizing names events with
  | nil => exact (List.append_nil events).symm ▸ H
  | cons block blocks ih =>
    have hrest := ih (H.block number Hhome fromAssistant parentId block)
    rw [List.append_assoc] at hrest
    exact hrest

theorem Extracted.message (H : Extracted home names events) (message : Json) :
    Extracted home (extract number home names message).1
      (events ++ (extract number home names message).2) := by
  have hnone : Extracted home names (events ++ []) := (List.append_nil events).symm ▸ H
  rw [extract]
  dsimp only
  split
  · exact hnone
  split
  · exact H.content number Hhome _ _ _
  · exact hnone

theorem Extracted.messages (H : Extracted home names events) (messages : List Json) :
    Extracted home (extractAll number home names messages).1
      (events ++ (extractAll number home names messages).2) := by
  induction messages generalizing names events with
  | nil => exact (List.append_nil events).symm ▸ H
  | cons message messages ih =>
    have hrest := ih (H.message number Hhome message)
    rw [List.append_assoc] at hrest
    exact hrest

end

end CliProxy.Adapter.ToolEvents
