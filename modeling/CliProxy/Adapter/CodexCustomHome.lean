import CliProxy.Auth.GatewayBaseUrl
import CliProxy.Lib.Machine
import CliProxy.Lib.MarkedBlocks
import CliProxy.Lib.Toml

/-! # The configuration of a codex home

`renderCodexCustomConfigToml` of `src/adapter/codex-custom-home.ts`: what codex reads in the rendered
file, and what happens to a file that is rendered and edited again and again. -/

namespace CliProxy.Adapter.CodexCustomHome

open Lib (Marker eraseBlocks unlines hexText isLowerHex Machine)

/-! ## The source -/

def CODEX_CUSTOM_PROVIDER_ID : List Char := "custom_gateway".toList

def CODEX_CUSTOM_API_KEY_ENV : List Char := "CODEX_CUSTOM_API_KEY".toList

inductive CodexReasoningEffort where
  | none | minimal | low | medium | high | xhigh
  deriving DecidableEq

def CodexReasoningEffort.text : CodexReasoningEffort → List Char
  | .none => "none".toList
  | .minimal => "minimal".toList
  | .low => "low".toList
  | .medium => "medium".toList
  | .high => "high".toList
  | .xhigh => "xhigh".toList

def ROOT_BEGIN : Marker Char where
  first := '#'
  rest := " >>> cli-openai-proxy codex_custom provider (root) -- managed, do not edit >>>".toList
  first_notMem := by decide

def ROOT_END : Marker Char where
  first := '#'
  rest := " <<< cli-openai-proxy codex_custom provider (root) <<<".toList
  first_notMem := by decide

def TABLE_BEGIN : Marker Char where
  first := '#'
  rest := " >>> cli-openai-proxy codex_custom provider (table) -- managed, do not edit >>>".toList
  first_notMem := by decide

def TABLE_END : Marker Char where
  first := '#'
  rest := " <<< cli-openai-proxy codex_custom provider (table) <<<".toList
  first_notMem := by decide

def TOML_SHORT_ESCAPES : List (Char × List Char) :=
  [('\\', ['\\', '\\']), ('"', ['\\', '"']), ('\x08', ['\\', 'b']), ('\t', ['\\', 't']),
    ('\n', ['\\', 'n']), ('\x0c', ['\\', 'f']), ('\r', ['\\', 'r'])]

/-- `TOML_ESCAPE_RE` -/
def isEscaped (c : Char) : Bool := c = '\\' || c = '"' || c.toNat < 32 || c.toNat = 127

def escape (c : Char) : List Char :=
  if isEscaped c then (TOML_SHORT_ESCAPES.lookup c).getD ('\\' :: 'u' :: hexText 4 c.toNat) else [c]

def tomlString (value : List Char) : List Char := '"' :: (value.flatMap escape ++ ['"'])

/-- `key = "value"` -/
def assignment (key : String) (value : List Char) : List Char :=
  key.toList ++ ' ' :: '=' :: ' ' :: tomlString value

/-- `.replace(/^\n+/, "").replace(/\n+$/, "")` -/
def trimNewlines (text : List Char) : List Char :=
  Lib.trimEnds (· = '\n') text

def preserved (existing : List Char) : List Char :=
  trimNewlines (eraseBlocks TABLE_BEGIN TABLE_END '\n' (eraseBlocks ROOT_BEGIN ROOT_END '\n' existing))

def rootLines (reasoningEffort : CodexReasoningEffort) : List (List Char) :=
  [assignment "model_provider" CODEX_CUSTOM_PROVIDER_ID,
    assignment "model_reasoning_effort" reasoningEffort.text]

def tableHeader : List Char := "[model_providers.".toList ++ CODEX_CUSTOM_PROVIDER_ID ++ [']']

def tableLines (baseUrl : List Char) : List (List Char) :=
  [tableHeader,
    assignment "name" "Custom gateway (provisioned via /v1/auth)".toList,
    assignment "base_url" baseUrl,
    assignment "env_key" CODEX_CUSTOM_API_KEY_ENV,
    assignment "wire_api" "responses".toList]

def rootBlock (reasoningEffort : CodexReasoningEffort) : List (List Char) :=
  ROOT_BEGIN.word :: (rootLines reasoningEffort ++ [ROOT_END.word])

def tableBlock (baseUrl : List Char) : List (List Char) :=
  TABLE_BEGIN.word :: (tableLines baseUrl ++ [TABLE_END.word])

def root (reasoningEffort : CodexReasoningEffort) : List Char :=
  ['\n'].intercalate (rootBlock reasoningEffort)

def table (baseUrl : List Char) : List Char := ['\n'].intercalate (tableBlock baseUrl)

def renderCodexCustomConfigToml (existing baseUrl : List Char)
    (reasoningEffort : CodexReasoningEffort) : List Char :=
  ['\n', '\n'].intercalate (root reasoningEffort ::
    ((if preserved existing = [] then [] else [preserved existing]) ++ [table baseUrl])) ++ ['\n']

/-! ## What codex reads -/

theorem mem_of_lookup {c : Char} {text : List Char} (h : TOML_SHORT_ESCAPES.lookup c = some text) :
    (c, text) ∈ TOML_SHORT_ESCAPES := by
  obtain ⟨l, l', hl, -⟩ := List.lookup_eq_some_iff.mp h
  rw [hl]
  exact List.mem_append_right l List.mem_cons_self

theorem isEscaped_eq_true {c : Char} (h : isEscaped c = true) :
    (TOML_SHORT_ESCAPES.lookup c).isSome = true ∨ c.toNat < 128 := by
  simp only [isEscaped, Bool.or_eq_true, decide_eq_true_eq] at h
  rcases h with ((hc | hc) | hc) | hc
  · exact .inl (hc ▸ by decide)
  · exact .inl (hc ▸ by decide)
  · exact .inr (by omega)
  · exact .inr (by omega)

theorem isEscaped_eq_false {c : Char} (h : ¬ isEscaped c = true) :
    c ≠ '\\' ∧ c ≠ '"' ∧ Lib.Toml.isControl c = false := by
  simp only [isEscaped, Bool.or_eq_true, decide_eq_true_eq, not_or] at h
  obtain ⟨⟨⟨hbackslash, hquote⟩, hlow⟩, hdel⟩ := h
  refine ⟨hbackslash, hquote, ?_⟩
  rw [Lib.Toml.isControl, decide_eq_false hlow, decide_eq_false hdel]
  rfl

/-- An escaped character is read back. -/
theorem readChar_escape (c : Char) (rest : List Char) :
    (escape c ++ rest).head? ≠ some '"' ∧ Lib.Toml.readChar (escape c ++ rest) = some (c, rest) := by
  by_cases hescaped : isEscaped c = true
  · rw [escape, if_pos hescaped]
    cases hshort : TOML_SHORT_ESCAPES.lookup c with
    | some text =>
      have hletters : ∀ p ∈ TOML_SHORT_ESCAPES, ∃ q ∈ Lib.Toml.letterEscapes,
          p.2 = ['\\', q.1] ∧ q.2 = p.1 := by decide
      obtain ⟨q, hq, htext, hc⟩ := hletters (c, text) (mem_of_lookup hshort)
      rw [Option.getD_some, show text = ['\\', q.1] from htext, ← show q.2 = c from hc]
      exact ⟨fun h => absurd (Option.some.inj h) (by decide), Lib.Toml.readChar_letter hq rest⟩
    | none =>
      have hc : c.toNat < 128 := (isEscaped_eq_true hescaped).resolve_left (by rw [hshort]; simp)
      refine ⟨fun h => absurd (Option.some.inj h) (by decide), ?_⟩
      have hread := Lib.Toml.readChar_unicode hc rest
      rw [Char.ofNat_toNat] at hread
      exact hread
  · obtain ⟨hbackslash, hquote, hcontrol⟩ := isEscaped_eq_false hescaped
    rw [escape, if_neg hescaped]
    exact ⟨fun h => hquote (Option.some.inj h), Lib.Toml.readChar_plain hbackslash hcontrol rest⟩

/-- A basic string is read to the value it was written for. -/
theorem readBasic_tomlString (value rest : List Char) :
    Lib.Toml.readBasic (value.flatMap escape ++ '"' :: rest) = some (value, rest) := by
  induction value with
  | nil => exact Lib.Toml.readBasic_quote rest
  | cons c value ih =>
    have hc := readChar_escape c (value.flatMap escape ++ '"' :: rest)
    rw [List.flatMap_cons, List.append_assoc, Lib.Toml.readBasic_char hc.1 hc.2, ih]
    rfl

theorem readLine_assignment {key : String} (hne : key.toList ≠ [])
    (hkey : key.toList.all Lib.Toml.isKeyChar = true) (value table : List Char) :
    Lib.Toml.readLine table (assignment key value) =
      some (table, [⟨table, key.toList, .string value⟩]) :=
  Lib.Toml.readLine_string hne hkey (readBasic_tomlString value []) table

/-! ## Lines -/

/-- The characters of escape sequences, and the quotes. -/
def isSequenceChar (c : Char) : Bool := isLowerHex c || ['\\', '"', 't', 'n', 'r', 'u'].contains c

theorem mem_escape {c d : Char} (h : d ∈ escape c) :
    d = c ∧ isEscaped c = false ∨ isSequenceChar d = true := by
  rw [escape] at h
  split at h
  · refine .inr ?_
    cases hshort : TOML_SHORT_ESCAPES.lookup c with
    | some text =>
      have hall : ∀ p ∈ TOML_SHORT_ESCAPES, p.2.all isSequenceChar = true := by decide
      rw [hshort] at h
      exact List.all_eq_true.mp (hall _ (mem_of_lookup hshort)) d h
    | none =>
      rw [hshort] at h
      rcases List.mem_cons.mp h with rfl | h
      · decide
      rcases List.mem_cons.mp h with rfl | h
      · decide
      · exact Bool.or_eq_true_iff.mpr (.inl (Lib.isLowerHex_hexText _ _ d h))
  · next hplain => exact .inl ⟨List.mem_singleton.mp h, Bool.not_eq_true _ ▸ hplain⟩

theorem mem_tomlString {value : List Char} {d : Char} (h : d ∈ tomlString value) :
    d ∈ value ∧ isEscaped d = false ∨ isSequenceChar d = true := by
  rcases List.mem_cons.mp h with rfl | h
  · exact .inr (by decide)
  rcases List.mem_append.mp h with h | h
  · obtain ⟨c, hc, hd⟩ := List.mem_flatMap.mp h
    rcases mem_escape hd with ⟨rfl, hplain⟩ | hsequence
    · exact .inl ⟨hc, hplain⟩
    · exact .inr hsequence
  · rw [List.mem_singleton.mp h]
    exact .inr (by decide)

theorem newline_notMem_tomlString (value : List Char) : '\n' ∉ tomlString value := fun hmem =>
  (mem_tomlString hmem).elim (fun h => absurd h.2 (by decide)) (fun h => absurd h (by decide))

/-- A hash or a space comes from the value. -/
theorem notMem_tomlString {value : List Char} {d : Char} (hd : isSequenceChar d = false)
    (hvalue : d ∉ value) : d ∉ tomlString value := fun hmem =>
  (mem_tomlString hmem).elim (fun h => hvalue h.1) (fun h => absurd (hd.symm.trans h) (by decide))

theorem newline_notMem_assignment {key : String} (hkey : '\n' ∉ key.toList) (value : List Char) :
    '\n' ∉ assignment key value := by
  intro hmem
  rcases List.mem_append.mp hmem with h | h
  · exact hkey h
  · rcases List.mem_append.mp (show '\n' ∈ [' ', '=', ' '] ++ tomlString value from h) with h | h
    · exact absurd h (by decide)
    · exact newline_notMem_tomlString value h

theorem newline_notMem_rootBlock (reasoningEffort : CodexReasoningEffort) :
    ∀ line ∈ rootBlock reasoningEffort, '\n' ∉ line := by
  intro line hline
  rcases List.mem_cons.mp hline with rfl | hline
  · decide
  rcases List.mem_append.mp hline with hline | hline
  · rcases List.mem_pair.mp hline with rfl | rfl
    · exact newline_notMem_assignment (by decide) _
    · exact newline_notMem_assignment (by decide) _
  · rw [List.mem_singleton.mp hline]
    decide

theorem newline_notMem_tableBlock (baseUrl : List Char) :
    ∀ line ∈ tableBlock baseUrl, '\n' ∉ line := by
  intro line hline
  rcases List.mem_cons.mp hline with rfl | hline
  · decide
  rcases List.mem_append.mp hline with hline | hline
  · rcases List.mem_cons.mp hline with rfl | hline
    · decide
    rcases List.mem_cons.mp hline with rfl | hline
    · exact newline_notMem_assignment (by decide) _
    rcases List.mem_cons.mp hline with rfl | hline
    · exact newline_notMem_assignment (by decide) _
    rcases List.mem_pair.mp hline with rfl | rfl
    · exact newline_notMem_assignment (by decide) _
    · exact newline_notMem_assignment (by decide) _
  · rw [List.mem_singleton.mp hline]
    decide

/-- The rendered file: the root block, the preserved text and the table block. -/
theorem render_eq (existing baseUrl : List Char) (reasoningEffort : CodexReasoningEffort) :
    renderCodexCustomConfigToml existing baseUrl reasoningEffort =
      unlines '\n' (rootBlock reasoningEffort ++ [[]]) ++
        ((if preserved existing = [] then [] else preserved existing ++ ['\n', '\n']) ++
          unlines '\n' (tableBlock baseUrl)) := by
  have hblock := Lib.intercalate_newline '\n'
    (show rootBlock reasoningEffort ≠ [] from List.cons_ne_nil _ _)
  have hroot : unlines '\n' (rootBlock reasoningEffort ++ [[]]) =
      root reasoningEffort ++ ['\n', '\n'] := by
    rw [Lib.unlines_append, ← hblock, List.append_assoc]
    rfl
  have htable : unlines '\n' (tableBlock baseUrl) = table baseUrl ++ ['\n'] :=
    (Lib.intercalate_newline '\n' (List.cons_ne_nil _ _)).symm
  rw [renderCodexCustomConfigToml, hroot, htable]
  split
  · simp [List.intercalate_cons_cons]
  · simp [List.intercalate_cons_cons]

/-! ## What codex reads in the file -/

def rootEntries (reasoningEffort : CodexReasoningEffort) : List Lib.Toml.Entry :=
  [⟨[], "model_provider".toList, .string CODEX_CUSTOM_PROVIDER_ID⟩,
    ⟨[], "model_reasoning_effort".toList, .string reasoningEffort.text⟩]

def tableEntries (baseUrl : List Char) : List Lib.Toml.Entry :=
  [⟨tableHeader, "name".toList, .string "Custom gateway (provisioned via /v1/auth)".toList⟩,
    ⟨tableHeader, "base_url".toList, .string baseUrl⟩,
    ⟨tableHeader, "env_key".toList, .string CODEX_CUSTOM_API_KEY_ENV⟩,
    ⟨tableHeader, "wire_api".toList, .string "responses".toList⟩]

open Lib.Toml (readLines readLine readLine_rest readLines_cons readLines_append isRest)

theorem readLines_rootBlock (reasoningEffort : CodexReasoningEffort) :
    readLines [] (rootBlock reasoningEffort ++ [[]]) = some ([], rootEntries reasoningEffort) := by
  have hprovider := readLine_assignment (show "model_provider".toList ≠ [] by decide) (by decide)
    CODEX_CUSTOM_PROVIDER_ID []
  have heffort := readLine_assignment (show "model_reasoning_effort".toList ≠ [] by decide) (by decide)
    reasoningEffort.text []
  have hbegin := readLine_rest [] (show isRest ROOT_BEGIN.word = true by rfl)
  have hend := readLine_rest [] (show isRest ROOT_END.word = true by rfl)
  show readLines [] [_, _, _, _, []] = _
  rw [readLines_cons hbegin, readLines_cons hprovider, readLines_cons heffort, readLines_cons hend,
    readLines_cons (readLine_rest [] rfl)]
  rfl

theorem readLines_tableBlock (baseUrl table : List Char) :
    readLines table (tableBlock baseUrl ++ [[]]) = some (tableHeader, tableEntries baseUrl) := by
  have hbegin := readLine_rest table (show isRest TABLE_BEGIN.word = true by rfl)
  have hheader : readLine table tableHeader = some (tableHeader, []) := rfl
  have hname := readLine_assignment (show "name".toList ≠ [] by decide) (by decide)
    "Custom gateway (provisioned via /v1/auth)".toList tableHeader
  have hbase := readLine_assignment (show "base_url".toList ≠ [] by decide) (by decide)
    baseUrl tableHeader
  have hkey := readLine_assignment (show "env_key".toList ≠ [] by decide) (by decide)
    CODEX_CUSTOM_API_KEY_ENV tableHeader
  have hwire := readLine_assignment (show "wire_api".toList ≠ [] by decide) (by decide)
    "responses".toList tableHeader
  have hend := readLine_rest tableHeader (show isRest TABLE_END.word = true by rfl)
  show readLines table [_, _, _, _, _, _, _, []] = _
  rw [readLines_cons hbegin, readLines_cons hheader, readLines_cons hname, readLines_cons hbase,
    readLines_cons hkey, readLines_cons hwire, readLines_cons hend,
    readLines_cons (readLine_rest tableHeader rfl)]
  rfl

def markers : List (Marker Char) := [ROOT_BEGIN, ROOT_END, TABLE_BEGIN, TABLE_END]

/-- A line of a document that is no marker and holds none. -/
def IsFree (line : List Char) : Prop := '\n' ∉ line ∧ ∀ m ∈ markers, ¬ m.word <:+: line

inductive Document where
  | plain (lines : List (List Char))
  | managed (before rootLines between tableLines after : List (List Char))

namespace Document

def lines : Document → List (List Char)
  | plain lines => lines
  | managed before rootLines between tableLines after =>
    before ++ ROOT_BEGIN.word :: (rootLines ++ ROOT_END.word ::
      (between ++ TABLE_BEGIN.word :: (tableLines ++ TABLE_END.word :: after)))

def file (d : Document) : List Char := unlines '\n' d.lines

/-- The lines outside the markers. -/
def outside : Document → List (List Char)
  | plain lines => lines
  | managed before _ between _ after => before ++ (between ++ after)

/-- All the lines but the markers. -/
def body : Document → List (List Char)
  | plain lines => lines
  | managed before rootLines between tableLines after =>
    before ++ (rootLines ++ (between ++ (tableLines ++ after)))

def IsFree (d : Document) : Prop := ∀ line ∈ d.body, CodexCustomHome.IsFree line

/-- The user's lines, without the empty lines around them. -/
def user (d : Document) : List (List Char) :=
  Lib.trimEnds (· = []) d.outside

/-- What a run makes of the user's lines. -/
def rendered (user : List (List Char)) (baseUrl : List Char)
    (reasoningEffort : CodexReasoningEffort) : Document :=
  managed [] (CodexCustomHome.rootLines reasoningEffort)
    ([] :: (if user = [] then [] else user ++ [[]])) (CodexCustomHome.tableLines baseUrl) []

end Document

/-- `trimNewlines` drops the empty lines at both ends. -/
theorem trimNewlines_unlines {lines : List (List Char)} (h : ∀ line ∈ lines, '\n' ∉ line) :
    trimNewlines (unlines '\n' lines) = ['\n'].intercalate (Lib.trimEnds (· = []) lines) := by
  rw [trimNewlines, Lib.trimEnds, Lib.trimEnds, Lib.dropWhile_unlines h, Lib.rdropWhile_unlines]
  exact fun line hline => h line ((List.dropWhile_sublist _).subset hline)

theorem newline_notMem_word : ∀ m ∈ markers, '\n' ∉ m.word := by decide

theorem notInfix_unlines {m : Marker Char} (hm : m ∈ markers) {lines : List (List Char)}
    (h : ∀ line ∈ lines, ¬ m.word <:+: line) : ¬ m.word <:+: unlines '\n' lines := by
  intro hfound
  obtain ⟨line, hline, hword⟩ :=
    Lib.exists_mem_of_infix_unlines m.word_ne_nil (newline_notMem_word m hm) hfound
  exact h line hline hword

theorem erase_free {opening closing : Marker Char} (hm : opening ∈ markers)
    {lines : List (List Char)} (h : ∀ line ∈ lines, ¬ opening.word <:+: line) :
    eraseBlocks opening closing '\n' (unlines '\n' lines) = unlines '\n' lines :=
  Lib.eraseBlocks_of_notInfix '\n' (notInfix_unlines hm h)

theorem isFree_of_hash {line : List Char} (hnewline : '\n' ∉ line)
    (hhash : ¬ ['#', ' '] <:+: line) : IsFree line := by
  refine ⟨hnewline, fun m hm hfound => hhash ?_⟩
  have hstart : ∀ m ∈ markers, ['#', ' '] <+: m.word := by decide
  exact (hstart m hm).isInfix.trans hfound

theorem isFree_of_notMem {line : List Char} (hnewline : '\n' ∉ line) (hhash : '#' ∉ line) :
    IsFree line :=
  isFree_of_hash hnewline fun hfound => hhash (hfound.subset (.head _))

theorem isFree_assignment {key : String} {value : List Char} (hnewline : '\n' ∉ key.toList)
    (hkey : '#' ∉ key.toList) (hvalue : '#' ∉ value) : IsFree (assignment key value) := by
  refine isFree_of_notMem (newline_notMem_assignment hnewline value) fun hmem => ?_
  rcases List.mem_append.mp hmem with h | h
  · exact hkey h
  · rcases List.mem_append.mp (show '#' ∈ [' ', '=', ' '] ++ tomlString value from h) with h | h
    · exact absurd h (by decide)
    · exact notMem_tomlString (by decide) hvalue h

theorem not_infix_of_isFree {lines : List (List Char)} (h : ∀ line ∈ lines, IsFree line)
    {m : Marker Char} (hm : m ∈ markers) : ∀ line ∈ lines, ¬ m.word <:+: line :=
  fun line hline => (h line hline).2 m hm

/-- The preserved text is the one of the user's lines. -/
theorem preserved_file {d : Document} (hd : d.IsFree) :
    preserved d.file = ['\n'].intercalate d.user := by
  have hRB : ROOT_BEGIN ∈ markers := .head _
  have hRE : ROOT_END ∈ markers := .tail _ (.head _)
  have hTB : TABLE_BEGIN ∈ markers := .tail _ (.tail _ (.head _))
  have hTE : TABLE_END ∈ markers := .tail _ (.tail _ (.tail _ (.head _)))
  cases d with
  | plain lines =>
    have hfree : ∀ line ∈ lines, IsFree line := hd
    rw [preserved, Document.file, Document.lines, erase_free hRB (not_infix_of_isFree hfree hRB),
      erase_free hTB (not_infix_of_isFree hfree hTB),
      trimNewlines_unlines fun line hline => (hfree line hline).1]
    rfl
  | managed before rootLines between tableLines after =>
    simp only [Document.IsFree, Document.body, List.forall_mem_append] at hd
    obtain ⟨hbefore, hroot, hbetween, htable, hafter⟩ := hd
    have hrest : ∀ line ∈ between ++ TABLE_BEGIN.word :: (tableLines ++ TABLE_END.word :: after),
        ¬ ROOT_BEGIN.word <:+: line := by
      simp only [List.forall_mem_append, List.forall_mem_cons]
      exact ⟨not_infix_of_isFree hbetween hRB, by decide +kernel, not_infix_of_isFree htable hRB,
        by decide +kernel, not_infix_of_isFree hafter hRB⟩
    have houtside : ∀ line ∈ before ++ between, ¬ TABLE_BEGIN.word <:+: line :=
      List.forall_mem_append.mpr
        ⟨not_infix_of_isFree hbefore hTB, not_infix_of_isFree hbetween hTB⟩
    have hnewline : ∀ line ∈ before ++ (between ++ after), '\n' ∉ line := by
      simp only [List.forall_mem_append]
      exact ⟨fun line h => (hbefore line h).1, fun line h => (hbetween line h).1,
        fun line h => (hafter line h).1⟩
    rw [preserved, Document.file, Document.lines,
      Lib.eraseBlocks_unlines (newline_notMem_word _ hRB) (newline_notMem_word _ hRE)
        (not_infix_of_isFree hbefore hRB) (not_infix_of_isFree hroot hRE),
      erase_free hRB hrest, ← Lib.unlines_append, ← List.append_assoc before between,
      Lib.eraseBlocks_unlines (newline_notMem_word _ hTB) (newline_notMem_word _ hTE) houtside
        (not_infix_of_isFree htable hTE),
      erase_free hTB (not_infix_of_isFree hafter hTB), ← Lib.unlines_append, List.append_assoc,
      trimNewlines_unlines hnewline]
    rfl

/-- A base URL in its normal form has no space. -/
structure GatewayUrl where
  text : List Char
  noSpace : ' ' ∉ text

section

open Auth.CodexCustomApiKey

theorem space_notMem_href {P : Lib.Platform} {u : Lib.HttpUrl} (N : u.Normal P) (A : Admitted u) :
    ' ' ∉ u.href := by
  have hscheme : ' ' ∉ u.scheme := by
    rcases N.scheme with h | h <;> rw [h] <;> decide
  have hhost : ' ' ∉ u.host := fun hmem =>
    absurd (P.host_chars N.host ' ' hmem) (by decide)
  have hport : ' ' ∉ u.portText := by
    rw [Lib.HttpUrl.portText]
    cases u.port with
    | none => exact List.not_mem_nil
    | some n =>
      exact fun hmem => absurd (Nat.isDigit_of_mem_toDigits (by omega) (by omega) hmem) (by decide)
  have hpath : ' ' ∉ u.pathname := by
    intro hmem
    obtain ⟨segment, hsegment, hc⟩ := List.mem_flatMap.mp hmem
    rcases List.mem_cons.mp hc with h | h
    · exact absurd h (by decide)
    · exact absurd ((N.path segment hsegment).clear ' ' h) (by decide)
  have hquery : ' ' ∉ (u.query.map ('?' :: ·)).getD [] := by
    have hq := A.query
    cases h : u.query with
    | none => exact List.not_mem_nil
    | some q =>
      rw [h] at hq
      rw [show q = [] from hq]
      decide
  have hfragment : ' ' ∉ (u.fragment.map ('#' :: ·)).getD [] := by
    have hf := A.fragment
    cases h : u.fragment with
    | none => exact List.not_mem_nil
    | some f =>
      rw [h] at hf
      rw [show f = [] from hf]
      decide
  have hauthority : ' ' ∉ u.authority := by
    have hcredentials : u.credentials = [] := by
      rw [Lib.HttpUrl.credentials, A.username, A.password]
      rfl
    rw [Lib.HttpUrl.authority, hcredentials, List.nil_append, List.mem_append, not_or]
    refine ⟨hhost, ?_⟩
    split
    · exact fun hmem => (List.mem_cons.mp hmem).elim (fun h => absurd h (by decide)) hport
    · exact List.not_mem_nil
  simp only [Lib.HttpUrl.href, List.mem_append, not_or]
  exact ⟨⟨⟨⟨⟨hscheme, by decide⟩, hauthority⟩, hpath⟩, hquery⟩, hfragment⟩

/-- What `normalizeGatewayBaseUrl` returns. -/
def GatewayUrl.ofNormalized {P : Lib.Platform} {timeoutMs : Nat} {raw : List Char} {b : String}
    (h : normalizeGatewayBaseUrl (urlConfig P timeoutMs) raw = .ok b) : GatewayUrl where
  text := b.toList
  noSpace := by
    obtain ⟨u, hparse, A, rfl⟩ := normalize_eq_ok h
    rw [String.toList_ofList]
    exact fun hmem => space_notMem_href (Lib.Url.normal_of_parse hparse) A
      ((List.rdropWhile_prefix _ _).subset hmem)

end

/-- The text after a hash has no space. -/
theorem isFree_baseUrl (baseUrl : GatewayUrl) : IsFree (assignment "base_url" baseUrl.text) := by
  refine isFree_of_hash (newline_notMem_assignment (by decide) _) fun hfound => ?_
  obtain ⟨s, t, hst⟩ := hfound
  have hspace := notMem_tomlString (by decide) baseUrl.noSpace
  rw [List.append_assoc, show assignment "base_url" baseUrl.text =
    "base_url = ".toList ++ tomlString baseUrl.text from rfl] at hst
  rcases List.append_eq_append_iff.mp hst with ⟨a, hkey, hrest⟩ | ⟨a, -, hrest⟩
  · cases a with
    | nil =>
      rw [List.nil_append] at hrest
      exact hspace (hrest ▸ .tail _ (.head _))
    | cons c a =>
      have hc : '#' = c := (List.cons.inj hrest).1
      have hmem : '#' ∈ "base_url = ".toList :=
        hkey ▸ hc ▸ List.mem_append_right s List.mem_cons_self
      exact absurd hmem (by decide)
  · exact hspace (hrest ▸ List.mem_append_right a (.tail _ (.head _)))

theorem rendered_file (user : List (List Char)) (baseUrl : List Char)
    (reasoningEffort : CodexReasoningEffort) :
    (Document.rendered user baseUrl reasoningEffort).file =
      unlines '\n' (rootBlock reasoningEffort ++ [[]]) ++
        (unlines '\n' (if user = [] then [] else user ++ [[]]) ++
          unlines '\n' (tableBlock baseUrl)) := by
  rw [← Lib.unlines_append, ← Lib.unlines_append]
  congr 1

/-- A run leaves the user's lines and puts the managed blocks around them. -/
theorem render_file {d : Document} (hd : d.IsFree) (baseUrl : List Char)
    (reasoningEffort : CodexReasoningEffort) :
    renderCodexCustomConfigToml d.file baseUrl reasoningEffort =
      (Document.rendered d.user baseUrl reasoningEffort).file := by
  rw [render_eq, preserved_file hd, rendered_file]
  congr 2
  by_cases huser : d.user = []
  · rw [huser]
    rfl
  · have hjoin := Lib.intercalate_newline '\n' huser
    have hpreserved : ['\n'].intercalate d.user ≠ [] := by
      intro hnil
      rw [hnil] at hjoin
      have hhead : d.user.dropWhile (· = []) = d.user := Lib.dropWhile_trimEnds d.outside
      cases hlines : d.user with
      | nil => exact huser hlines
      | cons line lines =>
        rw [hlines, Lib.unlines_cons] at hjoin
        cases line with
        | nil =>
          rw [hlines, List.dropWhile_cons_of_pos (by simp)] at hhead
          have := congrArg List.length hhead
          have := (lines.dropWhile_sublist (· = [])).length_le
          simp only [List.length_cons] at *
          omega
        | cons c line =>
          have := congrArg List.length hjoin
          simp at this
    rw [if_neg hpreserved, if_neg huser, Lib.unlines_append, ← hjoin, List.append_assoc]
    rfl

theorem user_rendered (d : Document) (baseUrl : List Char) (reasoningEffort : CodexReasoningEffort) :
    (Document.rendered d.user baseUrl reasoningEffort).user = d.user := by
  have htrim : Lib.trimEnds (· = []) d.user = d.user := Lib.trimEnds_trimEnds d.outside
  by_cases huser : d.user = []
  · rw [huser]
    rfl
  · rw [Document.rendered, if_neg huser]
    show Lib.trimEnds (· = []) ([] ++ ([] :: (d.user ++ [[]]) ++ [])) = d.user
    rw [List.nil_append, List.append_nil, Lib.trimEnds_around (by simp) (by simp), htrim]

theorem isFree_rendered {d : Document} (hd : d.IsFree) (baseUrl : GatewayUrl)
    (reasoningEffort : CodexReasoningEffort) :
    (Document.rendered d.user baseUrl.text reasoningEffort).IsFree := by
  have hempty : IsFree [] := isFree_of_hash List.not_mem_nil (by decide)
  have houtside : ∀ line ∈ d.outside, IsFree line := by
    cases d with
    | plain lines => exact hd
    | managed before rootLines between tableLines after =>
      simp only [Document.IsFree, Document.body, List.forall_mem_append] at hd
      obtain ⟨hbefore, -, hbetween, -, hafter⟩ := hd
      exact List.forall_mem_append.mpr ⟨hbefore, List.forall_mem_append.mpr ⟨hbetween, hafter⟩⟩
  have huser : ∀ line ∈ d.user, IsFree line := fun line hline =>
    houtside line ((List.dropWhile_sublist _).subset ((List.rdropWhile_prefix _ _).subset hline))
  have hroot : ∀ line ∈ rootLines reasoningEffort, IsFree line := by
    refine List.forall_mem_cons.mpr ⟨isFree_assignment (by decide) (by decide) (by decide), ?_⟩
    refine List.forall_mem_singleton.mpr (isFree_assignment (by decide) (by decide) ?_)
    cases reasoningEffort <;> decide
  have htable : ∀ line ∈ tableLines baseUrl.text, IsFree line := by
    simp only [tableLines, List.forall_mem_cons]
    exact ⟨isFree_of_notMem (by decide) (by decide),
      isFree_assignment (by decide) (by decide) (by decide), isFree_baseUrl baseUrl,
      isFree_assignment (by decide) (by decide) (by decide),
      isFree_assignment (by decide) (by decide) (by decide), List.forall_mem_nil _⟩
  have hbetween : ∀ line ∈ (if d.user = [] then [] else d.user ++ [[]]), IsFree line := by
    split
    · exact fun line hline => absurd hline List.not_mem_nil
    · exact List.forall_mem_append.mpr ⟨huser, List.forall_mem_singleton.mpr hempty⟩
  simp only [Document.rendered, Document.IsFree, Document.body, List.forall_mem_append,
    List.forall_mem_cons]
  exact ⟨List.forall_mem_nil _, hroot, ⟨hempty, hbetween⟩, htable, List.forall_mem_nil _⟩

inductive Event where
  | run (baseUrl : GatewayUrl) (reasoningEffort : CodexReasoningEffort)
  /-- Codex, the adapter or the user makes another document of the file. -/
  | edit (d : Document)

/-- What happens to the file. -/
def fileMachine (file : List Char) : Machine (List Char) Event where
  init := file
  step
    | file, .run baseUrl reasoningEffort =>
      renderCodexCustomConfigToml file baseUrl.text reasoningEffort
    | _, .edit d => d.file

/-- The user's lines do not change, and only markers that the runs have put there are in the file. -/
def Keeps (d : Document) : Event → Prop
  | .run _ _ => True
  | .edit d' => d'.IsFree ∧ d'.user = d.user

/-- An event makes another document of a document. -/
theorem step_document {d d' : Document} (hfree : d'.IsFree) (huser : d'.user = d.user) {e : Event}
    (he : Keeps d e) (file : List Char) :
    ∃ d'' : Document, d''.IsFree ∧ d''.user = d.user ∧ (fileMachine file).step d'.file e = d''.file := by
  cases e with
  | run baseUrl reasoningEffort =>
    exact ⟨_, isFree_rendered hfree baseUrl reasoningEffort,
      (user_rendered d' baseUrl.text reasoningEffort).trans huser, render_file hfree ..⟩
  | edit d'' => exact ⟨d'', he.1, he.2, rfl⟩

theorem run_document {d d' : Document} (hfree : d'.IsFree) (huser : d'.user = d.user)
    {events : List Event} (hevents : ∀ e ∈ events, Keeps d e) (file : List Char) :
    ∃ d'' : Document, d''.IsFree ∧ d''.user = d.user ∧
      (fileMachine file).runFrom d'.file events = d''.file := by
  induction events generalizing d' with
  | nil => exact ⟨d', hfree, huser, rfl⟩
  | cons e events ih =>
    rw [List.forall_mem_cons] at hevents
    obtain ⟨d'', hfree', huser', hstep⟩ := step_document hfree huser hevents.1 file
    rw [Machine.runFrom_cons, hstep]
    exact ih hfree' huser' hevents.2

/-- However often the file is rendered and edited inside the markers, the next run makes the same file
of the user's lines, and codex reads them between the keys of the last gateway. -/
theorem codexConfig_runs {d : Document} (hd : d.IsFree) (events : List Event)
    (hevents : ∀ e ∈ events, Keeps d e) (baseUrl : GatewayUrl)
    (reasoningEffort : CodexReasoningEffort) :
    (fileMachine d.file).run (events ++ [.run baseUrl reasoningEffort]) =
      (Document.rendered d.user baseUrl.text reasoningEffort).file := by
  obtain ⟨d', hfree, huser, hrun⟩ := run_document hd rfl hevents d.file
  have hsplit := (fileMachine d.file).runFrom_append d.file events [.run baseUrl reasoningEffort]
  calc (fileMachine d.file).run (events ++ [Event.run baseUrl reasoningEffort])
      = (fileMachine d.file).runFrom ((fileMachine d.file).runFrom d.file events)
          [Event.run baseUrl reasoningEffort] := hsplit
    _ = renderCodexCustomConfigToml d'.file baseUrl.text reasoningEffort := by rw [hrun]; rfl
    _ = (Document.rendered d.user baseUrl.text reasoningEffort).file := by
      rw [render_file hfree, huser]

theorem codexConfig_runs_edited :
    let model := assignment "model" "gpt-5".toList
    let d := Document.plain [model]
    let edited := Document.managed [] [] [[], model, []] ["[projects.tmp]".toList] []
    (fileMachine d.file).run [.run ⟨"https://a/v1".toList, by decide⟩ .low, .edit edited,
        .run ⟨"https://b/v1".toList, by decide⟩ .medium] =
      (Document.rendered [model] "https://b/v1".toList .medium).file := by
  have hmodel : IsFree (assignment "model" "gpt-5".toList) :=
    isFree_assignment (by decide) (by decide) (by decide)
  have hempty : IsFree [] := isFree_of_hash List.not_mem_nil (by decide)
  have hproject : IsFree "[projects.tmp]".toList := isFree_of_notMem (by decide) (by decide)
  refine codexConfig_runs (d := .plain [assignment "model" "gpt-5".toList])
    (List.forall_mem_singleton.mpr hmodel) [.run _ _, .edit _] ?_ _ _
  refine List.forall_mem_cons.mpr ⟨trivial, List.forall_mem_singleton.mpr ⟨?_, by decide⟩⟩
  simp only [Document.IsFree, Document.body, List.nil_append, List.append_nil, List.cons_append,
    List.forall_mem_cons]
  exact ⟨hempty, hmodel, hempty, hproject, List.forall_mem_nil _⟩

end CliProxy.Adapter.CodexCustomHome
