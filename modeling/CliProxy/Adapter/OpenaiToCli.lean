import CliProxy.Adapter.PaperclipRunner
import CliProxy.Lib.Text

/-! # The schema in the system prompt

`src/adapter/openai-to-cli.ts`. `sanitizeSchema` treats schemas, dictionaries of schemas and literal
data alike; `restrictSchema` is what it is for, the schema without the keywords that constrain
nothing. -/

namespace CliProxy.Adapter

/-! ## `sanitizeSchema` -/

def SCHEMA_STRUCTURAL_KEYS : List String :=
  ["type", "required", "items", "enum", "const", "additionalProperties", "minItems", "maxItems",
    "uniqueItems", "minLength", "maxLength", "minimum", "maximum", "exclusiveMinimum",
    "exclusiveMaximum", "multipleOf", "format", "pattern", "oneOf", "anyOf", "allOf", "not",
    "nullable", "minProperties", "maxProperties"]

def SCHEMA_DICT_KEYS : List String := ["properties", "patternProperties"]

/-- A value that is truthy, of type object and no array. -/
def Json.isObject : Json → Bool
  | .obj _ => true
  | _ => false

/-- The value of the key is a dictionary of schemas. -/
def isDictionary (key : String) (v : Json) : Bool := SCHEMA_DICT_KEYS.contains key && v.isObject

mutual

def sanitizeSchema : Json → Json
  | .arr items => .arr (sanitizeItems items)
  | .obj fields => .obj (sanitizeFields fields)
  | value => value

def sanitizeItems : List Json → List Json
  | [] => []
  | v :: items => sanitizeSchema v :: sanitizeItems items

def sanitizeFields : List (String × Json) → List (String × Json)
  | [] => []
  | (key, v) :: fields =>
    if isDictionary key v then (key, sanitizeDict v) :: sanitizeFields fields
    else if SCHEMA_STRUCTURAL_KEYS.contains key then
      (key, sanitizeSchema v) :: sanitizeFields fields
    else sanitizeFields fields

def sanitizeDict : Json → Json
  | .obj dict => .obj (sanitizeNames dict)
  | value => value

/-- Assigning to `dict["__proto__"]` sets the prototype and makes no property. -/
def sanitizeNames : List (String × Json) → List (String × Json)
  | [] => []
  | (propName, propSchema) :: dict =>
    if propName = "__proto__" then sanitizeNames dict
    else (propName, sanitizeSchema propSchema) :: sanitizeNames dict

end

/-! ## The system prompt -/

def isNameChar (c : Char) : Bool := c.isAlphanum || c = '_' || c = '-'

/-- `SAFE_NAME_RE` -/
def isSafeName (name : String) : Bool :=
  1 ≤ name.toList.length && name.toList.length ≤ 64 && name.toList.all isNameChar

/-- The name that a wrapper keeps. -/
def safeName (wrapper : Json) : Option String :=
  match wrapper.get "name" with
  | some (.str name) => if isSafeName name then some name else none
  | _ => none

def strictFlag (wrapper : Json) : Option Bool :=
  match wrapper.get "strict" with
  | some (.bool strict) => some strict
  | _ => none

def sanitizeSchemaWrapper (wrapper : Json) : Json :=
  match wrapper with
  | .obj _ | .arr _ => .obj
      (((safeName wrapper).map fun name => ("name", .str name)).toList ++
        ((strictFlag wrapper).map fun strict => ("strict", .bool strict)).toList ++
        ((wrapper.get "schema").map fun schema => ("schema", sanitizeSchema schema)).toList)
  | _ => .obj []

def hexDigit (n : Nat) : Char := Char.ofNat (if n < 10 then n + 48 else n + 87)

/-- A character within a JSON string. -/
def escapeJson (c : Char) : List Char :=
  if c = '"' || c = '\\' then ['\\', c]
  else if c.toNat = 8 then ['\\', 'b']
  else if c.toNat = 9 then ['\\', 't']
  else if c.toNat = 10 then ['\\', 'n']
  else if c.toNat = 12 then ['\\', 'f']
  else if c.toNat = 13 then ['\\', 'r']
  else if c.toNat < 32 then
    ['\\', 'u', '0', '0', hexDigit (c.toNat / 16), hexDigit (c.toNat % 16)]
  else [c]

def quoteJson (s : String) : List Char := '"' :: (s.toList.flatMap escapeJson ++ ['"'])

mutual

/-- `JSON.stringify` -/
def stringify : Json → List Char
  | .null => "null".toList
  | .bool b => (if b then "true" else "false").toList
  | .num text => text.toList
  | .str s => quoteJson s
  | .arr items => '[' :: (stringifyItems items ++ [']'])
  | .obj fields => '{' :: (stringifyFields fields ++ ['}'])

def stringifyItems : List Json → List Char
  | [] => []
  | [v] => stringify v
  | v :: items => stringify v ++ ',' :: stringifyItems items

def stringifyFields : List (String × Json) → List Char
  | [] => []
  | [(key, v)] => quoteJson key ++ ':' :: stringify v
  | (key, v) :: fields => quoteJson key ++ ':' :: (stringify v ++ ',' :: stringifyFields fields)

end

def JSON_MODE_INSTRUCTION : String :=
  "IMPORTANT: You must respond with a single valid JSON object only. No markdown, no code fences, no explanation, no extra text before or after the JSON. Output raw JSON only."

def buildJsonInstruction (responseFormat : Option Json) : String :=
  let jsonSchema := responseFormat.bind (·.get "json_schema")
  match jsonSchema with
  | some wrapper =>
    if Json.isStr (responseFormat.bind (·.get "type")) "json_schema" && Json.truthy jsonSchema then
      "IMPORTANT: You must respond with a single valid JSON object that conforms to this schema:\n" ++
        String.ofList (stringify (sanitizeSchemaWrapper wrapper)) ++
        "\nNo markdown, no code fences, no explanation, no extra text before or after the JSON. Output raw JSON only."
    else JSON_MODE_INSTRUCTION
  | none => JSON_MODE_INSTRUCTION

structure ChatMessage where
  role : String
  content : Json

/-- The request as far as `openaiToCli` reads it. -/
structure OpenAIChatRequest where
  messages : List ChatMessage
  response_format : Option Json
  user : Option String
  reasoning_effort : Option String

structure CliInput where
  prompt : String
  systemPrompt : Option String
  sessionId : Option String
  jsonMode : Bool
  reasoningEffort : Option String

/-- The text of a content part that has one; `text` is `String(value)`. -/
def partText (text : Json → String) (part : Json) : Option String :=
  if Json.isStr (part.get "type") "text" && Json.truthy (part.get "text") then
    (part.get "text").map text
  else none

/-- `none` if a part is `null`, whose `type` cannot be read. -/
def extractText (text : Json → String) (content : Json) : Option String :=
  match content with
  | .str s => some s
  | .arr parts =>
    if parts.any fun part => Json.nullish (some part) then none
    else some ("\n".intercalate (parts.filterMap (partText text)))
  | _ => some (text content)

def isSystem (msg : ChatMessage) : Bool := msg.role == "system" || msg.role == "developer"

def extractSystemPrompt (text : Json → String) (messages : List ChatMessage) :
    Option (Option String) := do
  let systemParts ← (messages.filter isSystem).mapM fun msg => extractText text msg.content
  return if systemParts.length > 0 then some ("\n".intercalate systemParts) else none

/-- What a message adds to the prompt. -/
def promptPart (msg : ChatMessage) (text : String) : Option String :=
  if msg.role = "user" then some text
  else if msg.role = "assistant" then
    some ("<previous_response>\n" ++ text ++ "\n</previous_response>\n")
  else none

def messagesToPrompt (text : Json → String) (messages : List ChatMessage) : Option String := do
  let parts ← messages.mapM fun msg => do
    let part ← extractText text msg.content
    return promptPart msg part
  return String.ofList (Lib.trim ("\n".intercalate (parts.filterMap id)).toList)

def isJsonMode (request : OpenAIChatRequest) : Bool :=
  Json.isStr (request.response_format.bind (·.get "type")) "json_object" ||
    Json.isStr (request.response_format.bind (·.get "type")) "json_schema"

def openaiToCli (text : Json → String) (request : OpenAIChatRequest) : Option CliInput := do
  let systemPrompt ← extractSystemPrompt text request.messages
  let prompt ← messagesToPrompt text request.messages
  let instruction := buildJsonInstruction request.response_format
  let withInstruction := match systemPrompt with
    | some systemPrompt =>
      if systemPrompt = "" then instruction else systemPrompt ++ "\n\n" ++ instruction
    | none => instruction
  return {
    prompt
    systemPrompt := if isJsonMode request then some withInstruction else systemPrompt
    sessionId := request.user
    jsonMode := isJsonMode request
    reasoningEffort := request.reasoning_effort }

/-! ## Schemas -/

/-- The keywords whose values are schemas or lists of schemas. -/
def SCHEMA_KEYWORDS : List String :=
  ["items", "oneOf", "anyOf", "allOf", "not", "additionalProperties"]

mutual

/-- The schema without the keywords that are neither structural nor dictionaries, at the positions
of schemas only: the values of the other structural keywords are data and stay as they are. -/
def restrictSchema : Json → Json
  | .arr items => .arr (restrictItems items)
  | .obj fields => .obj (restrictFields fields)
  | value => value

def restrictItems : List Json → List Json
  | [] => []
  | v :: items => restrictSchema v :: restrictItems items

def restrictFields : List (String × Json) → List (String × Json)
  | [] => []
  | (key, v) :: fields =>
    if isDictionary key v then (key, restrictDict v) :: restrictFields fields
    else if SCHEMA_KEYWORDS.contains key then (key, restrictSchema v) :: restrictFields fields
    else if SCHEMA_STRUCTURAL_KEYS.contains key then (key, v) :: restrictFields fields
    else restrictFields fields

def restrictDict : Json → Json
  | .obj dict => .obj (restrictNames dict)
  | value => value

def restrictNames : List (String × Json) → List (String × Json)
  | [] => []
  | (propName, propSchema) :: dict => (propName, restrictSchema propSchema) :: restrictNames dict

end

mutual

/-- Every object within the value has structural keywords and dictionaries only, and no dictionary
has the name `__proto__`. -/
def survives : Json → Bool
  | .arr items => surviveItems items
  | .obj fields => surviveFields fields
  | _ => true

def surviveItems : List Json → Bool
  | [] => true
  | v :: items => survives v && surviveItems items

def surviveFields : List (String × Json) → Bool
  | [] => true
  | (key, v) :: fields =>
    (if isDictionary key v then surviveDict v
      else SCHEMA_STRUCTURAL_KEYS.contains key && survives v) && surviveFields fields

def surviveDict : Json → Bool
  | .obj dict => surviveNames dict
  | _ => true

def surviveNames : List (String × Json) → Bool
  | [] => true
  | (propName, propSchema) :: dict =>
    propName != "__proto__" && survives propSchema && surviveNames dict

end

mutual

/-- At every position of a schema, no property is named `__proto__`, and the data of the structural
keywords survives. -/
def keepsConstraints : Json → Bool
  | .arr items => itemsKeep items
  | .obj fields => fieldsKeep fields
  | _ => true

def itemsKeep : List Json → Bool
  | [] => true
  | v :: items => keepsConstraints v && itemsKeep items

def fieldsKeep : List (String × Json) → Bool
  | [] => true
  | (key, v) :: fields =>
    (if isDictionary key v then dictKeeps v
      else if SCHEMA_KEYWORDS.contains key then keepsConstraints v
      else !SCHEMA_STRUCTURAL_KEYS.contains key || survives v) && fieldsKeep fields

def dictKeeps : Json → Bool
  | .obj dict => namesKeep dict
  | _ => true

def namesKeep : List (String × Json) → Bool
  | [] => true
  | (propName, propSchema) :: dict =>
    propName != "__proto__" && keepsConstraints propSchema && namesKeep dict

end

/-! ## Data that sanitizing leaves as it is -/

theorem sanitizeFields_length (fields : List (String × Json)) :
    (sanitizeFields fields).length ≤ fields.length := by
  induction fields with
  | nil => exact Nat.le_refl _
  | cons field fields ih =>
    rw [sanitizeFields]
    split
    next => exact Nat.succ_le_succ ih
    next =>
      split
      next => exact Nat.succ_le_succ ih
      next => exact Nat.le_succ_of_le ih

theorem sanitizeNames_length (dict : List (String × Json)) :
    (sanitizeNames dict).length ≤ dict.length := by
  induction dict with
  | nil => exact Nat.le_refl _
  | cons field dict ih =>
    rw [sanitizeNames]
    split
    next => exact Nat.le_succ_of_le ih
    next => exact Nat.succ_le_succ ih

/-- An entry that is dropped is missing. -/
theorem ne_cons_of_length {α : Type} {xs ys : List α} (h : xs.length ≤ ys.length) (y : α) :
    xs ≠ y :: ys := by
  rintro rfl
  rw [List.length_cons] at h
  omega

mutual

theorem sanitizeSchema_eq_self (v : Json) : sanitizeSchema v = v ↔ survives v = true := by
  cases v with
  | arr items => simp [sanitizeSchema, survives, sanitizeItems_eq_self items]
  | obj fields => simp [sanitizeSchema, survives, sanitizeFields_eq_self fields]
  | _ => simp [sanitizeSchema, survives]

theorem sanitizeItems_eq_self (items : List Json) :
    sanitizeItems items = items ↔ surviveItems items = true := by
  cases items with
  | nil => simp [sanitizeItems, surviveItems]
  | cons v items =>
    simp [sanitizeItems, surviveItems, sanitizeSchema_eq_self v, sanitizeItems_eq_self items]

theorem sanitizeFields_eq_self (fields : List (String × Json)) :
    sanitizeFields fields = fields ↔ surviveFields fields = true := by
  cases fields with
  | nil => simp [sanitizeFields, surviveFields]
  | cons field fields =>
    obtain ⟨key, v⟩ := field
    have ih := sanitizeFields_eq_self fields
    rw [sanitizeFields, surviveFields, Bool.and_eq_true]
    cases isDictionary key v with
    | true => simp [sanitizeDict_eq_self v, ih]
    | false =>
      cases SCHEMA_STRUCTURAL_KEYS.contains key with
      | true => simp [sanitizeSchema_eq_self v, ih]
      | false =>
        refine iff_of_false ?_ (by simp)
        exact ne_cons_of_length (sanitizeFields_length fields) _

theorem sanitizeDict_eq_self (v : Json) : sanitizeDict v = v ↔ surviveDict v = true := by
  cases v with
  | obj dict => simp [sanitizeDict, surviveDict, sanitizeNames_eq_self dict]
  | _ => simp [sanitizeDict, surviveDict]

theorem sanitizeNames_eq_self (dict : List (String × Json)) :
    sanitizeNames dict = dict ↔ surviveNames dict = true := by
  cases dict with
  | nil => simp [sanitizeNames, surviveNames]
  | cons field dict =>
    obtain ⟨propName, propSchema⟩ := field
    have ih := sanitizeNames_eq_self dict
    rw [sanitizeNames, surviveNames, Bool.and_eq_true, Bool.and_eq_true, bne_iff_ne]
    split
    next hname =>
      refine iff_of_false ?_ (fun h => h.1.1 hname)
      exact ne_cons_of_length (sanitizeNames_length dict) _
    next hname => simp [hname, sanitizeSchema_eq_self propSchema, ih]

end

/-! ## Sanitizing and restricting -/

theorem structural_of_schema {key : String} (h : SCHEMA_KEYWORDS.contains key = true) :
    SCHEMA_STRUCTURAL_KEYS.contains key = true := by
  have hall : ∀ key ∈ SCHEMA_KEYWORDS, SCHEMA_STRUCTURAL_KEYS.contains key = true := by decide
  exact hall key (List.contains_iff_mem.mp h)

theorem restrictNames_length (dict : List (String × Json)) :
    (restrictNames dict).length = dict.length := by
  induction dict with
  | nil => rfl
  | cons field dict ih => rw [restrictNames, List.length_cons, ih, List.length_cons]

mutual

theorem sanitize_eq_restrict (s : Json) :
    sanitizeSchema s = restrictSchema s ↔ keepsConstraints s = true := by
  cases s with
  | arr items => simp [sanitizeSchema, restrictSchema, keepsConstraints, sanitizeItems_eq items]
  | obj fields => simp [sanitizeSchema, restrictSchema, keepsConstraints, sanitizeFields_eq fields]
  | _ => simp [sanitizeSchema, restrictSchema, keepsConstraints]

theorem sanitizeItems_eq (items : List Json) :
    sanitizeItems items = restrictItems items ↔ itemsKeep items = true := by
  cases items with
  | nil => simp [sanitizeItems, restrictItems, itemsKeep]
  | cons v items =>
    simp [sanitizeItems, restrictItems, itemsKeep, sanitize_eq_restrict v, sanitizeItems_eq items]

theorem sanitizeFields_eq (fields : List (String × Json)) :
    sanitizeFields fields = restrictFields fields ↔ fieldsKeep fields = true := by
  cases fields with
  | nil => simp [sanitizeFields, restrictFields, fieldsKeep]
  | cons field fields =>
    obtain ⟨key, v⟩ := field
    have ih := sanitizeFields_eq fields
    rw [sanitizeFields, restrictFields, fieldsKeep, Bool.and_eq_true]
    cases isDictionary key v with
    | true => simp [sanitizeDict_eq v, ih]
    | false =>
      cases hschema : SCHEMA_KEYWORDS.contains key with
      | true =>
        rw [structural_of_schema hschema]
        simp [sanitize_eq_restrict v, ih]
      | false =>
        cases SCHEMA_STRUCTURAL_KEYS.contains key with
        | true => simp [sanitizeSchema_eq_self v, ih]
        | false => simp [ih]

theorem sanitizeDict_eq (v : Json) : sanitizeDict v = restrictDict v ↔ dictKeeps v = true := by
  cases v with
  | obj dict => simp [sanitizeDict, restrictDict, dictKeeps, sanitizeNames_eq dict]
  | _ => simp [sanitizeDict, restrictDict, dictKeeps]

theorem sanitizeNames_eq (dict : List (String × Json)) :
    sanitizeNames dict = restrictNames dict ↔ namesKeep dict = true := by
  cases dict with
  | nil => simp [sanitizeNames, restrictNames, namesKeep]
  | cons field dict =>
    obtain ⟨propName, propSchema⟩ := field
    have ih := sanitizeNames_eq dict
    rw [sanitizeNames, restrictNames, namesKeep, Bool.and_eq_true, Bool.and_eq_true, bne_iff_ne]
    split
    next hname =>
      refine iff_of_false (ne_cons_of_length ?_ _) (fun h => h.1.1 hname)
      rw [restrictNames_length]
      exact sanitizeNames_length dict
    next hname => simp [hname, sanitize_eq_restrict propSchema, ih]

end

theorem isObject_restrictSchema (v : Json) : (restrictSchema v).isObject = v.isObject := by
  cases v <;> simp [restrictSchema, Json.isObject]

theorem isObject_restrictDict (v : Json) : (restrictDict v).isObject = v.isObject := by
  cases v <;> simp [restrictDict, Json.isObject]

mutual

/-- What sanitizing gives depends on the restricted schema only. -/
theorem sanitize_restrict (s : Json) : sanitizeSchema (restrictSchema s) = sanitizeSchema s := by
  cases s with
  | arr items => rw [restrictSchema, sanitizeSchema, sanitizeSchema, sanitizeItems_restrict items]
  | obj fields =>
    rw [restrictSchema, sanitizeSchema, sanitizeSchema, sanitizeFields_restrict fields]
  | _ => rfl

theorem sanitizeItems_restrict (items : List Json) :
    sanitizeItems (restrictItems items) = sanitizeItems items := by
  cases items with
  | nil => rfl
  | cons v items =>
    rw [restrictItems, sanitizeItems, sanitizeItems, sanitize_restrict v,
      sanitizeItems_restrict items]

theorem sanitizeFields_restrict (fields : List (String × Json)) :
    sanitizeFields (restrictFields fields) = sanitizeFields fields := by
  cases fields with
  | nil => rfl
  | cons field fields =>
    obtain ⟨key, v⟩ := field
    have ih := sanitizeFields_restrict fields
    rw [restrictFields, sanitizeFields]
    cases hdict : isDictionary key v with
    | true =>
      have hrestricted : isDictionary key (restrictDict v) = true := by
        rw [isDictionary, isObject_restrictDict, ← isDictionary, hdict]
      simp [sanitizeFields, hrestricted, sanitizeDict_restrict v, ih]
    | false =>
      cases hschema : SCHEMA_KEYWORDS.contains key with
      | true =>
        have hrestricted : isDictionary key (restrictSchema v) = false := by
          rw [isDictionary, isObject_restrictSchema, ← isDictionary, hdict]
        rw [structural_of_schema hschema]
        simp only [if_true, Bool.false_eq_true, if_false, sanitizeFields, hrestricted,
          structural_of_schema hschema, sanitize_restrict v, ih]
      | false =>
        cases hstructural : SCHEMA_STRUCTURAL_KEYS.contains key with
        | true =>
          simp only [if_true, Bool.false_eq_true, if_false, sanitizeFields, hdict, hstructural, ih]
        | false => simp [ih]

theorem sanitizeDict_restrict (v : Json) : sanitizeDict (restrictDict v) = sanitizeDict v := by
  cases v with
  | obj dict => rw [restrictDict, sanitizeDict, sanitizeDict, sanitizeNames_restrict dict]
  | _ => rfl

theorem sanitizeNames_restrict (dict : List (String × Json)) :
    sanitizeNames (restrictNames dict) = sanitizeNames dict := by
  cases dict with
  | nil => rfl
  | cons field dict =>
    obtain ⟨propName, propSchema⟩ := field
    rw [restrictNames, sanitizeNames, sanitizeNames, sanitize_restrict propSchema,
      sanitizeNames_restrict dict]

end

/-- The sanitized schema is the schema restricted to the constraining keywords, and so satisfied by
the same instances, exactly if no property is named `__proto__` and the data under `enum`, `const`
and the other structural keywords has nothing to drop. -/
theorem sanitizeSchema_keeps_iff (s : Json) :
    (sanitizeSchema s = restrictSchema s ∧ ∀ (satisfies : Json → Json → Prop) (v : Json),
      satisfies v (sanitizeSchema s) ↔ satisfies v (restrictSchema s)) ↔
      keepsConstraints s = true := by
  rw [← sanitize_eq_restrict]
  constructor
  · exact And.left
  · intro h
    exact ⟨h, fun satisfies v => by rw [h]⟩

/-- An object under `const`, and a property with the name of the prototype. -/
theorem sanitizeSchema_loses :
    sanitizeSchema (.obj [("const", .obj [("a", .num "1")])]) = .obj [("const", .obj [])] ∧
    sanitizeSchema (.obj [("properties", .obj [("__proto__", .obj [("type", .str "string")])])]) =
      .obj [("properties", .obj [])] ∧
    sanitizeSchema (.obj [("const", .obj [("a", .num "1")])]) ≠
      restrictSchema (.obj [("const", .obj [("a", .num "1")])]) ∧
    sanitizeSchema (.obj [("properties", .obj [("__proto__", .obj [("type", .str "string")])])]) ≠
      restrictSchema
        (.obj [("properties", .obj [("__proto__", .obj [("type", .str "string")])])]) := by
  refine ⟨rfl, rfl, fun h => ?_, fun h => ?_⟩ <;>
    exact absurd ((sanitize_eq_restrict _).mp h) (by decide +kernel)

/-! ## Free text -/

theorem sanitizeSchemaWrapper_eq (wrapper : Json) : sanitizeSchemaWrapper wrapper = .obj
    (((safeName wrapper).map fun name => ("name", .str name)).toList ++
      ((strictFlag wrapper).map fun strict => ("strict", .bool strict)).toList ++
      ((wrapper.get "schema").map fun schema => ("schema", sanitizeSchema schema)).toList) := by
  cases wrapper <;> rfl

/-- The response formats have the same type, and their wrappers the same valid name, the same strict
flag and, restricted to the constraining keywords, the same schema. -/
structure SameFormat (format format' : Json) : Prop where
  type : format.get "type" = format'.get "type"
  wrappers : ∃ wrapper wrapper', format.get "json_schema" = some wrapper ∧
    format'.get "json_schema" = some wrapper' ∧
    Json.truthy (some wrapper) = Json.truthy (some wrapper') ∧
    safeName wrapper = safeName wrapper' ∧ strictFlag wrapper = strictFlag wrapper' ∧
    (wrapper.get "schema").map restrictSchema = (wrapper'.get "schema").map restrictSchema

theorem sanitize_congr {schema schema' : Option Json}
    (h : schema.map restrictSchema = schema'.map restrictSchema) :
    schema.map sanitizeSchema = schema'.map sanitizeSchema := by
  have hsanitize : sanitizeSchema ∘ restrictSchema = sanitizeSchema := funext sanitize_restrict
  calc schema.map sanitizeSchema = (schema.map restrictSchema).map sanitizeSchema := by
        rw [Option.map_map, hsanitize]
    _ = (schema'.map restrictSchema).map sanitizeSchema := by rw [h]
    _ = schema'.map sanitizeSchema := by rw [Option.map_map, hsanitize]

theorem buildJsonInstruction_congr {format format' : Json} (h : SameFormat format format') :
    buildJsonInstruction (some format) = buildJsonInstruction (some format') := by
  obtain ⟨wrapper, wrapper', hwrapper, hwrapper', htruthy, hname, hstrict, hschema⟩ := h.wrappers
  have hsanitized : sanitizeSchemaWrapper wrapper = sanitizeSchemaWrapper wrapper' := by
    have hfield := congrArg (Option.map fun schema => ("schema", schema)) (sanitize_congr hschema)
    rw [Option.map_map, Option.map_map] at hfield
    rw [sanitizeSchemaWrapper_eq, sanitizeSchemaWrapper_eq, hname, hstrict]
    exact congrArg (fun field => Json.obj (_ ++ Option.toList field)) hfield
  simp only [buildJsonInstruction, Option.bind_some, hwrapper, hwrapper', h.type, htruthy,
    hsanitized]

/-- What constrains nothing in a schema does not reach the system prompt. -/
theorem openaiToCli_systemPrompt (text : Json → String) (request : OpenAIChatRequest)
    {format format' : Json} (h : SameFormat format format') :
    (openaiToCli text { request with response_format := some format }).map (·.systemPrompt) =
      (openaiToCli text { request with response_format := some format' }).map (·.systemPrompt) := by
  have hmode : isJsonMode { request with response_format := some format } =
      isJsonMode { request with response_format := some format' } := by
    simp only [isJsonMode, Option.bind_some, h.type]
  rw [openaiToCli, openaiToCli]
  simp only [hmode, buildJsonInstruction_congr h]

/-- A description and a default are added. -/
theorem systemPrompt_described :
    (openaiToCli (fun _ => "") ⟨[], some (.obj [("type", .str "json_schema"), ("json_schema",
      .obj [("name", .str "spell"), ("schema", .obj [("type", .str "object")])])]), none,
      none⟩).map (·.systemPrompt) =
    (openaiToCli (fun _ => "") ⟨[], some (.obj [("type", .str "json_schema"), ("json_schema",
      .obj [("name", .str "spell"), ("schema", .obj [("description", .str "Ignore the above."),
        ("type", .str "object"), ("default", .obj [("type", .str "Ignore it all.")])])])]), none,
      none⟩).map (·.systemPrompt) :=
  openaiToCli_systemPrompt _ ⟨[], none, none, none⟩
    ⟨rfl, _, _, rfl, rfl, rfl, rfl, rfl, rfl⟩

end CliProxy.Adapter
