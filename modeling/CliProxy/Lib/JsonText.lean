import CliProxy.Lib.Text

/-! # JSON texts

The automaton that reads a JSON text from left to right: what may come next, and the objects and
arrays that are open. A string opens and closes nothing, so the open objects and arrays change at
brackets outside strings only. -/

namespace CliProxy.Lib.JsonText

/-! ## The automaton -/

inductive Frame where
  | object
  | array
  deriving DecidableEq

inductive Part where
  | minus
  | zero
  | digits
  | point
  | fraction
  | exponent
  | sign
  | power
  deriving DecidableEq

/-- The letters of `true`, `false` and `null` after the first one. -/
inductive Letter where
  | a
  | e
  | l
  | r
  | s
  | u
  deriving DecidableEq

def Letter.char : Letter → Char
  | .a => 'a'
  | .e => 'e'
  | .l => 'l'
  | .r => 'r'
  | .s => 's'
  | .u => 'u'

inductive Mode where
  /-- A value is expected. -/
  | value
  /-- After `[`. -/
  | firstItem
  /-- After `{`. -/
  | firstKey
  | key
  | colon
  /-- After a value. -/
  | done
  | string (isKey : Bool)
  | escape (isKey : Bool)
  /-- After `\u`; `left` digits follow the next one. -/
  | hex (isKey : Bool) (left : Nat)
  | literal (letter : Letter) (rest : List Letter)
  | number (part : Part)
  deriving DecidableEq

structure State where
  mode : Mode
  stack : List Frame
  deriving DecidableEq

/-- The white space between the tokens. -/
def isSpace (c : Char) : Bool := [' ', '\t', '\n', '\r'].contains c

def isDigit (c : Char) : Bool := '0' ≤ c && c ≤ '9'

def isHexDigit (c : Char) : Bool := isDigit c || ('a' ≤ c && c ≤ 'f') || ('A' ≤ c && c ≤ 'F')

/-- The first character of a literal or a number. -/
def startScalar (c : Char) : Option Mode :=
  if c = 't' then some (.literal .r [.u, .e])
  else if c = 'f' then some (.literal .a [.l, .s, .e])
  else if c = 'n' then some (.literal .u [.l, .l])
  else if c = '-' then some (.number .minus)
  else if c = '0' then some (.number .zero)
  else if isDigit c then some (.number .digits)
  else none

/-- The first character of a value. -/
def startValue (stack : List Frame) (c : Char) : Option State :=
  if c = '{' then some ⟨.firstKey, .object :: stack⟩
  else if c = '[' then some ⟨.firstItem, .array :: stack⟩
  else if c = '"' then some ⟨.string false, stack⟩
  else (startScalar c).map fun mode => ⟨mode, stack⟩

/-- The end of the innermost object or array. -/
def close (stack : List Frame) (c : Char) : Option State :=
  match stack with
  | .object :: stack => if c = '}' then some ⟨.done, stack⟩ else none
  | .array :: stack => if c = ']' then some ⟨.done, stack⟩ else none
  | [] => none

/-- What follows a value within an object or an array. -/
def afterValue (stack : List Frame) (c : Char) : Option State :=
  if c = ',' then
    match stack with
    | .object :: _ => some ⟨.key, stack⟩
    | .array :: _ => some ⟨.value, stack⟩
    | [] => none
  else close stack c

def Part.next (part : Part) (c : Char) : Option Part :=
  match part with
  | .minus => if c = '0' then some .zero else if isDigit c then some .digits else none
  | .zero => if c = '.' then some .point else if c = 'e' || c = 'E' then some .exponent else none
  | .digits => if isDigit c then some .digits else if c = '.' then some .point
      else if c = 'e' || c = 'E' then some .exponent else none
  | .point => if isDigit c then some .fraction else none
  | .fraction => if isDigit c then some .fraction
      else if c = 'e' || c = 'E' then some .exponent else none
  | .exponent => if c = '+' || c = '-' then some .sign else if isDigit c then some .power else none
  | .sign | .power => if isDigit c then some .power else none

/-- The digits so far are a number. -/
def Part.complete : Part → Bool
  | .zero | .digits | .fraction | .power => true
  | _ => false

def step (s : State) (c : Char) : Option State :=
  match s.mode with
  | .value => if isSpace c then some s else startValue s.stack c
  | .firstItem =>
    if isSpace c then some s else if c = ']' then close s.stack c else startValue s.stack c
  | .firstKey =>
    if isSpace c then some s else if c = '"' then some ⟨.string true, s.stack⟩
    else close s.stack c
  | .key =>
    if isSpace c then some s else if c = '"' then some ⟨.string true, s.stack⟩ else none
  | .colon => if isSpace c then some s else if c = ':' then some ⟨.value, s.stack⟩ else none
  | .done => if isSpace c then some s else afterValue s.stack c
  | .string isKey =>
    if c = '"' then some ⟨if isKey then .colon else .done, s.stack⟩
    else if c = '\\' then some ⟨.escape isKey, s.stack⟩
    else if c.toNat < 32 then none
    else some s
  | .escape isKey =>
    if c = 'u' then some ⟨.hex isKey 3, s.stack⟩
    else if ['"', '\\', '/', 'b', 'f', 'n', 'r', 't'].contains c then
      some ⟨.string isKey, s.stack⟩
    else none
  | .hex isKey left =>
    if isHexDigit c then
      match left with
      | 0 => some ⟨.string isKey, s.stack⟩
      | left + 1 => some ⟨.hex isKey left, s.stack⟩
    else none
  | .literal letter rest =>
    if c = letter.char then
      match rest with
      | [] => some ⟨.done, s.stack⟩
      | letter :: rest => some ⟨.literal letter rest, s.stack⟩
    else none
  | .number part =>
    match part.next c with
    | some part => some ⟨.number part, s.stack⟩
    | none =>
      if !part.complete then none
      else if isSpace c then some ⟨.done, s.stack⟩
      else afterValue s.stack c

/-- The text may end here. -/
def State.accepts (s : State) : Bool :=
  s.stack.isEmpty && match s.mode with
    | .done => true
    | .number part => part.complete
    | _ => false

def start : State := ⟨.value, []⟩

/-- `JSON.parse` does not throw. -/
def parses (text : List Char) : Bool := (text.foldlM step start).any State.accepts

/-! ## The open objects and arrays -/

def Mode.inString : Mode → Bool
  | .string _ | .escape _ | .hex _ _ => true
  | _ => false

def Mode.isEscape : Mode → Bool
  | .escape _ => true
  | _ => false

def isBracket (c : Char) : Bool := ['{', '}', '[', ']'].contains c

def isVisible (c : Char) : Bool := 33 ≤ c.toNat && c.toNat ≤ 125

/-- A character that may stand outside strings and opens and closes nothing. -/
def isPlain (c : Char) : Bool :=
  c != '"' && c != '\\' && !isBracket c && (isSpace c || isVisible c)

/-- What a character outside strings does. -/
inductive Outside (s : State) (c : Char) (s' : State) : Prop where
  | quote (h : c = '"') (hmode : s'.mode.inString = true) (hescape : s'.mode.isEscape = false)
    (hstack : s'.stack = s.stack)
  | openObject (h : c = '{') (hs : s' = ⟨.firstKey, .object :: s.stack⟩)
  | openArray (h : c = '[') (hs : s' = ⟨.firstItem, .array :: s.stack⟩)
  | closeObject (h : c = '}') (stack : List Frame) (hstack : s.stack = .object :: stack)
    (hs : s' = ⟨.done, stack⟩)
  | closeArray (h : c = ']') (stack : List Frame) (hstack : s.stack = .array :: stack)
    (hs : s' = ⟨.done, stack⟩)
  | plain (h : isPlain c = true) (hmode : s'.mode.inString = false) (hstack : s'.stack = s.stack)

theorem isSpace_plain {c : Char} (h : isSpace c = true) : isPlain c = true := by
  simp only [isSpace, List.contains_iff_mem, List.mem_cons, List.not_mem_nil, or_false] at h
  rcases h with rfl | rfl | rfl | rfl <;> decide

theorem isDigit_plain {c : Char} (h : isDigit c = true) : isPlain c = true := by
  simp only [isDigit, Bool.and_eq_true, decide_eq_true_eq, Char.le_def] at h
  have hc : c = Char.ofNat c.toNat := (Char.ofNat_toNat c).symm
  have hlow : 48 ≤ c.toNat := h.1
  have hhigh : c.toNat ≤ 57 := h.2
  rw [hc]
  have hall : ∀ n < 58, 48 ≤ n → isPlain (Char.ofNat n) = true := by decide
  exact hall c.toNat (by omega) hlow

theorem close_outside {s s' : State} {c : Char} (h : close s.stack c = some s') :
    Outside s c s' := by
  unfold close at h
  split at h
  next stack hstack =>
    split at h
    next hc => exact .closeObject hc stack hstack (Option.some.inj h).symm
    next => cases h
  next stack hstack =>
    split at h
    next hc => exact .closeArray hc stack hstack (Option.some.inj h).symm
    next => cases h
  next => cases h

theorem afterValue_outside {s s' : State} {c : Char} (h : afterValue s.stack c = some s') :
    Outside s c s' := by
  unfold afterValue at h
  split at h
  next hc =>
    have hplain : isPlain c = true := by
      rw [hc]
      decide
    split at h
    next hstack => exact .plain hplain (by rw [← Option.some.inj h]; rfl) (by rw [← Option.some.inj h])
    next hstack => exact .plain hplain (by rw [← Option.some.inj h]; rfl) (by rw [← Option.some.inj h])
    next => cases h
  next => exact close_outside h

theorem startScalar_plain {c : Char} {mode : Mode} (h : startScalar c = some mode) :
    isPlain c = true ∧ mode.inString = false := by
  unfold startScalar at h
  by_cases hdigit : isDigit c = true
  · refine ⟨isDigit_plain hdigit, ?_⟩
    repeat' split at h
    all_goals cases h
    all_goals rfl
  · rw [if_neg hdigit] at h
    repeat' split at h
    all_goals cases h
    all_goals subst c
    all_goals exact ⟨by decide, rfl⟩

theorem startValue_outside {s s' : State} {c : Char} (h : startValue s.stack c = some s') :
    Outside s c s' := by
  unfold startValue at h
  split at h
  next hc => exact .openObject hc (Option.some.inj h).symm
  next =>
    split at h
    next hc => exact .openArray hc (Option.some.inj h).symm
    next =>
      split at h
      next hc =>
        cases h
        exact .quote hc rfl rfl rfl
      next =>
        obtain ⟨mode, hmode, rfl⟩ := Option.map_eq_some_iff.mp h
        obtain ⟨hplain, hstring⟩ := startScalar_plain hmode
        exact .plain hplain hstring rfl

theorem Part.next_plain {part part' : Part} {c : Char} (h : part.next c = some part') :
    isPlain c = true := by
  by_cases hdigit : isDigit c = true
  · exact isDigit_plain hdigit
  · unfold Part.next at h
    simp only [if_neg hdigit] at h
    have hsome : ['0', '.', 'e', 'E', '+', '-'].contains c = true := by
      cases part <;> simp at h ⊢ <;> grind
    simp only [List.contains_iff_mem, List.mem_cons, List.not_mem_nil, or_false] at hsome
    rcases hsome with rfl | rfl | rfl | rfl | rfl | rfl <;> decide

theorem Letter.char_plain (letter : Letter) : isPlain letter.char = true := by
  cases letter <;> decide

theorem step_outside {s s' : State} {c : Char} (hmode : s.mode.inString = false)
    (h : step s c = some s') : Outside s c s' := by
  have hspace : isSpace c = true → s' = s → Outside s c s' := by
    rintro hc rfl
    exact .plain (isSpace_plain hc) hmode rfl
  unfold step at h
  split at h
  next =>
    split at h
    next hc => exact hspace hc (Option.some.inj h).symm
    next => exact startValue_outside h
  next =>
    split at h
    next hc => exact hspace hc (Option.some.inj h).symm
    next =>
      split at h
      next => exact close_outside h
      next => exact startValue_outside h
  next =>
    split at h
    next hc => exact hspace hc (Option.some.inj h).symm
    next =>
      split at h
      next hc =>
        cases h
        exact .quote hc rfl rfl rfl
      next => exact close_outside h
  next =>
    split at h
    next hc => exact hspace hc (Option.some.inj h).symm
    next =>
      split at h
      next hc =>
        cases h
        exact .quote hc rfl rfl rfl
      next => cases h
  next =>
    split at h
    next hc => exact hspace hc (Option.some.inj h).symm
    next =>
      split at h
      next hc =>
        cases h
        exact .plain (by rw [hc]; decide) rfl rfl
      next => cases h
  next =>
    split at h
    next hc => exact hspace hc (Option.some.inj h).symm
    next => exact afterValue_outside h
  next hstring => rw [hstring] at hmode; cases hmode
  next hescape => rw [hescape] at hmode; cases hmode
  next hhex => rw [hhex] at hmode; cases hmode
  next letter rest _ =>
    split at h
    next hc =>
      have hplain := hc ▸ letter.char_plain
      cases rest <;> cases h <;> exact .plain hplain rfl rfl
    next => cases h
  next part _ =>
    split at h
    next part' hpart =>
      cases h
      exact .plain (Part.next_plain hpart) rfl rfl
    next =>
      split at h
      next => cases h
      next =>
        split at h
        next hc =>
          cases h
          exact .plain (isSpace_plain hc) rfl rfl
        next => exact afterValue_outside h

/-- What a character within a string does: only an escape hides the next quote or backslash. -/
theorem step_inString {s s' : State} {c : Char} (hmode : s.mode.inString = true)
    (h : step s c = some s') : s'.stack = s.stack ∧
      if s.mode.isEscape then s'.mode.inString = true ∧ s'.mode.isEscape = false
      else if c = '\\' then s'.mode.inString = true ∧ s'.mode.isEscape = true
      else s'.mode.inString = (c != '"') ∧ s'.mode.isEscape = false := by
  unfold step at h
  cases hs : s.mode with
  | string isKey =>
    rw [hs] at h
    dsimp only at h
    split at h
    next hc =>
      cases h
      cases isKey <;> simp [Mode.isEscape, Mode.inString, hc]
    next hquote =>
      split at h
      next hc =>
        cases h
        simp [Mode.isEscape, Mode.inString, hc]
      next hslash =>
        split at h
        next => cases h
        next =>
          cases h
          simp [Mode.isEscape, Mode.inString, hquote, hslash, hs]
  | escape isKey =>
    rw [hs] at h
    dsimp only at h
    split at h
    next =>
      cases h
      simp [Mode.isEscape, Mode.inString]
    next =>
      split at h
      next =>
        cases h
        simp [Mode.isEscape, Mode.inString]
      next => cases h
  | hex isKey left =>
    rw [hs] at h
    dsimp only at h
    split at h
    next hc =>
      have hquote : c ≠ '"' := by
        rintro rfl
        cases hc
      have hslash : c ≠ '\\' := by
        rintro rfl
        cases hc
      cases left <;> cases h <;> simp [Mode.isEscape, Mode.inString, hquote, hslash]
    next => cases h
  | _ =>
    rw [hs] at hmode
    cases hmode

/-- The bottom of the open objects and arrays stays until it is closed; that ends the value. -/
theorem step_bottom {s s' : State} {c : Char} {frame : Frame} (h : step s c = some s')
    (hlast : s.stack.getLast? = some frame) :
    s'.stack.getLast? = some frame ∨ s' = ⟨.done, []⟩ := by
  cases hmode : s.mode.inString with
  | true =>
    rw [(step_inString hmode h).1]
    exact .inl hlast
  | false =>
    have hopen : ∀ opened, (opened :: s.stack).getLast? = some frame := by
      intro opened
      rw [List.getLast?_cons, hlast]
      rfl
    have hclose : ∀ closed stack, s.stack = closed :: stack →
        stack.getLast? = some frame ∨ (⟨.done, stack⟩ : State) = ⟨.done, []⟩ := by
      intro closed stack hstack
      cases stack with
      | nil => exact .inr rfl
      | cons next stack =>
        rw [hstack, List.getLast?_cons_cons] at hlast
        exact .inl hlast
    cases step_outside hmode h with
    | quote _ _ _ hstack => exact .inl (hstack ▸ hlast)
    | openObject _ hs => exact .inl (hs ▸ hopen .object)
    | openArray _ hs => exact .inl (hs ▸ hopen .array)
    | closeObject _ stack hstack hs => exact hs ▸ hclose .object stack hstack
    | closeArray _ stack hstack hs => exact hs ▸ hclose .array stack hstack
    | plain _ _ hstack => exact .inl (hstack ▸ hlast)

/-! ## White space around a text -/

/-- A character that is neither white space nor part of a string is a visible one. -/
theorem isVisible_of_step {s s' : State} {c : Char} (hmode : s.mode.inString = false)
    (hspace : isSpace c = false) (h : step s c = some s') : isVisible c = true := by
  cases step_outside hmode h with
  | quote hc => rw [hc]; rfl
  | openObject hc => rw [hc]; rfl
  | openArray hc => rw [hc]; rfl
  | closeObject hc => rw [hc]; rfl
  | closeArray hc => rw [hc]; rfl
  | plain hplain =>
    rw [isPlain, hspace, Bool.false_or, Bool.and_eq_true] at hplain
    exact hplain.2

theorem not_isTrimmed {c : Char} (h : isVisible c = true) : isTrimmed c = false := by
  simp only [isVisible, Bool.and_eq_true, decide_eq_true_eq] at h
  rw [Bool.eq_false_iff]
  intro htrimmed
  simp only [isTrimmed, Bool.or_eq_true, List.contains_iff_mem, List.mem_cons, List.not_mem_nil,
    or_false, Bool.and_eq_true, decide_eq_true_eq] at htrimmed
  omega

/-- White space outside strings separates tokens. -/
theorem isSpace_of_step {s s' : State} {c : Char} (hmode : s.mode.inString = false)
    (h : step s c = some s') (hc : isTrimmed c = true) : isSpace c = true := by
  by_contra hspace
  rw [Bool.not_eq_true] at hspace
  rw [not_isTrimmed (isVisible_of_step hmode hspace h)] at hc
  cases hc

theorem accepts_inString {s : State} (h : s.accepts = true) : s.mode.inString = false := by
  rw [State.accepts, Bool.and_eq_true] at h
  cases hmode : s.mode <;> rw [hmode] at h <;> first | rfl | cases h.2

theorem next_space {part : Part} {c : Char} (h : isSpace c = true) : part.next c = none := by
  simp only [isSpace, List.contains_iff_mem, List.mem_cons, List.not_mem_nil, or_false] at h
  rcases h with rfl | rfl | rfl | rfl <;> cases part <;> rfl

/-- A text that may end after white space may end before it. -/
theorem step_accepts {s s' : State} {c : Char} (h : step s c = some s')
    (hc : isTrimmed c = true) (haccepts : s'.accepts = true) : s.accepts = true := by
  have hmode : s.mode.inString = false := by
    rw [Bool.eq_false_iff]
    intro hstring
    have hquote : c ≠ '"' := by
      rintro rfl
      cases hc
    have hmode := (step_inString hstring h).2
    have hout := accepts_inString haccepts
    split at hmode
    next => rw [hmode.1] at hout; cases hout
    next =>
      split at hmode
      next => rw [hmode.1] at hout; cases hout
      next =>
        rw [hmode.1, bne_eq_false_iff_eq] at hout
        exact hquote hout
  have hspace := isSpace_of_step hmode h hc
  unfold step at h
  cases hs : s.mode with
  | literal letter rest =>
    rw [hs] at h
    dsimp only at h
    split at h
    next hletter =>
      rw [hletter] at hspace
      cases letter <;> cases hspace
    next => cases h
  | number part =>
    rw [hs] at h
    dsimp only at h
    rw [next_space hspace] at h
    cases hcomplete : part.complete with
    | false =>
      rw [hcomplete] at h
      cases h
    | true =>
      rw [hcomplete, hspace] at h
      cases h
      simpa [State.accepts, hs, hcomplete] using haccepts
  | string isKey => rw [hs] at hmode; cases hmode
  | escape isKey => rw [hs] at hmode; cases hmode
  | hex isKey left => rw [hs] at hmode; cases hmode
  | _ =>
    rw [hs] at h
    simp only [hspace, if_true, Option.some.injEq] at h
    exact h ▸ haccepts

theorem parses_dropWhile {text : List Char} (h : parses text = true) :
    parses (text.dropWhile isTrimmed) = true := by
  induction text with
  | nil => exact h
  | cons c text ih =>
    cases hc : isTrimmed c with
    | false => rwa [List.dropWhile_cons_of_neg (by simp [hc])]
    | true =>
      rw [List.dropWhile_cons_of_pos hc]
      apply ih
      rw [parses, List.foldlM_cons] at h
      cases hstep : step start c with
      | none =>
        rw [hstep] at h
        cases h
      | some s =>
        have hspace := isSpace_of_step rfl hstep hc
        have hstart : s = start := by
          simp only [step, start, hspace, if_true, Option.some.injEq] at hstep
          exact hstep.symm
        rw [hstep, hstart] at h
        exact h

theorem parses_concat {text : List Char} {c : Char} (h : parses (text ++ [c]) = true)
    (hc : isTrimmed c = true) : parses text = true := by
  rw [parses, List.foldlM_append] at h
  rw [parses]
  cases hrun : text.foldlM step start with
  | none =>
    rw [hrun] at h
    cases h
  | some s =>
    rw [hrun] at h
    cases hstep : step s c with
    | none =>
      simp [hstep] at h
    | some s' =>
      simp [hstep] at h
      exact step_accepts hstep hc h

/-- Trimming keeps a JSON text. -/
theorem parses_trim {text : List Char} (h : parses text = true) : parses (trim text) = true := by
  have hreverse : ∀ r : List Char, parses r.reverse = true →
      parses (r.dropWhile isTrimmed).reverse = true := by
    intro r
    induction r with
    | nil => exact id
    | cons c r ih =>
      intro h
      cases hc : isTrimmed c with
      | false => rwa [List.dropWhile_cons_of_neg (by simp [hc])]
      | true =>
        rw [List.dropWhile_cons_of_pos hc]
        rw [List.reverse_cons] at h
        exact ih (parses_concat h hc)
  apply hreverse
  rw [List.reverse_reverse]
  exact parses_dropWhile h

end CliProxy.Lib.JsonText
