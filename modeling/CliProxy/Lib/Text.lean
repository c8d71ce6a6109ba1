import Mathlib.Data.List.DropRight
import Mathlib.Data.List.Infix

/-! # Text as lists of characters

`trim` and the splitting of a text that arrives in chunks into its lines. -/

namespace CliProxy.Lib

theorem isUpper_iff {c : Char} : c.isUpper = true ↔ 65 ≤ c.toNat ∧ c.toNat ≤ 90 := decide_eq_true_iff

theorem isLower_iff {c : Char} : c.isLower = true ↔ 97 ≤ c.toNat ∧ c.toNat ≤ 122 :=
  (Bool.and_eq_true _ _).to_iff.trans (and_congr decide_eq_true_iff decide_eq_true_iff)

/-- The white space that `trim` removes. -/
def isTrimmed (c : Char) : Bool :=
  [9, 10, 11, 12, 13, 32, 0xa0, 0x1680, 0x2028, 0x2029, 0x202f, 0x205f, 0x3000, 0xfeff].contains
    c.toNat || (0x2000 ≤ c.toNat && c.toNat ≤ 0x200a)

def trim (output : List Char) : List Char :=
  ((output.dropWhile isTrimmed).reverse.dropWhile isTrimmed).reverse

theorem trim_eq_self {text : List Char} (h : ∀ c ∈ text, isTrimmed c = false) :
    trim text = text := by
  have hdrop : ∀ {l : List Char}, (∀ c ∈ l, isTrimmed c = false) → l.dropWhile isTrimmed = l := by
    intro l hl
    cases l with
    | nil => rfl
    | cons c l => exact List.dropWhile_cons_of_neg (by simp [hl c (.head _)])
  have hreverse : ∀ c ∈ text.reverse, isTrimmed c = false :=
    fun c hc => h c (List.mem_reverse.mp hc)
  rw [trim, hdrop h, hdrop hreverse, List.reverse_reverse]

theorem trim_append_newline {text : List Char} (h : ∀ c ∈ text, isTrimmed c = false) :
    trim (text ++ ['\n']) = text := by
  cases text with
  | nil => rfl
  | cons c text =>
    have hfirst : (c :: (text ++ ['\n'])).dropWhile isTrimmed = c :: (text ++ ['\n']) :=
      List.dropWhile_cons_of_neg (by simp [h c (.head _)])
    have hself := trim_eq_self h
    rw [trim, List.dropWhile_cons_of_neg (by simp [h c (.head _)])] at hself
    rw [trim, List.cons_append, hfirst, ← List.cons_append, List.reverse_append,
      List.reverse_singleton, List.singleton_append, List.dropWhile_cons_of_pos rfl]
    exact hself

theorem trim_trim (text : List Char) : trim (trim text) = trim text := by
  have hprefix : trim text <+: text.dropWhile isTrimmed := List.rdropWhile_prefix ..
  have hfirst : (trim text).dropWhile isTrimmed = trim text := by
    cases htrim : trim text with
    | nil => rfl
    | cons c rest =>
      obtain ⟨t, ht⟩ := hprefix
      rw [htrim, List.cons_append] at ht
      have hne : text.dropWhile isTrimmed ≠ [] := by simp [← ht]
      have hhead := List.head_dropWhile_not isTrimmed hne
      simp only [← ht, List.head_cons] at hhead
      exact List.dropWhile_cons_of_neg (by simp [hhead])
  calc trim (trim text) = (trim text).rdropWhile isTrimmed :=
        congrArg (List.rdropWhile isTrimmed) hfirst
    _ = trim text := List.rdropWhile_idempotent ..

/-- `text.includes(part)` -/
def includes (part text : List Char) : Bool := text.tails.any part.isPrefixOf

theorem includes_append {part text : List Char} (h : includes part text = true)
    (more : List Char) : includes part (text ++ more) = true := by
  obtain ⟨t, ht, hpart⟩ := List.any_eq_true.mp h
  obtain ⟨start, rfl⟩ := (List.mem_tails _ _).mp ht
  refine List.any_eq_true.mpr ⟨t ++ more, (List.mem_tails _ _).mpr ?_, ?_⟩
  · rw [List.append_assoc]
    exact List.suffix_append start (t ++ more)
  · exact List.isPrefixOf_iff_prefix.mpr
      ((List.isPrefixOf_iff_prefix.mp hpart).trans (List.prefix_append t more))

/-- The lines of a text that a newline ends, and what is left after the last newline. -/
def splitLines : List Char → List (List Char) × List Char
  | [] => ([], [])
  | c :: text =>
    let (lines, rest) := splitLines text
    if c = '\n' then ([] :: lines, rest)
    else match lines with
      | [] => ([], c :: rest)
      | line :: lines => ((c :: line) :: lines, rest)

/-- What is left after the last newline. -/
def lastLine (text : List Char) : List Char := (splitLines text).2

theorem splitLines_cons (c : Char) (text : List Char) : splitLines (c :: text) =
    if c = '\n' then ([] :: (splitLines text).1, lastLine text)
    else match (splitLines text).1 with
      | [] => ([], c :: lastLine text)
      | line :: lines => ((c :: line) :: lines, lastLine text) := rfl

theorem splitLines_fst_eq_nil {text : List Char} : (splitLines text).1 = [] ↔ '\n' ∉ text := by
  induction text with
  | nil => simp [splitLines]
  | cons c text ih =>
    rw [splitLines_cons]
    by_cases hc : c = '\n'
    · simp [hc]
    · rw [if_neg hc]
      cases hlines : (splitLines text).1 with
      | nil => simp [Ne.symm hc, ih.mp hlines]
      | cons line lines =>
        have hmem : '\n' ∈ text := by
          by_contra h
          exact absurd (hlines.symm.trans (ih.mpr h)) (List.cons_ne_nil _ _)
        simp [hmem]

theorem lastLine_cons (c : Char) (text : List Char) :
    lastLine (c :: text) = if '\n' ∈ c :: text then lastLine text else c :: lastLine text := by
  show (splitLines (c :: text)).2 = _
  rw [splitLines_cons]
  by_cases hc : c = '\n'
  · simp [hc]
  · rw [if_neg hc]
    cases hlines : (splitLines text).1 with
    | nil => simp [Ne.symm hc, splitLines_fst_eq_nil.mp hlines]
    | cons line lines =>
      have hmem : '\n' ∈ text := by
        by_contra h
        exact absurd (hlines.symm.trans (splitLines_fst_eq_nil.mpr h)) (List.cons_ne_nil _ _)
      simp [hmem]

theorem lastLine_of_notMem {text : List Char} (h : '\n' ∉ text) : lastLine text = text := by
  induction text with
  | nil => rfl
  | cons c text ih => rw [lastLine_cons, if_neg h, ih (List.not_mem_of_not_mem_cons h)]

/-- What comes before the last newline does not matter for what is left. -/
theorem lastLine_append (text chunk : List Char) :
    lastLine (text ++ chunk) = lastLine (lastLine text ++ chunk) := by
  induction text with
  | nil => rfl
  | cons c text ih =>
    by_cases hmem : '\n' ∈ c :: text
    · have hmem' : '\n' ∈ c :: (text ++ chunk) := List.mem_append_left chunk hmem
      rw [List.cons_append, lastLine_cons, if_pos hmem', lastLine_cons c text, if_pos hmem, ih]
    · rw [lastLine_of_notMem hmem]

/-- The characters of the text pass the tests, one for each. -/
def matchesEach : List (Char → Bool) → List Char → Bool
  | [], text => text.isEmpty
  | _ :: _, [] => false
  | test :: tests, c :: text => test c && matchesEach tests text

theorem matchesEach_append {tests tests' : List (Char → Bool)} {text : List Char} :
    matchesEach (tests ++ tests') text = true ↔
      ∃ a b, text = a ++ b ∧ matchesEach tests a = true ∧ matchesEach tests' b = true := by
  induction tests generalizing text with
  | nil =>
    constructor
    · exact fun h => ⟨[], text, rfl, rfl, h⟩
    · rintro ⟨a, b, rfl, ha, hb⟩
      rwa [List.isEmpty_iff.mp ha]
  | cons test tests ih =>
    constructor
    · intro h
      cases text with
      | nil => exact absurd h Bool.false_ne_true
      | cons c text =>
        rw [List.cons_append, matchesEach, Bool.and_eq_true, ih] at h
        obtain ⟨hc, a, b, rfl, ha, hb⟩ := h
        exact ⟨c :: a, b, rfl, by rw [matchesEach, hc, ha]; rfl, hb⟩
    · rintro ⟨a, b, rfl, ha, hb⟩
      cases a with
      | nil => exact absurd ha Bool.false_ne_true
      | cons c a =>
        rw [matchesEach, Bool.and_eq_true] at ha
        rw [List.cons_append, List.cons_append, matchesEach, Bool.and_eq_true]
        exact ⟨ha.1, ih.mpr ⟨a, b, rfl, ha.2, hb⟩⟩

theorem matchesEach_replicate {n : Nat} {test : Char → Bool} {text : List Char} :
    matchesEach (List.replicate n test) text = true ↔
      text.length = n ∧ ∀ c ∈ text, test c = true := by
  induction n generalizing text with
  | zero =>
    rw [List.replicate_zero, matchesEach, List.isEmpty_iff, List.length_eq_zero_iff]
    exact ⟨fun h => ⟨h, h ▸ List.forall_mem_nil _⟩, And.left⟩
  | succ n ih =>
    cases text with
    | nil => exact iff_of_false Bool.false_ne_true (fun h => absurd h.1.symm (Nat.succ_ne_zero n))
    | cons c text =>
      rw [List.replicate_succ, matchesEach, Bool.and_eq_true, ih, List.length_cons,
        List.forall_mem_cons, Nat.add_right_cancel_iff]
      exact ⟨fun ⟨h, hlength, hall⟩ => ⟨hlength, h, hall⟩, fun ⟨hlength, h, hall⟩ => ⟨h, hlength, hall⟩⟩

theorem matchesEach_cons {test : Char → Bool} {tests : List (Char → Bool)} {text : List Char} :
    matchesEach (test :: tests) text = true ↔
      ∃ c rest, text = c :: rest ∧ test c = true ∧ matchesEach tests rest = true := by
  cases text with
  | nil => exact iff_of_false Bool.false_ne_true (by rintro ⟨c, rest, h, -⟩; exact List.cons_ne_nil c rest h.symm)
  | cons c text =>
    rw [matchesEach, Bool.and_eq_true]
    constructor
    · exact fun h => ⟨c, text, rfl, h⟩
    · rintro ⟨d, rest, h, hd, hrest⟩
      obtain ⟨rfl, rfl⟩ := List.cons.inj h
      exact ⟨hd, hrest⟩

end CliProxy.Lib
