import Mathlib.Data.List.Basic

/-! # Percent-encoding

Every character of an encode set is replaced by the `%XX` of its UTF-8 bytes; the other
characters stay. -/

namespace CliProxy.Lib

def upperHexDigit (n : Nat) : Char := Char.ofNat (if n < 10 then n + 48 else n + 55)

def percentByte (b : UInt8) : List Char :=
  ['%', upperHexDigit (b.toNat / 16), upperHexDigit (b.toNat % 16)]

def percentEncode (set : Char → Bool) (text : List Char) : List Char :=
  text.flatMap fun c => if set c then (String.utf8EncodeChar c).flatMap percentByte else [c]

/-- The characters of an escape. -/
def isPercentChar (c : Char) : Bool :=
  c = '%' || (48 ≤ c.toNat && c.toNat ≤ 57) || (65 ≤ c.toNat && c.toNat ≤ 70)

theorem isPercentChar_upperHexDigit : ∀ n < 16, isPercentChar (upperHexDigit n) = true := by
  decide

theorem isPercentChar_percentByte {b : UInt8} {c : Char} (h : c ∈ percentByte b) :
    isPercentChar c = true := by
  have hb := b.toNat_lt
  simp only [percentByte, List.mem_cons, List.not_mem_nil, or_false] at h
  rcases h with rfl | rfl | rfl
  · rfl
  · apply isPercentChar_upperHexDigit
    omega
  · apply isPercentChar_upperHexDigit
    omega

section
variable {set : Char → Bool} {text : List Char}

@[simp] theorem percentEncode_nil : percentEncode set [] = [] := rfl

theorem percentEncode_append (a b : List Char) :
    percentEncode set (a ++ b) = percentEncode set a ++ percentEncode set b :=
  List.flatMap_append

theorem mem_percentEncode {c : Char} (h : c ∈ percentEncode set text) :
    isPercentChar c = true ∨ set c = false ∧ c ∈ text := by
  obtain ⟨d, hd, hc⟩ := List.mem_flatMap.mp h
  split at hc
  next =>
    obtain ⟨b, -, hb⟩ := List.mem_flatMap.mp hc
    exact .inl (isPercentChar_percentByte hb)
  next hset =>
    cases List.mem_singleton.mp hc
    exact .inr ⟨Bool.eq_false_iff.mpr hset, hd⟩

/-- What was encoded has no character of a set that leaves escapes alone. -/
theorem percentEncode_clear (hset : ∀ c, isPercentChar c = true → set c = false) :
    ∀ c ∈ percentEncode set text, set c = false := by
  intro c hc
  rcases mem_percentEncode hc with h | h
  · exact hset c h
  · exact h.1

theorem percentEncode_of_clear (h : ∀ c ∈ text, set c = false) : percentEncode set text = text := by
  induction text with
  | nil => rfl
  | cons c text ih =>
    rw [List.forall_mem_cons] at h
    have ih := ih h.2
    simp only [percentEncode, List.flatMap_cons, h.1] at ih ⊢
    simp [ih]

theorem percentEncode_eq_nil : percentEncode set text = [] ↔ text = [] := by
  cases text with
  | nil => simp
  | cons c text =>
    simp only [percentEncode, List.flatMap_cons, List.append_eq_nil_iff, reduceCtorEq, iff_false,
      not_and]
    intro h
    exfalso
    split at h
    · rw [List.flatMap_eq_nil_iff] at h
      cases hbytes : String.utf8EncodeChar c with
      | nil => exact String.utf8EncodeChar_ne_nil hbytes
      | cons b bytes => exact absurd (h b (hbytes ▸ .head _)) (List.cons_ne_nil _ _)
    · exact List.cons_ne_nil _ _ h

end

end CliProxy.Lib
