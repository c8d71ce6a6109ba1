import Mathlib.Data.List.Basic

/-! # UTF-8

The encoder, and the decoder of the WHATWG encoding standard byte by byte: what is not the encoding
of a character is read as U+FFFD. -/

namespace CliProxy.Lib

def utf8Encode (text : List Char) : List UInt8 := text.flatMap String.utf8EncodeChar

def replacementChar : Char := '\uFFFD'

/-- A character of which `needed + 1` bytes are to come; the next one is between the bounds. -/
structure Utf8Pending where
  code : Nat
  needed : Nat
  lower : Nat
  upper : Nat
  deriving DecidableEq, Repr

/-- What a byte completes, and what is pending after it. -/
abbrev Utf8Step := List Char × Option Utf8Pending

def utf8First (b : Nat) : Utf8Step :=
  if b < 0x80 then ([Char.ofNat b], none)
  else if b < 0xc2 then ([replacementChar], none)
  else if b < 0xe0 then ([], some ⟨b - 0xc0, 0, 0x80, 0xbf⟩)
  else if b < 0xf0 then
    ([], some ⟨b - 0xe0, 1, if b = 0xe0 then 0xa0 else 0x80, if b = 0xed then 0x9f else 0xbf⟩)
  else if b < 0xf5 then
    ([], some ⟨b - 0xf0, 2, if b = 0xf0 then 0x90 else 0x80, if b = 0xf4 then 0x8f else 0xbf⟩)
  else ([replacementChar], none)

def utf8Next (p : Utf8Pending) (b : Nat) : Utf8Step :=
  if p.lower ≤ b ∧ b ≤ p.upper then
    match p.needed with
    | 0 => ([Char.ofNat (p.code * 64 + (b - 0x80))], none)
    | needed + 1 => ([], some ⟨p.code * 64 + (b - 0x80), needed, 0x80, 0xbf⟩)
  else (replacementChar :: (utf8First b).1, (utf8First b).2)

def utf8Step : Option Utf8Pending → Nat → Utf8Step
  | none, b => utf8First b
  | some p, b => utf8Next p b

def utf8DecodeFrom : Option Utf8Pending → List UInt8 → List Char
  | pending, [] => (pending.map fun _ => replacementChar).toList
  | pending, b :: bytes =>
    (utf8Step pending b.toNat).1 ++ utf8DecodeFrom (utf8Step pending b.toNat).2 bytes

/-- `buffer.toString("utf8")` -/
def utf8Decode (bytes : List UInt8) : List Char := utf8DecodeFrom none bytes

/-! ## The decoder reads what the encoder wrote -/

theorem utf8DecodeFrom_cons (pending : Option Utf8Pending) (n : Nat) (hn : n < 256)
    (bytes : List UInt8) : utf8DecodeFrom pending (UInt8.ofNat n :: bytes) =
      (utf8Step pending n).1 ++ utf8DecodeFrom (utf8Step pending n).2 bytes := by
  rw [utf8DecodeFrom, UInt8.toNat_ofNat_of_lt' hn]

/-- A continuation byte with the last six bits of a character. -/
theorem utf8Next_last (code : Nat) {lower upper x : Nat} (hlower : lower ≤ x + 0x80)
    (hupper : x + 0x80 ≤ upper) :
    utf8Next ⟨code, 0, lower, upper⟩ (x + 0x80) = ([Char.ofNat (code * 64 + x)], none) := by
  rw [utf8Next, if_pos ⟨hlower, hupper⟩, Nat.add_sub_cancel]

theorem utf8Next_more (code needed : Nat) {lower upper x : Nat} (hlower : lower ≤ x + 0x80)
    (hupper : x + 0x80 ≤ upper) :
    utf8Next ⟨code, needed + 1, lower, upper⟩ (x + 0x80) =
      ([], some ⟨code * 64 + x, needed, 0x80, 0xbf⟩) := by
  rw [utf8Next, if_pos ⟨hlower, hupper⟩, Nat.add_sub_cancel]

theorem utf8First_two {x : Nat} (hlower : 2 ≤ x) (hupper : x < 32) :
    utf8First (x + 0xc0) = ([], some ⟨x, 0, 0x80, 0xbf⟩) := by
  rw [utf8First, if_neg (by omega), if_neg (by omega), if_pos (by omega), Nat.add_sub_cancel]

theorem utf8First_three {x : Nat} (hupper : x < 16) :
    utf8First (x + 0xe0) =
      ([], some ⟨x, 1, if x = 0 then 0xa0 else 0x80, if x = 13 then 0x9f else 0xbf⟩) := by
  have hlower : (x + 0xe0 = 0xe0) = (x = 0) := propext (by omega)
  have hlimit : (x + 0xe0 = 0xed) = (x = 13) := propext (by omega)
  rw [utf8First, if_neg (by omega), if_neg (by omega), if_neg (by omega), if_pos (by omega),
    Nat.add_sub_cancel]
  simp only [hlower, hlimit]

theorem utf8First_four {x : Nat} (hupper : x < 5) :
    utf8First (x + 0xf0) =
      ([], some ⟨x, 2, if x = 0 then 0x90 else 0x80, if x = 4 then 0x8f else 0xbf⟩) := by
  have hlower : (x + 0xf0 = 0xf0) = (x = 0) := propext (by omega)
  have hlimit : (x + 0xf0 = 0xf4) = (x = 4) := propext (by omega)
  rw [utf8First, if_neg (by omega), if_neg (by omega), if_neg (by omega), if_neg (by omega),
    if_pos (by omega), Nat.add_sub_cancel]
  simp only [hlower, hlimit]

theorem utf8DecodeFrom_encodeChar (c : Char) (bytes : List UInt8) :
    utf8DecodeFrom none (String.utf8EncodeChar c ++ bytes) = c :: utf8DecodeFrom none bytes := by
  have hvalid : c.toNat < 0xd800 ∨ 0xdfff < c.toNat ∧ c.toNat < 0x110000 := c.valid
  have hc : Char.ofNat c.toNat = c := Char.ofNat_toNat c
  have hval : c.val.toNat = c.toNat := rfl
  unfold String.utf8EncodeChar
  rw [hval]
  generalize c.toNat = v at hvalid hc
  dsimp only
  split
  next hv =>
    rw [List.cons_append, List.nil_append, utf8DecodeFrom_cons _ _ (by omega), utf8Step, utf8First,
      if_pos (by omega), hc]
    rfl
  next hv =>
  split
  next hv' =>
    have hcode : v / 64 % 32 * 64 + v % 64 = v := by omega
    simp only [List.cons_append, List.nil_append]
    rw [utf8DecodeFrom_cons _ _ (by omega), utf8Step, utf8First_two (by omega) (by omega),
      List.nil_append, utf8DecodeFrom_cons _ _ (by omega), utf8Step,
      utf8Next_last _ (by omega) (by omega), hcode, hc]
    rfl
  next hv' =>
  split
  next hv'' =>
    have hcode : (v / 4096 % 16 * 64 + v / 64 % 64) * 64 + v % 64 = v := by omega
    simp only [List.cons_append, List.nil_append]
    rw [utf8DecodeFrom_cons _ _ (by omega), utf8Step, utf8First_three (by omega),
      List.nil_append, utf8DecodeFrom_cons _ _ (by omega), utf8Step,
      utf8Next_more _ _ (by split <;> omega) (by split <;> omega), List.nil_append,
      utf8DecodeFrom_cons _ _ (by omega), utf8Step, utf8Next_last _ (by omega) (by omega), hcode, hc]
    rfl
  next hv'' =>
    have hcode : ((v / 262144 % 8 * 64 + v / 4096 % 64) * 64 + v / 64 % 64) * 64 + v % 64 = v := by
      omega
    simp only [List.cons_append, List.nil_append]
    rw [utf8DecodeFrom_cons _ _ (by omega), utf8Step, utf8First_four (by omega),
      List.nil_append, utf8DecodeFrom_cons _ _ (by omega), utf8Step,
      utf8Next_more _ _ (by split <;> omega) (by split <;> omega), List.nil_append,
      utf8DecodeFrom_cons _ _ (by omega), utf8Step, utf8Next_more _ _ (by omega) (by omega),
      List.nil_append, utf8DecodeFrom_cons _ _ (by omega), utf8Step,
      utf8Next_last _ (by omega) (by omega), hcode, hc]
    rfl

/-- A text is read back from its bytes. -/
theorem utf8Decode_encode (text : List Char) : utf8Decode (utf8Encode text) = text := by
  induction text with
  | nil => rfl
  | cons c text ih =>
    rw [utf8Encode, List.flatMap_cons, utf8Decode, utf8DecodeFrom_encodeChar]
    exact congrArg (c :: ·) ih

theorem length_utf8Encode_ascii {text : List Char} (h : ∀ c ∈ text, c.toNat < 128) :
    (utf8Encode text).length = text.length := by
  induction text with
  | nil => rfl
  | cons c text ih =>
    rw [List.forall_mem_cons] at h
    have hsize : c.utf8Size = 1 := Char.utf8Size_eq_one_iff.mpr (Nat.le_of_lt_succ h.1)
    have hrest : (text.flatMap String.utf8EncodeChar).length = text.length := ih h.2
    rw [utf8Encode, List.flatMap_cons, List.length_append, String.length_utf8EncodeChar, hsize,
      hrest, List.length_cons, Nat.add_comm]

end CliProxy.Lib
