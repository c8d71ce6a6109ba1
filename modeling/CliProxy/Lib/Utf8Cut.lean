import CliProxy.Lib.Utf8
import Mathlib

/-! # Cutting UTF-8 between characters -/

namespace CliProxy.Lib

/-- A byte that is not the first one of a character. -/
def isContinuation (b : UInt8) : Bool := b &&& 0xc0 == 0x80

/-- `while (end > 0 && (bytes[end] & 0xc0) === 0x80) end--` -/
def boundary (bytes : List UInt8) : Nat → Nat
  | 0 => 0
  | e + 1 => if isContinuation (bytes.getD (e + 1) 0) then boundary bytes e else e + 1

theorem isContinuation_ofNat : ∀ n < 256,
    isContinuation (UInt8.ofNat n) = decide (0x80 ≤ n ∧ n < 0xc0) := by decide +kernel

/-- A character is encoded as a first byte and continuation bytes. -/
theorem utf8EncodeChar_bytes (c : Char) : ∃ b rest, String.utf8EncodeChar c = b :: rest ∧
    isContinuation b = false ∧ ∀ b' ∈ rest, isContinuation b' = true := by
  have hvalid : c.toNat < 0xd800 ∨ 0xdfff < c.toNat ∧ c.toNat < 0x110000 := c.valid
  have hval : c.val.toNat = c.toNat := rfl
  have hfirst {n : Nat} (hn : n < 256) (h : ¬ (0x80 ≤ n ∧ n < 0xc0)) :
      isContinuation (UInt8.ofNat n) = false := by rw [isContinuation_ofNat n hn, decide_eq_false h]
  have hnext {n : Nat} (h : 0x80 ≤ n ∧ n < 0xc0) : isContinuation (UInt8.ofNat n) = true := by
    rw [isContinuation_ofNat n (by omega), decide_eq_true h]
  unfold String.utf8EncodeChar
  rw [hval]
  generalize c.toNat = v at hvalid
  dsimp only
  split
  next => exact ⟨_, _, rfl, hfirst (by omega) (by omega), List.forall_mem_nil _⟩
  next =>
  split
  next =>
    refine ⟨_, _, rfl, hfirst (by omega) (by omega), ?_⟩
    exact List.forall_mem_singleton.mpr (hnext (by omega))
  next =>
  split
  next =>
    refine ⟨_, _, rfl, hfirst (by omega) (by omega), ?_⟩
    exact List.forall_mem_cons.mpr ⟨hnext (by omega), List.forall_mem_singleton.mpr (hnext (by omega))⟩
  next =>
    refine ⟨_, _, rfl, hfirst (by omega) (by omega), ?_⟩
    exact List.forall_mem_cons.mpr ⟨hnext (by omega), List.forall_mem_cons.mpr
      ⟨hnext (by omega), List.forall_mem_singleton.mpr (hnext (by omega))⟩⟩

/-- Within the first character. -/
theorem boundary_within {b : UInt8} {rest bytes : List UInt8}
    (hrest : ∀ b' ∈ rest, isContinuation b' = true) {e : Nat} (he : e ≤ rest.length) :
    boundary (b :: (rest ++ bytes)) e = 0 := by
  induction e with
  | zero => rfl
  | succ e ih =>
    have hlt : e < rest.length := he
    have hbyte : (b :: (rest ++ bytes)).getD (e + 1) 0 = rest[e] := by
      rw [List.getD_cons_succ, List.getD_append _ _ _ _ hlt, List.getD_eq_getElem _ _ hlt]
    rw [boundary, hbyte, if_pos (hrest _ (List.getElem_mem hlt)), ih (Nat.le_of_succ_le he)]

/-- After the first character, unless the text ends there. -/
theorem boundary_after {first bytes : List UInt8} (hfirst : first ≠ [])
    (hbytes : isContinuation (bytes.getD 0 0) = false) (e : Nat) :
    boundary (first ++ bytes) (first.length + e) = first.length + boundary bytes e := by
  have hget (k : Nat) : (first ++ bytes).getD (first.length + k) 0 = bytes.getD k 0 := by
    rw [List.getD_append_right _ _ _ _ (Nat.le_add_right _ _), Nat.add_sub_cancel_left]
  induction e with
  | zero =>
    cases hlength : first.length with
    | zero => exact absurd (List.length_eq_zero_iff.mp hlength) hfirst
    | succ n =>
      have hbyte := hget 0
      rw [hlength, Nat.add_zero] at hbyte
      show (if isContinuation ((first ++ bytes).getD (n + 1) 0) then _ else n + 1) = n + 1
      rw [hbyte, hbytes]
      rfl
  | succ e ih =>
    rw [← Nat.add_assoc, boundary, Nat.add_assoc, hget (e + 1), boundary]
    split
    · exact ih
    · rfl

theorem isContinuation_utf8Encode (text : List Char) :
    isContinuation ((utf8Encode text).getD 0 0) = false := by
  cases text with
  | nil => decide
  | cons c text =>
    obtain ⟨b, rest, hc, hb, -⟩ := utf8EncodeChar_bytes c
    rw [utf8Encode, List.flatMap_cons, hc]
    exact hb

/-- The longest part of the text, from its beginning, that fits. -/
structure Cut (text kept : List Char) (e : Nat) : Prop where
  isPrefix : kept <+: text
  fits : (utf8Encode kept).length ≤ e
  longest : ∀ c, kept ++ [c] <+: text → e < (utf8Encode (kept ++ [c])).length

/-- Backing off from a place in the bytes leaves the longest part of the text before it. -/
theorem boundary_utf8Encode (text : List Char) {e : Nat} (he : e < (utf8Encode text).length) :
    ∃ kept, Cut text kept e ∧ boundary (utf8Encode text) e = (utf8Encode kept).length := by
  induction text generalizing e with
  | nil => exact absurd he (Nat.not_lt_zero e)
  | cons c text ih =>
    obtain ⟨b, rest, hc, -, hrest⟩ := utf8EncodeChar_bytes c
    have hencode (t : List Char) : utf8Encode (c :: t) = b :: rest ++ utf8Encode t := by
      rw [utf8Encode, List.flatMap_cons, hc]
      rfl
    by_cases hwithin : e ≤ rest.length
    · refine ⟨[], ⟨List.nil_prefix, Nat.zero_le e, fun d hd => ?_⟩, ?_⟩
      · rw [List.nil_append, (List.cons_prefix_cons.mp hd).1, hencode, List.length_append,
          List.length_cons]
        omega
      · rw [hencode]
        exact boundary_within hrest hwithin
    · obtain ⟨k, rfl⟩ : ∃ k, e = (b :: rest).length + k :=
        Nat.exists_eq_add_of_le (Nat.lt_of_not_le hwithin)
      rw [hencode, List.length_append] at he
      obtain ⟨kept, hcut, hboundary⟩ := ih (Nat.lt_of_add_lt_add_left he)
      refine ⟨c :: kept, ⟨List.cons_prefix_cons.mpr ⟨rfl, hcut.isPrefix⟩, ?_, fun d hd => ?_⟩, ?_⟩
      · rw [hencode, List.length_append]
        exact Nat.add_le_add_left hcut.fits _
      · have := hcut.longest d (List.cons_prefix_cons.mp hd).2
        rw [List.cons_append, hencode, List.length_append]
        exact Nat.add_lt_add_left this _
      · rw [hencode, boundary_after (List.cons_ne_nil b rest) (isContinuation_utf8Encode text),
          hboundary, hencode, List.length_append]

theorem Cut.take {text kept : List Char} {e : Nat} (H : Cut text kept e) :
    (utf8Encode text).take (utf8Encode kept).length = utf8Encode kept := by
  obtain ⟨rest, rfl⟩ := H.isPrefix
  have happend : utf8Encode (kept ++ rest) = utf8Encode kept ++ utf8Encode rest :=
    List.flatMap_append
  rw [happend, List.take_left]

end CliProxy.Lib
