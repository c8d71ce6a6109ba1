import Mathlib.Data.String.Basic
import Mathlib.Tactic.Linarith

/-! # Hexadecimal numbers as text

Numbers in lower case with equally many digits are ordered as their texts are, whatever follows
them. -/

namespace CliProxy.Lib

def isLowerHex (c : Char) : Bool :=
  (48 ≤ c.toNat && c.toNat ≤ 57) || (97 ≤ c.toNat && c.toNat ≤ 102)

/-- The value of a digit in lower case. -/
def hexDigitValue (c : Char) : Nat := if c.toNat ≤ 57 then c.toNat - 48 else c.toNat - 87

def hexValue : List Char → Nat
  | [] => 0
  | c :: text => hexDigitValue c * 16 ^ text.length + hexValue text

/-- The digit of a value below 16. -/
def hexDigit (n : Nat) : Char := Char.ofNat (if n < 10 then n + 48 else n + 87)

/-- The last `k` digits of a number. -/
def hexText : Nat → Nat → List Char
  | 0, _ => []
  | k + 1, n => hexText k (n / 16) ++ [hexDigit (n % 16)]

/-! ## Values -/

theorem hexDigitValue_lt {c : Char} (h : isLowerHex c = true) : hexDigitValue c < 16 := by
  simp only [isLowerHex, Bool.or_eq_true, Bool.and_eq_true, decide_eq_true_eq] at h
  unfold hexDigitValue
  split <;> omega

theorem hexValue_append (a b : List Char) :
    hexValue (a ++ b) = hexValue a * 16 ^ b.length + hexValue b := by
  induction a with
  | nil => simp [hexValue]
  | cons c a ih =>
    simp only [List.cons_append, hexValue, ih, List.length_append, pow_add]
    rw [Nat.add_mul, Nat.mul_assoc, Nat.add_assoc]

theorem hexValue_lt {a : List Char} (h : ∀ c ∈ a, isLowerHex c = true) :
    hexValue a < 16 ^ a.length := by
  induction a with
  | nil => exact Nat.one_pos
  | cons c a ih =>
    rw [List.forall_mem_cons] at h
    have hc := hexDigitValue_lt h.1
    have ha := ih h.2
    have hmul : (hexDigitValue c + 1) * 16 ^ a.length ≤ 16 * 16 ^ a.length :=
      Nat.mul_le_mul_right _ hc
    rw [hexValue, List.length_cons, pow_succ]
    linarith

/-! ## Order -/

theorem lt_of_hexDigitValue_lt {c d : Char} (hc : isLowerHex c = true) (hd : isLowerHex d = true)
    (h : hexDigitValue c < hexDigitValue d) : c < d := by
  simp only [isLowerHex, Bool.or_eq_true, Bool.and_eq_true, decide_eq_true_eq] at hc hd
  have hlt : c.toNat < d.toNat := by
    unfold hexDigitValue at h
    split at h <;> split at h <;> omega
  exact hlt

theorem eq_of_hexDigitValue_eq {c d : Char} (hc : isLowerHex c = true) (hd : isLowerHex d = true)
    (h : hexDigitValue c = hexDigitValue d) : c = d := by
  simp only [isLowerHex, Bool.or_eq_true, Bool.and_eq_true, decide_eq_true_eq] at hc hd
  have heq : c.toNat = d.toNat := by
    unfold hexDigitValue at h
    split at h <;> split at h <;> omega
  exact Char.toNat_inj.mp heq

theorem hexValue_inj {a b : List Char} (hlength : a.length = b.length)
    (ha : ∀ c ∈ a, isLowerHex c = true) (hb : ∀ c ∈ b, isLowerHex c = true)
    (h : hexValue a = hexValue b) : a = b := by
  induction a generalizing b with
  | nil => exact (List.length_eq_zero_iff.mp hlength.symm).symm
  | cons c a ih =>
    cases b with
    | nil => exact absurd hlength (Nat.succ_ne_zero _)
    | cons d b =>
      rw [List.forall_mem_cons] at ha hb
      have hlength' := Nat.succ.inj hlength
      have hlt := hexValue_lt ha.2
      have hlt' := hexValue_lt hb.2
      rw [hexValue, hexValue, hlength'] at h
      rw [hlength'] at hlt
      have hdigits : hexDigitValue c = hexDigitValue d := by
        by_contra hne
        obtain hcd | hdc := Nat.lt_or_gt_of_ne hne
        · have := Nat.mul_le_mul_right (16 ^ b.length) hcd
          rw [Nat.succ_mul] at this
          omega
        · have := Nat.mul_le_mul_right (16 ^ b.length) hdc
          rw [Nat.succ_mul] at this
          omega
      rw [hdigits] at h
      rw [eq_of_hexDigitValue_eq ha.1 hb.1 hdigits, ih hlength' ha.2 hb.2 (Nat.add_left_cancel h)]

theorem append_lt_of_hexValue_lt {a b : List Char} (hlength : a.length = b.length)
    (ha : ∀ c ∈ a, isLowerHex c = true) (hb : ∀ c ∈ b, isLowerHex c = true)
    (h : hexValue a < hexValue b) (x y : List Char) : a ++ x < b ++ y := by
  induction a generalizing b with
  | nil =>
    obtain rfl := List.length_eq_zero_iff.mp hlength.symm
    exact absurd h (Nat.lt_irrefl _)
  | cons c a ih =>
    cases b with
    | nil => exact absurd hlength (Nat.succ_ne_zero _)
    | cons d b =>
      rw [List.forall_mem_cons] at ha hb
      have hlength' := Nat.succ.inj hlength
      have hlt := hexValue_lt hb.2
      rw [hexValue, hexValue, hlength'] at h
      obtain hcd | hcd | hdc := Nat.lt_trichotomy (hexDigitValue c) (hexDigitValue d)
      · exact .rel (lt_of_hexDigitValue_lt ha.1 hb.1 hcd)
      · obtain rfl := eq_of_hexDigitValue_eq ha.1 hb.1 hcd
        exact .cons (ih hlength' ha.2 hb.2 (Nat.lt_of_add_lt_add_left h))
      · have := Nat.mul_le_mul_right (16 ^ b.length) hdc
        rw [Nat.succ_mul] at this
        omega

/-! ## Texts -/

theorem hexDigit_spec : ∀ n < 16, isLowerHex (hexDigit n) = true ∧
    hexDigitValue (hexDigit n) = n := by decide

@[simp] theorem hexText_length (k n : Nat) : (hexText k n).length = k := by
  induction k generalizing n with
  | zero => rfl
  | succ k ih => rw [hexText, List.length_append, ih, List.length_singleton]

theorem isLowerHex_hexText (k n : Nat) : ∀ c ∈ hexText k n, isLowerHex c = true := by
  induction k generalizing n with
  | zero => exact fun _ h => absurd h List.not_mem_nil
  | succ k ih =>
    intro c hc
    obtain hc | hc := List.mem_append.mp hc
    · exact ih (n / 16) c hc
    · obtain rfl := List.mem_singleton.mp hc
      exact (hexDigit_spec (n % 16) (Nat.mod_lt n (by decide))).1

theorem hexValue_hexText (k n : Nat) (h : n < 16 ^ k) : hexValue (hexText k n) = n := by
  induction k generalizing n with
  | zero => exact (Nat.lt_one_iff.mp h).symm
  | succ k ih =>
    rw [pow_succ] at h
    have hdigit := (hexDigit_spec (n % 16) (Nat.mod_lt n (by decide))).2
    have hdiv := ih (n / 16) (Nat.div_lt_of_lt_mul (by rwa [Nat.mul_comm] at h))
    rw [hexText, hexValue_append, hdiv, List.length_singleton]
    simp only [hexValue, hdigit, List.length_nil]
    omega

end CliProxy.Lib
