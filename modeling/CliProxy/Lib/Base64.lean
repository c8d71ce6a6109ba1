import Mathlib.Data.List.Basic

/-! # Base64

A quad of four characters holds three bytes; the last quad may be padded. The bits of a padded
quad that belong to no byte are loose: a decoder drops them, and no encoder sets them. -/

namespace CliProxy.Lib.Base64

/-! ## Characters -/

def isBase64Char (c : Char) : Bool :=
  (65 ≤ c.toNat && c.toNat ≤ 90) || (97 ≤ c.toNat && c.toNat ≤ 122) ||
    (48 ≤ c.toNat && c.toNat ≤ 57) || c = '+' || c = '/'

/-- The six bits of a character. -/
def sextet (c : Char) : Nat :=
  if c.toNat ≤ 43 then 62
  else if c.toNat ≤ 47 then 63
  else if c.toNat ≤ 57 then c.toNat + 4
  else if c.toNat ≤ 90 then c.toNat - 65
  else c.toNat - 71

def base64Char (n : Nat) : Char :=
  Char.ofNat (if n < 26 then n + 65 else if n < 52 then n + 71 else if n < 62 then n - 4
    else if n = 62 then 43 else 47)

theorem sextet_base64Char : ∀ n < 64, sextet (base64Char n) = n := by
  decide

theorem isBase64Char_base64Char : ∀ n < 64, isBase64Char (base64Char n) = true := by
  decide

theorem ascii_sextet : ∀ n < 128, isBase64Char (Char.ofNat n) = true →
    sextet (Char.ofNat n) < 64 ∧ base64Char (sextet (Char.ofNat n)) = Char.ofNat n := by
  decide

theorem isBase64Char_sextet {c : Char} (h : isBase64Char c = true) :
    sextet c < 64 ∧ base64Char (sextet c) = c := by
  have hascii : c.toNat < 128 := by
    simp only [isBase64Char, Bool.or_eq_true, Bool.and_eq_true, decide_eq_true_eq] at h
    rcases h with (((h | h) | h) | rfl) | rfl
    · omega
    · omega
    · omega
    · decide
    · decide
  have hc := ascii_sextet c.toNat hascii
  rw [Char.ofNat_toNat] at hc
  exact hc h

theorem isBase64Char_ne {c : Char} (h : isBase64Char c = true) : c ≠ '=' := by
  rintro rfl
  cases h

/-! ## Quads -/

def encode : List UInt8 → List Char
  | [] => []
  | [x] => [base64Char (x.toNat / 4), base64Char (x.toNat % 4 * 16), '=', '=']
  | [x, y] => [base64Char (x.toNat / 4), base64Char (x.toNat % 4 * 16 + y.toNat / 16),
      base64Char (y.toNat % 16 * 4), '=']
  | x :: y :: z :: bytes =>
    base64Char (x.toNat / 4) :: base64Char (x.toNat % 4 * 16 + y.toNat / 16) ::
      base64Char (y.toNat % 16 * 4 + z.toNat / 64) :: base64Char (z.toNat % 64) :: encode bytes

def decodeQuad (a b c d : Char) : List UInt8 :=
  UInt8.ofNat (sextet a * 4 + sextet b / 16) ::
    if c = '=' then []
    else UInt8.ofNat (sextet b % 16 * 16 + sextet c / 4) ::
      if d = '=' then [] else [UInt8.ofNat (sextet c % 4 * 64 + sextet d)]

def decode : List Char → List UInt8
  | a :: b :: c :: d :: text => decodeQuad a b c d ++ decode text
  | _ => []

/-- The text consists of quads, the last of which may be padded. -/
def isBase64 : List Char → Bool
  | [] => true
  | [a, b, c, d] => isBase64Char a && isBase64Char b &&
      (isBase64Char c && (isBase64Char d || d = '=') || c = '=' && d = '=')
  | a :: b :: c :: d :: text => isBase64Char a && isBase64Char b && isBase64Char c &&
      isBase64Char d && isBase64 text
  | _ => false

/-- The last quad has a bit that belongs to no byte. -/
def looseBits : List Char → Bool
  | [_, b, c, d] =>
    if c = '=' then sextet b % 16 != 0 else d = '=' && sextet c % 4 != 0
  | _ :: _ :: _ :: _ :: text => looseBits text
  | _ => false

theorem encode_quad {a b c d : Char} (ha : isBase64Char a = true) (hb : isBase64Char b = true)
    (hc : isBase64Char c = true) (hd : isBase64Char d = true) (bytes : List UInt8) :
    encode (decodeQuad a b c d ++ bytes) = a :: b :: c :: d :: encode bytes := by
  obtain ⟨ha, hachar⟩ := isBase64Char_sextet ha
  obtain ⟨hb, hbchar⟩ := isBase64Char_sextet hb
  obtain ⟨hc', hcchar⟩ := isBase64Char_sextet hc
  obtain ⟨hd', hdchar⟩ := isBase64Char_sextet hd
  rw [decodeQuad, if_neg (isBase64Char_ne hc), if_neg (isBase64Char_ne hd)]
  simp only [List.cons_append, List.nil_append, encode, UInt8.toNat_ofNat']
  have hx : (sextet a * 4 + sextet b / 16) % 2 ^ 8 = sextet a * 4 + sextet b / 16 := by omega
  have hy : (sextet b % 16 * 16 + sextet c / 4) % 2 ^ 8 = sextet b % 16 * 16 + sextet c / 4 := by
    omega
  have hz : (sextet c % 4 * 64 + sextet d) % 2 ^ 8 = sextet c % 4 * 64 + sextet d := by omega
  have e₁ : (sextet a * 4 + sextet b / 16) / 4 = sextet a := by omega
  have e₂ : (sextet a * 4 + sextet b / 16) % 4 * 16 + (sextet b % 16 * 16 + sextet c / 4) / 16 =
    sextet b := by omega
  have e₃ : (sextet b % 16 * 16 + sextet c / 4) % 16 * 4 + (sextet c % 4 * 64 + sextet d) / 64 =
    sextet c := by omega
  have e₄ : (sextet c % 4 * 64 + sextet d) % 64 = sextet d := by omega
  rw [hx, hy, hz, e₁, e₂, e₃, e₄, hachar, hbchar, hcchar, hdchar]

theorem encode_pad {a b c : Char} (ha : isBase64Char a = true) (hb : isBase64Char b = true)
    (hc : isBase64Char c = true) :
    encode (decodeQuad a b c '=') = [a, b, c, '='] ↔ sextet c % 4 = 0 := by
  obtain ⟨ha, hachar⟩ := isBase64Char_sextet ha
  obtain ⟨hb, hbchar⟩ := isBase64Char_sextet hb
  obtain ⟨hc', hcchar⟩ := isBase64Char_sextet hc
  rw [decodeQuad, if_neg (isBase64Char_ne hc), if_pos rfl]
  simp only [encode, UInt8.toNat_ofNat']
  have hx : (sextet a * 4 + sextet b / 16) % 2 ^ 8 = sextet a * 4 + sextet b / 16 := by omega
  have hy : (sextet b % 16 * 16 + sextet c / 4) % 2 ^ 8 = sextet b % 16 * 16 + sextet c / 4 := by
    omega
  have e₁ : (sextet a * 4 + sextet b / 16) / 4 = sextet a := by omega
  have e₂ : (sextet a * 4 + sextet b / 16) % 4 * 16 + (sextet b % 16 * 16 + sextet c / 4) / 16 =
    sextet b := by omega
  rw [hx, hy, e₁, e₂, hachar, hbchar]
  simp only [List.cons.injEq, true_and, and_true]
  constructor
  · intro h
    have hsextet := congrArg sextet h
    rw [sextet_base64Char _ (by omega)] at hsextet
    omega
  · intro h
    have e₃ : (sextet b % 16 * 16 + sextet c / 4) % 16 * 4 = sextet c := by omega
    rw [e₃, hcchar]

theorem encode_pad₂ {a b d : Char} (ha : isBase64Char a = true) (hb : isBase64Char b = true) :
    encode (decodeQuad a b '=' d) = [a, b, '=', '='] ↔ sextet b % 16 = 0 := by
  obtain ⟨ha, hachar⟩ := isBase64Char_sextet ha
  obtain ⟨hb, hbchar⟩ := isBase64Char_sextet hb
  rw [decodeQuad, if_pos rfl]
  simp only [encode, UInt8.toNat_ofNat']
  have hx : (sextet a * 4 + sextet b / 16) % 2 ^ 8 = sextet a * 4 + sextet b / 16 := by omega
  have e₁ : (sextet a * 4 + sextet b / 16) / 4 = sextet a := by omega
  rw [hx, e₁, hachar]
  simp only [List.cons.injEq, true_and, and_true]
  constructor
  · intro h
    have hsextet := congrArg sextet h
    rw [sextet_base64Char _ (by omega)] at hsextet
    omega
  · intro h
    have e₂ : (sextet a * 4 + sextet b / 16) % 4 * 16 = sextet b := by omega
    rw [e₂, hbchar]

/-! ## Round trips -/

/-- Decoding loses exactly the loose bits. -/
theorem encode_decode_iff {text : List Char} (h : isBase64 text = true) :
    encode (decode text) = text ↔ looseBits text = false := by
  induction text using isBase64.induct with
  | case1 => exact iff_of_true rfl rfl
  | case2 a b c d =>
    simp only [isBase64, Bool.and_eq_true, Bool.or_eq_true, decide_eq_true_eq] at h
    obtain ⟨⟨ha, hb⟩, ⟨hc, hd⟩ | ⟨rfl, rfl⟩⟩ := h
    · rcases hd with hd | rfl
      · refine iff_of_true (encode_quad ha hb hc hd []) ?_
        simp [looseBits, isBase64Char_ne hc, isBase64Char_ne hd]
      · simpa [decode, looseBits, isBase64Char_ne hc] using encode_pad ha hb hc
    · simpa [decode, looseBits] using encode_pad₂ ha hb
  | case3 a b c d text hne ih =>
    cases text with
    | nil => exact absurd rfl hne
    | cons e text =>
      simp only [isBase64, Bool.and_eq_true] at h
      obtain ⟨⟨⟨⟨ha, hb⟩, hc⟩, hd⟩, htext⟩ := h
      rw [decode, encode_quad ha hb hc hd, looseBits, ← ih htext]
      · simp only [List.cons.injEq, true_and]
      · exact fun h => List.cons_ne_nil _ _ h
  | case4 text h₁ h₂ h₃ =>
    rw [isBase64.eq_4 text h₁ h₂ h₃] at h
    cases h

theorem decodeQuad_encode (x y z : UInt8) :
    decodeQuad (base64Char (x.toNat / 4)) (base64Char (x.toNat % 4 * 16 + y.toNat / 16))
      (base64Char (y.toNat % 16 * 4 + z.toNat / 64)) (base64Char (z.toNat % 64)) = [x, y, z] := by
  have hx := x.toNat_lt
  have hy := y.toNat_lt
  have hz := z.toNat_lt
  have hc := isBase64Char_base64Char (y.toNat % 16 * 4 + z.toNat / 64) (by omega)
  have hd := isBase64Char_base64Char (z.toNat % 64) (by omega)
  rw [decodeQuad, if_neg (isBase64Char_ne hc), if_neg (isBase64Char_ne hd),
    sextet_base64Char _ (by omega), sextet_base64Char _ (by omega),
    sextet_base64Char _ (by omega), sextet_base64Char _ (by omega)]
  simp only [List.cons.injEq, and_true]
  refine ⟨UInt8.toNat_inj.mp ?_, UInt8.toNat_inj.mp ?_, UInt8.toNat_inj.mp ?_⟩ <;>
    rw [UInt8.toNat_ofNat'] <;> omega

theorem decode_encode (bytes : List UInt8) : decode (encode bytes) = bytes := by
  induction bytes using encode.induct with
  | case1 => rfl
  | case2 x =>
    have hx := x.toNat_lt
    simp only [encode, decode, decodeQuad, if_true, List.append_nil, List.cons.injEq, and_true]
    rw [sextet_base64Char _ (by omega), sextet_base64Char _ (by omega)]
    apply UInt8.toNat_inj.mp
    rw [UInt8.toNat_ofNat']
    omega
  | case3 x y =>
    have hx := x.toNat_lt
    have hy := y.toNat_lt
    have hc := isBase64Char_base64Char (y.toNat % 16 * 4) (by omega)
    simp only [encode, decode, decodeQuad, if_true, if_neg (isBase64Char_ne hc), List.append_nil,
      List.cons.injEq, and_true]
    rw [sextet_base64Char _ (by omega), sextet_base64Char _ (by omega),
      sextet_base64Char _ (by omega)]
    refine ⟨UInt8.toNat_inj.mp ?_, UInt8.toNat_inj.mp ?_⟩ <;> rw [UInt8.toNat_ofNat'] <;> omega
  | case4 x y z bytes ih =>
    rw [encode, decode, decodeQuad_encode, ih]
    rfl

/-- A text is what an encoder writes exactly if decoding it and encoding it again gives it back. -/
theorem exists_encode_eq {text : List Char} :
    (∃ bytes, encode bytes = text) ↔ encode (decode text) = text := by
  constructor
  · rintro ⟨bytes, rfl⟩
    rw [decode_encode]
  · exact fun h => ⟨_, h⟩

theorem isBase64_encode (bytes : List UInt8) : isBase64 (encode bytes) = true := by
  induction bytes using encode.induct with
  | case1 => rfl
  | case2 x =>
    have hx := x.toNat_lt
    simp [encode, isBase64, isBase64Char_base64Char (x.toNat / 4) (by omega),
      isBase64Char_base64Char (x.toNat % 4 * 16) (by omega)]
  | case3 x y =>
    have hx := x.toNat_lt
    have hy := y.toNat_lt
    simp [encode, isBase64, isBase64Char_base64Char (x.toNat / 4) (by omega),
      isBase64Char_base64Char (x.toNat % 4 * 16 + y.toNat / 16) (by omega),
      isBase64Char_base64Char (y.toNat % 16 * 4) (by omega)]
  | case4 x y z bytes ih =>
    have hx := x.toNat_lt
    have hy := y.toNat_lt
    have hz := z.toNat_lt
    have ha := isBase64Char_base64Char (x.toNat / 4) (by omega)
    have hb := isBase64Char_base64Char (x.toNat % 4 * 16 + y.toNat / 16) (by omega)
    have hc := isBase64Char_base64Char (y.toNat % 16 * 4 + z.toNat / 64) (by omega)
    have hd := isBase64Char_base64Char (z.toNat % 64) (by omega)
    rw [encode]
    cases htext : encode bytes with
    | nil => simp [isBase64, ha, hb, hc, hd]
    | cons e text => simp [isBase64, ha, hb, hc, hd, ← htext, ih]

theorem decode_eq_nil {text : List Char} (h : isBase64 text = true) :
    decode text = [] ↔ text = [] := by
  cases text using isBase64.fun_cases with
  | case1 => exact iff_of_true rfl rfl
  | case2 a b c d => simp [decode, decodeQuad]
  | case3 a b c d text hne => simp [decode, decodeQuad]
  | case4 text h₁ h₂ h₃ =>
    rw [isBase64.eq_4 text h₁ h₂ h₃] at h
    cases h

/-! ## The text as a whole -/

/-- Characters of the alphabet and then at most two paddings. -/
def isPadded (text : List Char) : Bool :=
  ([[], ['='], ['=', '=']] : List (List Char)).contains (text.dropWhile isBase64Char)

theorem isBase64_eq (text : List Char) :
    isBase64 text = (text.length % 4 == 0 && isPadded text) := by
  induction text using isBase64.induct with
  | case1 => rfl
  | case2 a b c d =>
    cases ha : isBase64Char a with
    | false => simp [isPadded, isBase64, ha]
    | true =>
      cases hb : isBase64Char b with
      | false => simp [isPadded, isBase64, ha, hb]
      | true =>
        cases hc : isBase64Char c with
        | false => simp [isPadded, isBase64, ha, hb, hc]
        | true =>
          cases hd : isBase64Char d <;>
            simp [isPadded, isBase64, ha, hb, hc, hd, isBase64Char_ne hc]
  | case3 a b c d text hne ih =>
    obtain ⟨e, text, rfl⟩ := List.exists_cons_of_ne_nil hne
    have hlength : (a :: b :: c :: d :: e :: text).length % 4 = (e :: text).length % 4 := by
      simp only [List.length_cons]
      omega
    rw [isBase64, ih, isPadded, isPadded, hlength]
    · cases ha : isBase64Char a with
      | false => simp [ha]
      | true =>
        cases hb : isBase64Char b with
        | false => simp [ha, hb]
        | true =>
          cases hc : isBase64Char c with
          | false => simp [ha, hb, hc]
          | true =>
            cases hd : isBase64Char d with
            | false =>
              simp only [List.dropWhile_cons, ha, hb, hc, hd]
              -- A second padding after `d` would be the last character of five.
              cases text <;> simp
            | true => simp [ha, hb, hc, hd]
    · exact List.cons_ne_nil _ _
  | case4 text h₁ h₂ h₃ =>
    rw [isBase64.eq_4 text h₁ h₂ h₃, eq_comm, Bool.and_eq_false_imp]
    intro h
    match text with
    | [] => exact absurd rfl h₁
    | [_] | [_, _] | [_, _, _] => cases h
    | a :: b :: c :: d :: text => exact absurd rfl (h₃ a b c d text)

end CliProxy.Lib.Base64
