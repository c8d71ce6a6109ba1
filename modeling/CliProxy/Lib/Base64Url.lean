import CliProxy.Lib.Base64

/-! # Base64 for URLs

The alphabet with `-` and `_`, and no padding. A decoder also reads the standard alphabet; it drops
a last character that holds no byte. -/

namespace CliProxy.Lib.Base64

def urlChar (c : Char) : Char := if c = '+' then '-' else if c = '/' then '_' else c

def standardChar (c : Char) : Char := if c = '-' then '+' else if c = '_' then '/' else c

/-- `[A-Za-z0-9_-]` -/
def isUrlChar (c : Char) : Bool :=
  (65 ≤ c.toNat && c.toNat ≤ 90) || (97 ≤ c.toNat && c.toNat ≤ 122) ||
    (48 ≤ c.toNat && c.toNat ≤ 57) || c = '_' || c = '-'

def encodeUrl : List UInt8 → List Char
  | [] => []
  | [x] => [urlChar (base64Char (x.toNat / 4)), urlChar (base64Char (x.toNat % 4 * 16))]
  | [x, y] => [urlChar (base64Char (x.toNat / 4)),
      urlChar (base64Char (x.toNat % 4 * 16 + y.toNat / 16)),
      urlChar (base64Char (y.toNat % 16 * 4))]
  | x :: y :: z :: bytes =>
    urlChar (base64Char (x.toNat / 4)) :: urlChar (base64Char (x.toNat % 4 * 16 + y.toNat / 16)) ::
      urlChar (base64Char (y.toNat % 16 * 4 + z.toNat / 64)) ::
      urlChar (base64Char (z.toNat % 64)) :: encodeUrl bytes

def decodeUrl : List Char → List UInt8
  | a :: b :: c :: d :: text =>
    decodeQuad (standardChar a) (standardChar b) (standardChar c) (standardChar d) ++ decodeUrl text
  | [a, b, c] => decodeQuad (standardChar a) (standardChar b) (standardChar c) '='
  | [a, b] => decodeQuad (standardChar a) (standardChar b) '=' '='
  | _ => []

theorem url_base64Char : ∀ n < 64, standardChar (urlChar (base64Char n)) = base64Char n ∧
    isUrlChar (urlChar (base64Char n)) = true := by
  decide

theorem decodeUrl_encodeUrl (bytes : List UInt8) : decodeUrl (encodeUrl bytes) = bytes := by
  induction bytes using encodeUrl.induct with
  | case1 => rfl
  | case2 x =>
    have hx := x.toNat_lt
    rw [encodeUrl, decodeUrl, (url_base64Char _ (by omega)).1, (url_base64Char _ (by omega)).1]
    exact decode_encode [x]
  | case3 x y =>
    have hx := x.toNat_lt
    have hy := y.toNat_lt
    rw [encodeUrl, decodeUrl, (url_base64Char _ (by omega)).1, (url_base64Char _ (by omega)).1,
      (url_base64Char _ (by omega)).1]
    exact (List.append_nil _).symm.trans (decode_encode [x, y])
  | case4 x y z bytes ih =>
    have hx := x.toNat_lt
    have hy := y.toNat_lt
    have hz := z.toNat_lt
    rw [encodeUrl, decodeUrl, (url_base64Char _ (by omega)).1, (url_base64Char _ (by omega)).1,
      (url_base64Char _ (by omega)).1, (url_base64Char _ (by omega)).1, decodeQuad_encode, ih]
    rfl

theorem isUrlChar_encodeUrl (bytes : List UInt8) : ∀ c ∈ encodeUrl bytes, isUrlChar c = true := by
  induction bytes using encodeUrl.induct with
  | case1 => exact List.forall_mem_nil _
  | case2 x =>
    have hx := x.toNat_lt
    simp only [encodeUrl, List.forall_mem_cons]
    exact ⟨(url_base64Char _ (by omega)).2, (url_base64Char _ (by omega)).2, List.forall_mem_nil _⟩
  | case3 x y =>
    have hx := x.toNat_lt
    have hy := y.toNat_lt
    simp only [encodeUrl, List.forall_mem_cons]
    exact ⟨(url_base64Char _ (by omega)).2, (url_base64Char _ (by omega)).2,
      (url_base64Char _ (by omega)).2, List.forall_mem_nil _⟩
  | case4 x y z bytes ih =>
    have hx := x.toNat_lt
    have hy := y.toNat_lt
    have hz := z.toNat_lt
    simp only [encodeUrl, List.forall_mem_cons]
    exact ⟨(url_base64Char _ (by omega)).2, (url_base64Char _ (by omega)).2,
      (url_base64Char _ (by omega)).2, (url_base64Char _ (by omega)).2, ih⟩

theorem length_encodeUrl (bytes : List UInt8) :
    (encodeUrl bytes).length = (4 * bytes.length + 2) / 3 := by
  induction bytes using encodeUrl.induct with
  | case1 => rfl
  | case2 x => rw [encodeUrl, List.length_cons, List.length_singleton, List.length_singleton]
  | case3 x y => simp [encodeUrl]
  | case4 x y z bytes ih =>
    simp only [encodeUrl, List.length_cons, ih]
    omega

end CliProxy.Lib.Base64
