/-
Standard base64 with padding, as the engine `STANDARD` of the crate encodes and
decodes it: four digits for three bytes, the last group padded, and no bits left
over that are not zero.
-/
import RlnGifter.Lp

namespace RlnGifter

namespace Platform

/-- A digit of the alphabet. -/
def base64Digit (n : Nat) : Char :=
  if n < 26 then Char.ofNat (65 + n)
  else if n < 52 then Char.ofNat (71 + n)
  else if n < 62 then Char.ofNat (n - 4)
  else if n = 62 then '+' else '/'

/-- The value of a digit. -/
def base64Value (c : Char) : Option Nat :=
  if 65 ≤ c.toNat ∧ c.toNat ≤ 90 then some (c.toNat - 65)
  else if 97 ≤ c.toNat ∧ c.toNat ≤ 122 then some (c.toNat - 71)
  else if 48 ≤ c.toNat ∧ c.toNat ≤ 57 then some (c.toNat + 4)
  else if c = '+' then some 62
  else if c = '/' then some 63
  else none

theorem base64Value_digit : ∀ n < 64, base64Value (base64Digit n) = some n ∧
    base64Digit n ≠ '=' := by
  decide

def base64Chars : List UInt8 → List Char
  | [] => []
  | [a] => [base64Digit (a.toNat / 4), base64Digit (a.toNat % 4 * 16), '=', '=']
  | [a, b] => [base64Digit (a.toNat / 4), base64Digit (a.toNat % 4 * 16 + b.toNat / 16),
      base64Digit (b.toNat % 16 * 4), '=']
  | a :: b :: c :: rest =>
      base64Digit (a.toNat / 4) :: base64Digit (a.toNat % 4 * 16 + b.toNat / 16) ::
        base64Digit (b.toNat % 16 * 4 + c.toNat / 64) :: base64Digit (c.toNat % 64) ::
          base64Chars rest

/-- The bytes of the last group, which may be padded. -/
def base64Last (w x y z : Char) : Option (List UInt8) := do
  let w ← base64Value w
  let x ← base64Value x
  if y = '=' then
    if z = '=' ∧ x % 16 = 0 then some [UInt8.ofNat (w * 4 + x / 16)] else none
  else
    let y ← base64Value y
    if z = '=' then
      if y % 4 = 0 then
        some [UInt8.ofNat (w * 4 + x / 16), UInt8.ofNat (x % 16 * 16 + y / 4)]
      else none
    else
      let z ← base64Value z
      some [UInt8.ofNat (w * 4 + x / 16), UInt8.ofNat (x % 16 * 16 + y / 4),
        UInt8.ofNat (y % 4 * 64 + z)]

/-- The bytes of a group that others follow. -/
def base64Group (w x y z : Char) : Option (List UInt8) := do
  let w ← base64Value w
  let x ← base64Value x
  let y ← base64Value y
  let z ← base64Value z
  some [UInt8.ofNat (w * 4 + x / 16), UInt8.ofNat (x % 16 * 16 + y / 4),
    UInt8.ofNat (y % 4 * 64 + z)]

def base64Bytes : List Char → Option (List UInt8)
  | [] => some []
  | [w, x, y, z] => base64Last w x y z
  | w :: x :: y :: z :: rest => do
      let bytes ← base64Group w x y z
      let more ← base64Bytes rest
      some (bytes ++ more)
  | _ => none

theorem base64Value_of_lt {n : Nat} (h : n < 64) : base64Value (base64Digit n) = some n :=
  (base64Value_digit n h).1

theorem base64Digit_ne_pad {n : Nat} (h : n < 64) : base64Digit n ≠ '=' :=
  (base64Value_digit n h).2

theorem ofNat_eq {n : Nat} {b : UInt8} (h : n = b.toNat) : UInt8.ofNat n = b := by
  rw [h, UInt8.ofNat_toNat]

/-- The three bytes of four digits. -/
theorem base64Group_digits (a b c : UInt8) :
    base64Group (base64Digit (a.toNat / 4)) (base64Digit (a.toNat % 4 * 16 + b.toNat / 16))
      (base64Digit (b.toNat % 16 * 4 + c.toNat / 64)) (base64Digit (c.toNat % 64)) =
        some [a, b, c] := by
  have ha := a.toNat_lt
  have hb := b.toNat_lt
  have hc := c.toNat_lt
  simp only [base64Group, base64Value_of_lt (show a.toNat / 4 < 64 by omega),
    base64Value_of_lt (show a.toNat % 4 * 16 + b.toNat / 16 < 64 by omega),
    base64Value_of_lt (show b.toNat % 16 * 4 + c.toNat / 64 < 64 by omega),
    base64Value_of_lt (show c.toNat % 64 < 64 by omega), Option.bind_eq_bind,
    Option.bind_some, Option.some.injEq, List.cons.injEq, and_true]
  exact ⟨ofNat_eq (by omega), ofNat_eq (by omega), ofNat_eq (by omega)⟩

theorem base64Last_of_group {w x y z : Char} (hy : y ≠ '=') (hz : z ≠ '=') :
    base64Last w x y z = base64Group w x y z := by
  simp only [base64Last, base64Group, if_neg hy, if_neg hz]

theorem base64Chars_eq_nil {bytes : List UInt8} (h : base64Chars bytes = []) :
    bytes = [] := by
  unfold base64Chars at h
  split at h
  · rfl
  · cases h
  · cases h
  · cases h

theorem base64Bytes_cons {w x y z : Char} {rest : List Char} (h : rest ≠ []) :
    base64Bytes (w :: x :: y :: z :: rest) = (base64Group w x y z).bind fun bytes =>
      (base64Bytes rest).bind fun more => some (bytes ++ more) := by
  cases rest with
  | nil => exact absurd rfl h
  | cons c rest => rfl

/-- What was encoded decodes. -/
theorem base64Bytes_chars (bytes : List UInt8) :
    base64Bytes (base64Chars bytes) = some bytes := by
  induction bytes using base64Chars.induct with
  | case1 => rfl
  | case2 a =>
      have ha := a.toNat_lt
      simp only [base64Chars, base64Bytes, base64Last,
        base64Value_of_lt (show a.toNat / 4 < 64 by omega),
        base64Value_of_lt (show a.toNat % 4 * 16 < 64 by omega), Option.bind_eq_bind,
        Option.bind_some, ↓reduceIte, Nat.mul_mod_left, and_self, Option.some.injEq,
        List.cons.injEq, and_true]
      exact ofNat_eq (by omega)
  | case3 a b =>
      have ha := a.toNat_lt
      have hb := b.toNat_lt
      simp only [base64Chars, base64Bytes, base64Last,
        base64Value_of_lt (show a.toNat / 4 < 64 by omega),
        base64Value_of_lt (show a.toNat % 4 * 16 + b.toNat / 16 < 64 by omega),
        base64Value_of_lt (show b.toNat % 16 * 4 < 64 by omega),
        if_neg (base64Digit_ne_pad (show b.toNat % 16 * 4 < 64 by omega)),
        Option.bind_eq_bind, Option.bind_some, ↓reduceIte, Nat.mul_mod_left,
        Option.some.injEq, List.cons.injEq, and_true]
      exact ⟨ofNat_eq (by omega), ofNat_eq (by omega)⟩
  | case4 a b c rest ih =>
      have hb := b.toNat_lt
      have hc := c.toNat_lt
      rw [base64Chars]
      by_cases hrest : rest = []
      · subst hrest
        rw [base64Chars, base64Bytes, base64Last_of_group (base64Digit_ne_pad (by omega))
          (base64Digit_ne_pad (by omega)), base64Group_digits]
      · rw [base64Bytes_cons fun hnil => hrest (base64Chars_eq_nil hnil), base64Group_digits,
          ih]
        rfl

scoped instance base64 : Base64 where
  encode bytes := String.ofList (base64Chars bytes)
  decode s :=
    match base64Bytes s.toList with
    | some bytes => .ok bytes
    | none => .error "Invalid input"
  decode_encode bytes := by
    rw [String.toList_ofList, base64Bytes_chars]

end Platform

end RlnGifter
