/-
The hex crate: lowercase encoding, and decoding of either case with its errors.
-/
import RlnGifter.Text
import Mathlib.Tactic.IntervalCases

namespace RlnGifter

/-- `hex::FromHexError`, as far as decoding to a vector raises it. -/
inductive FromHexError where
  | invalidHexCharacter (c : Char) (index : Nat)
  | oddLength
deriving DecidableEq, Repr

/-- One digit of `hex::encode`. -/
def hexDigit (n : Nat) : Char :=
  if n < 10 then Char.ofNat (48 + n) else Char.ofNat (87 + n)

/-- The two digits of a byte, high half first. -/
def hexPair (b : UInt8) : List Char :=
  [hexDigit (b.toNat / 16), hexDigit (b.toNat % 16)]

/-- `hex::encode`. -/
def hexEncode (bytes : List UInt8) : String :=
  String.ofList (bytes.flatMap hexPair)

/-- The value of one hex digit, given as a byte. -/
def hexVal (c : UInt8) (index : Nat) : Except FromHexError Nat :=
  if 65 ≤ c.toNat ∧ c.toNat ≤ 70 then .ok (c.toNat - 55)
  else if 97 ≤ c.toNat ∧ c.toNat ≤ 102 then .ok (c.toNat - 87)
  else if 48 ≤ c.toNat ∧ c.toNat ≤ 57 then .ok (c.toNat - 48)
  else .error (.invalidHexCharacter (Char.ofNat c.toNat) index)

/-- Decode digit pairs; `index` is the position of the first. -/
def hexPairs (index : Nat) : List UInt8 → Except FromHexError (List UInt8)
  | [] => .ok []
  | [_] => .error .oddLength
  | high :: low :: rest => do
      let h ← hexVal high index
      let l ← hexVal low (index + 1)
      let bytes ← hexPairs (index + 2) rest
      return UInt8.ofNat (16 * h + l) :: bytes

/-- `hex::decode`, on the UTF-8 bytes of the text. -/
def hexDecode (s : String) : Except FromHexError (List UInt8) :=
  if (utf8 s).length % 2 ≠ 0 then .error .oddLength else hexPairs 0 (utf8 s)

/-- `{:?}` of a character that came from one byte. -/
def latinDebug (c : Char) : String :=
  let n := c.toNat
  let hex := String.ofList ((Nat.toDigits 16 n).map Char.toLower)
  if n = 0 then "'\\0'"
  else if n = 9 then "'\\t'"
  else if n = 10 then "'\\n'"
  else if n = 13 then "'\\r'"
  else if n = 39 then "'\\''"
  else if n = 92 then "'\\\\'"
  else if n < 32 || (127 ≤ n && n ≤ 160) || n == 173 then
    "'\\u\x7b" ++ hex ++ "\x7d'"
  else "'" ++ c.toString ++ "'"

/-- `Display` of `hex::FromHexError`. -/
def FromHexError.message : FromHexError → String
  | .invalidHexCharacter c index =>
      "Invalid character " ++ latinDebug c ++ " at position " ++ toString index
  | .oddLength => "Odd number of digits"

/-- The characters `hexEncode` writes. -/
def IsHexDigit (c : Char) : Prop :=
  ∃ n, n < 16 ∧ c = hexDigit n

theorem isHexDigit_of_mem_hexEncode {bytes : List UInt8} {c : Char}
    (hc : c ∈ (hexEncode bytes).toList) : IsHexDigit c := by
  simp only [hexEncode, String.toList_ofList, List.mem_flatMap] at hc
  obtain ⟨b, -, hc⟩ := hc
  have hb := b.toNat_lt
  simp only [hexPair, List.mem_cons, List.not_mem_nil, or_false] at hc
  rcases hc with rfl | rfl
  · exact ⟨b.toNat / 16, by omega, rfl⟩
  · exact ⟨b.toNat % 16, by omega, rfl⟩

/-- What every written digit is: lowercase ASCII, no white space, no control
character and no `x`. -/
theorem hexDigit_facts : ∀ n < 16,
    (hexDigit n).toNat < 128 ∧ (hexDigit n).toLower = hexDigit n ∧
      isWhitespace (hexDigit n) = false ∧ isControl (hexDigit n) = false ∧
      hexDigit n ≠ 'x' := by
  decide

theorem utf8EncodeChar_ascii {c : Char} (hc : c.toNat < 128) :
    String.utf8EncodeChar c = [UInt8.ofNat c.toNat] := by
  have hle : c.val.toNat ≤ 127 := Nat.le_of_lt_succ hc
  rw [String.utf8EncodeChar, if_pos hle]
  rfl

/-- A byte below 128 in a UTF-8 text is a character of the text. -/
theorem mem_utf8_ascii {s : String} {b : UInt8} (hb : b ∈ utf8 s)
    (hascii : b.toNat < 128) : Char.ofNat b.toNat ∈ s.toList := by
  simp only [utf8, List.mem_flatMap] at hb
  obtain ⟨c, hc, hb⟩ := hb
  have hbyte : c.toNat = b.toNat := by
    by_cases hsmall : c.toNat < 128
    · rw [utf8EncodeChar_ascii hsmall, List.mem_singleton] at hb
      rw [hb, UInt8.toNat_ofNat']
      omega
    · exfalso
      have hval : ¬ c.val.toNat ≤ 127 := fun h => hsmall (Nat.lt_succ_of_le h)
      have hge : ∀ n k : Nat, 128 ≤ n % k + 128 := fun n k => Nat.le_add_left _ _
      simp only [String.utf8EncodeChar, hval, ↓reduceIte] at hb
      repeat' split at hb
      all_goals
        simp only [List.mem_cons, List.not_mem_nil, or_false] at hb
        rcases hb with rfl | rfl | rfl | rfl <;>
          simp only [UInt8.toNat_ofNat'] at hascii <;> omega
  rw [← hbyte]
  simpa using hc

/-- The digits of `hexEncode` as the bytes `hexDecode` reads. -/
theorem utf8_ofList_ascii {cs : List Char} (hcs : ∀ c ∈ cs, c.toNat < 128) :
    utf8 (String.ofList cs) = cs.map fun c => UInt8.ofNat c.toNat := by
  simp only [utf8, String.toList_ofList]
  induction cs with
  | nil => rfl
  | cons c rest ih =>
      rw [List.flatMap_cons, utf8EncodeChar_ascii (hcs c List.mem_cons_self),
        ih (fun d hd => hcs d (List.mem_cons_of_mem c hd))]
      rfl

theorem utf8_hexEncode (bytes : List UInt8) :
    utf8 (hexEncode bytes) =
      bytes.flatMap fun b => (hexPair b).map fun c => UInt8.ofNat c.toNat := by
  rw [hexEncode, utf8_ofList_ascii, List.map_flatMap]
  intro c hc
  have hmem : c ∈ (hexEncode bytes).toList := by
    rwa [hexEncode, String.toList_ofList]
  obtain ⟨n, hn, rfl⟩ := isHexDigit_of_mem_hexEncode hmem
  exact (hexDigit_facts n hn).1

theorem utf8_hexEncode_length (bytes : List UInt8) :
    (utf8 (hexEncode bytes)).length = 2 * bytes.length := by
  rw [utf8_hexEncode]
  induction bytes with
  | nil => rfl
  | cons b bytes ih =>
      rw [List.flatMap_cons, List.length_append, ih]
      simp only [hexPair, List.map_cons, List.map_nil, List.length_cons,
        List.length_nil]
      omega

theorem hexVal_hexDigit : ∀ n < 16, ∀ index,
    hexVal (UInt8.ofNat (hexDigit n).toNat) index = .ok n := by
  intro n hn index
  have hdigit : ∀ m < 16,
      (UInt8.ofNat (hexDigit m).toNat).toNat = if m < 10 then 48 + m else 87 + m := by
    decide
  rw [hexVal, hdigit n hn]
  by_cases hsmall : n < 10
  · simp only [hsmall, ↓reduceIte]
    rw [if_neg (by omega), if_neg (by omega), if_pos (by omega)]
    congr 1
    omega
  · simp only [hsmall, ↓reduceIte]
    rw [if_neg (by omega), if_pos (by omega)]
    congr 1
    omega

theorem hexPairs_hexEncode (bytes : List UInt8) (index : Nat) :
    hexPairs index
      (bytes.flatMap fun b => (hexPair b).map fun c => UInt8.ofNat c.toNat) =
        .ok bytes := by
  induction bytes generalizing index with
  | nil => rfl
  | cons b bytes ih =>
      have hb := b.toNat_lt
      have hhigh := hexVal_hexDigit (b.toNat / 16) (by omega) index
      have hlow := hexVal_hexDigit (b.toNat % 16) (by omega) (index + 1)
      have hbyte : 16 * (b.toNat / 16) + b.toNat % 16 = b.toNat := by omega
      rw [List.flatMap_cons, hexPair, List.map_cons, List.map_cons, List.map_nil,
        List.cons_append, List.cons_append, List.nil_append, hexPairs, hhigh, hlow,
        ih (index + 2)]
      simp [bind, Except.bind, pure, Except.pure, hbyte]

/-- Decoding undoes encoding. -/
@[simp] theorem hexDecode_hexEncode (bytes : List UInt8) :
    hexDecode (hexEncode bytes) = .ok bytes := by
  rw [hexDecode, utf8_hexEncode_length, if_neg (by omega), utf8_hexEncode]
  exact hexPairs_hexEncode bytes 0

theorem hexEncode_injective {left right : List UInt8}
    (h : hexEncode left = hexEncode right) : left = right := by
  have hleft := hexDecode_hexEncode left
  rw [h, hexDecode_hexEncode] at hleft
  exact (Except.ok.inj hleft).symm

/-- A digit that is not one of the capitals is the digit `hexEncode` writes. -/
theorem hexDigit_of_hexVal {c : UInt8} {index n : Nat}
    (hval : hexVal c index = .ok n) (hcase : ¬ (65 ≤ c.toNat ∧ c.toNat ≤ 70)) :
    n < 16 ∧ UInt8.ofNat (hexDigit n).toNat = c := by
  have hdigit : ∀ m < 16, (hexDigit m).toNat = if m < 10 then 48 + m else 87 + m := by
    decide
  rw [hexVal, if_neg hcase] at hval
  split at hval
  · cases hval
    refine ⟨by omega, ?_⟩
    rw [hdigit _ (by omega), if_neg (by omega), ← UInt8.toNat_inj,
      UInt8.toNat_ofNat']
    omega
  · split at hval
    · cases hval
      refine ⟨by omega, ?_⟩
      rw [hdigit _ (by omega), if_pos (by omega), ← UInt8.toNat_inj,
        UInt8.toNat_ofNat']
      omega
    · cases hval

theorem hexPairs_eq_ok {index : Nat} {digits bytes : List UInt8}
    (hdecode : hexPairs index digits = .ok bytes)
    (hcase : ∀ c ∈ digits, ¬ (65 ≤ c.toNat ∧ c.toNat ≤ 70)) :
    digits =
      bytes.flatMap fun b => (hexPair b).map fun c => UInt8.ofNat c.toNat := by
  induction index, digits using hexPairs.induct generalizing bytes with
  | case1 index => cases hdecode; rfl
  | case2 index c => cases hdecode
  | case3 index high low rest ih =>
      rw [hexPairs] at hdecode
      cases hhigh : hexVal high index with
      | error e => simp [hhigh, bind, Except.bind] at hdecode
      | ok h =>
          cases hlow : hexVal low (index + 1) with
          | error e => simp [hhigh, hlow, bind, Except.bind] at hdecode
          | ok l =>
              cases hrest : hexPairs (index + 2) rest with
              | error e =>
                  simp [hhigh, hlow, hrest, bind, Except.bind] at hdecode
              | ok tail =>
                  simp only [hhigh, hlow, hrest, bind, Except.bind, pure,
                    Except.pure, Except.ok.injEq] at hdecode
                  subst hdecode
                  obtain ⟨hh, hhc⟩ := hexDigit_of_hexVal hhigh
                    (hcase high (by simp))
                  obtain ⟨hl, hlc⟩ := hexDigit_of_hexVal hlow
                    (hcase low (by simp))
                  have htail := ih hrest fun c hc => hcase c (by simp [hc])
                  have hbyte : (UInt8.ofNat (16 * h + l)).toNat = 16 * h + l := by
                    rw [UInt8.toNat_ofNat']
                    omega
                  rw [List.flatMap_cons, ← htail, hexPair, hbyte,
                    show (16 * h + l) / 16 = h by omega,
                    show (16 * h + l) % 16 = l by omega]
                  simp [hhc, hlc]

/-- A text without capitals that decodes is the encoding of what it decodes
to. -/
theorem hexEncode_of_hexDecode {s : String} {bytes : List UInt8}
    (hdecode : hexDecode s = .ok bytes)
    (hcase : ∀ c ∈ s.toList, ¬ (65 ≤ c.toNat ∧ c.toNat ≤ 70)) :
    hexEncode bytes = s := by
  rw [hexDecode] at hdecode
  split at hdecode
  · cases hdecode
  · apply utf8_injective
    rw [utf8_hexEncode]
    refine (hexPairs_eq_ok hdecode fun b hb hcapital => ?_).symm
    have hmem := mem_utf8_ascii hb (by omega)
    apply hcase _ hmem
    have hnat : (Char.ofNat b.toNat).toNat = b.toNat := by
      rw [Char.ofNat, dif_pos (Or.inl (by omega))]
      rfl
    omega

section Lowercase

variable [CaseTables]

theorem isLower_hexDigit {c : Char} (hc : IsHexDigit c) : IsLower c := by
  obtain ⟨n, hn, rfl⟩ := hc
  obtain ⟨hascii, hlower, -⟩ := hexDigit_facts n hn
  exact isLower_ascii hascii hlower

@[simp] theorem toLowercase_hexEncode (bytes : List UInt8) :
    toLowercase (hexEncode bytes) = hexEncode bytes :=
  toLowercase_eq_self_iff.mpr fun _ hc =>
    isLower_hexDigit (isHexDigit_of_mem_hexEncode hc)

/-- A lowercased text that decodes is the encoding of what it decodes to. -/
theorem hexEncode_of_hexDecode_toLowercase {s : String} {bytes : List UInt8}
    (hdecode : hexDecode (toLowercase s) = .ok bytes) :
    hexEncode bytes = toLowercase s := by
  apply hexEncode_of_hexDecode hdecode
  intro c hc hcapital
  obtain ⟨hlower, -⟩ := isLower_of_mem_toLowercase hc
  rw [CaseTables.lower_ascii c (by omega), List.cons.injEq] at hlower
  have hsmall : ∀ n, 65 ≤ n → n ≤ 70 → (Char.ofNat n).toLower ≠ Char.ofNat n := by
    intro n hlow hhigh
    interval_cases n <;> decide
  apply hsmall c.toNat hcapital.1 hcapital.2
  simpa using hlower.1

end Lowercase

theorem trim0xChars_of_head {cs : List Char} (hcs : ∀ c ∈ cs, c ≠ 'x') :
    trim0xChars cs = cs := by
  unfold trim0xChars
  split
  · exact absurd rfl (hcs 'x' (by simp))
  · rfl

@[simp] theorem trim0x_hexEncode (bytes : List UInt8) :
    trim0x (hexEncode bytes) = hexEncode bytes := by
  rw [trim0x, trim0xChars_of_head, String.ofList_toList]
  intro c hc
  obtain ⟨n, hn, rfl⟩ := isHexDigit_of_mem_hexEncode hc
  exact (hexDigit_facts n hn).2.2.2.2

end RlnGifter
