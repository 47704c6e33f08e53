/-
The string functions of Rust's standard library that the gifter relies on:
UTF-8, trimming, line splitting and lowercasing.  The Unicode case tables are a
parameter; everything computed from them is defined as `str` computes it.
-/
import Mathlib.Algebra.Group.Nat.Defs
import Mathlib.Data.List.DropRight

namespace RlnGifter

/-- `str::as_bytes`. -/
def utf8 (s : String) : List UInt8 :=
  s.toList.flatMap String.utf8EncodeChar

/-- A continuation byte, `0b10xxxxxx`. -/
def isContinuation (b : UInt8) : Bool :=
  0x80 ≤ b && b ≤ 0xBF

/-- The second bytes allowed after the first byte of a three-byte sequence. -/
def secondOfThree (b c : UInt8) : Bool :=
  if b = 0xE0 then 0xA0 ≤ c && c ≤ 0xBF
  else if b = 0xED then 0x80 ≤ c && c ≤ 0x9F
  else isContinuation c

/-- The second bytes allowed after the first byte of a four-byte sequence. -/
def secondOfFour (b c : UInt8) : Bool :=
  if b = 0xF0 then 0x90 ≤ c && c ≤ 0xBF
  else if b = 0xF4 then 0x80 ≤ c && c ≤ 0x8F
  else isContinuation c

/-- The character at the front of a byte string and the bytes after it.  A
maximal ill-formed prefix reads as U+FFFD. -/
def lossyChar (b : UInt8) (rest : List UInt8) : Char × List UInt8 :=
  let bad : Char := '\uFFFD'
  let low (c : UInt8) : Nat := c.toNat % 64
  if b < 0x80 then (Char.ofNat b.toNat, rest)
  else if 0xC2 ≤ b && b ≤ 0xDF then
    match rest with
    | c :: r =>
        if isContinuation c then (Char.ofNat (b.toNat % 32 * 64 + low c), r)
        else (bad, rest)
    | [] => (bad, rest)
  else if 0xE0 ≤ b && b ≤ 0xEF then
    match rest with
    | c :: r =>
        if secondOfThree b c then
          match r with
          | d :: r' =>
              if isContinuation d then
                (Char.ofNat (b.toNat % 16 * 4096 + low c * 64 + low d), r')
              else (bad, r)
          | [] => (bad, r)
        else (bad, rest)
    | [] => (bad, rest)
  else if 0xF0 ≤ b && b ≤ 0xF4 then
    match rest with
    | c :: r =>
        if secondOfFour b c then
          match r with
          | d :: r' =>
              if isContinuation d then
                match r' with
                | e :: r'' =>
                    if isContinuation e then
                      (Char.ofNat (b.toNat % 8 * 262144 + low c * 4096 +
                        low d * 64 + low e), r'')
                    else (bad, r')
                | [] => (bad, r')
              else (bad, r)
          | [] => (bad, r)
        else (bad, rest)
    | [] => (bad, rest)
  else (bad, rest)

theorem lossyChar_length (b : UInt8) (rest : List UInt8) :
    (lossyChar b rest).2.length ≤ rest.length := by
  unfold lossyChar
  dsimp only
  repeat' split
  all_goals simp only [List.length_cons]; omega

/-- Decode, replacing every ill-formed piece. -/
def lossyChars : List UInt8 → List Char
  | [] => []
  | b :: rest => (lossyChar b rest).1 :: lossyChars (lossyChar b rest).2
termination_by bytes => bytes.length
decreasing_by
  have hle := lossyChar_length b rest
  simp only [List.length_cons]
  omega

/-- `String::from_utf8_lossy`: valid bytes are the string they encode, and only
invalid ones are copied with replacements. -/
def fromUtf8Lossy (bytes : List UInt8) : String :=
  match String.fromUTF8? bytes.toByteArray with
  | some s => s
  | none => String.ofList (lossyChars bytes)

theorem toByteArray_utf8 (s : String) : (utf8 s).toByteArray = s.toByteArray :=
  String.utf8Encode_toList

@[simp] theorem fromUtf8Lossy_utf8 (s : String) : fromUtf8Lossy (utf8 s) = s := by
  have hsome : String.fromUTF8? (utf8 s).toByteArray = some s := by
    rw [toByteArray_utf8, String.fromUTF8?, dif_pos s.isValidUTF8]
    rfl
  simp [fromUtf8Lossy, hsome]

theorem utf8_injective {s t : String} (h : utf8 s = utf8 t) : s = t := by
  rw [← fromUtf8Lossy_utf8 s, h, fromUtf8Lossy_utf8]

/-- `char::is_whitespace`: the Unicode property `White_Space`. -/
def isWhitespace (c : Char) : Bool :=
  let n := c.toNat
  (0x09 ≤ n && n ≤ 0x0D) || n == 0x20 || n == 0x85 || n == 0xA0 || n == 0x1680 ||
    (0x2000 ≤ n && n ≤ 0x200A) || n == 0x2028 || n == 0x2029 || n == 0x202F ||
    n == 0x205F || n == 0x3000

/-- `char::is_control`: the general category `Cc`. -/
def isControl (c : Char) : Bool :=
  let n := c.toNat
  n ≤ 0x1F || (0x7F ≤ n && n ≤ 0x9F)

/-- `str::trim` on the characters of a string. -/
def trimChars (cs : List Char) : List Char :=
  (cs.dropWhile isWhitespace).rdropWhile isWhitespace

/-- `str::trim`. -/
def trim (s : String) : String :=
  String.ofList (trimChars s.toList)

/-- `str::trim_start_matches("0x")` on characters: every leading `0x` goes. -/
def trim0xChars : List Char → List Char
  | '0' :: 'x' :: rest => trim0xChars rest
  | cs => cs

/-- `str::trim_start_matches("0x")`. -/
def trim0x (s : String) : String :=
  String.ofList (trim0xChars s.toList)

/-- Drop one trailing carriage return of a line held in reverse. -/
def stripCr : List Char → List Char
  | '\r' :: rest => rest
  | cs => cs

/-- `str::lines` on characters, with the line read so far held in reverse.
Text after the last line feed is a line only if there is some. -/
def linesFrom : List Char → List Char → List (List Char)
  | [], [] => []
  | c :: line, [] => [(c :: line).reverse]
  | line, '\n' :: rest => (stripCr line).reverse :: linesFrom [] rest
  | line, c :: rest => linesFrom (c :: line) rest

/-- `str::lines`. -/
def lines (s : String) : List String :=
  (linesFrom [] s.toList).map String.ofList

/-- The Unicode case tables behind `str::to_lowercase`, with what Unicode says
of them: no mapping is empty, mapped characters are lowercase already, ASCII
maps as ASCII and no mapping makes white space. -/
class CaseTables where
  lower : Char → List Char
  cased : Char → Bool
  caseIgnorable : Char → Bool
  lower_ne_nil : ∀ c, lower c ≠ []
  lower_of_mem : ∀ c, ∀ d ∈ lower c, lower d = [d] ∧ d ≠ 'Σ'
  lower_ascii : ∀ c : Char, c.toNat < 128 → lower c = [c.toLower]
  lower_sigma : lower 'σ' = ['σ'] ∧ lower 'ς' = ['ς']
  lower_whitespace : ∀ c, ∀ d ∈ lower c, isWhitespace d = true → d = c

section Lowercase

variable [CaseTables]

/-- `case_ignorable_then_cased` of the standard library. -/
def ignorableThenCased (cs : List Char) : Bool :=
  match cs.dropWhile CaseTables.caseIgnorable with
  | c :: _ => CaseTables.cased c
  | [] => false

/-- `str::to_lowercase` on characters, with the characters before held in
reverse: a capital sigma at the end of a word is final. -/
def lowerFrom (before : List Char) : List Char → List Char
  | [] => []
  | c :: rest =>
      (if c = 'Σ' then
        [if ignorableThenCased before && !ignorableThenCased rest then 'ς'
          else 'σ']
      else CaseTables.lower c) ++ lowerFrom (c :: before) rest

/-- `str::to_lowercase`. -/
def toLowercase (s : String) : String :=
  String.ofList (lowerFrom [] s.toList)

/-- A character that lowercasing leaves alone wherever it stands. -/
def IsLower (c : Char) : Prop :=
  CaseTables.lower c = [c] ∧ c ≠ 'Σ'

theorem mem_lowerFrom {before cs : List Char} {d : Char}
    (hd : d ∈ lowerFrom before cs) : IsLower d := by
  induction cs generalizing before with
  | nil => simp [lowerFrom] at hd
  | cons c rest ih =>
      simp only [lowerFrom, List.mem_append] at hd
      rcases hd with hd | hd
      · split at hd
        · simp only [List.mem_singleton] at hd
          obtain ⟨hsmall, hfinal⟩ := CaseTables.lower_sigma
          subst hd
          split
          · exact ⟨hfinal, by decide⟩
          · exact ⟨hsmall, by decide⟩
        · exact CaseTables.lower_of_mem c d hd
      · exact ih hd

theorem lowerFrom_of_isLower {before cs : List Char}
    (hcs : ∀ c ∈ cs, IsLower c) : lowerFrom before cs = cs := by
  induction cs generalizing before with
  | nil => rfl
  | cons c rest ih =>
      obtain ⟨hlower, hsigma⟩ := hcs c List.mem_cons_self
      rw [lowerFrom, if_neg hsigma, hlower,
        ih (fun d hd => hcs d (List.mem_cons_of_mem c hd))]
      rfl

theorem lowerFrom_eq_self_iff {before cs : List Char} :
    lowerFrom before cs = cs ↔ ∀ c ∈ cs, IsLower c := by
  constructor
  · intro heq c hc
    rw [← heq] at hc
    exact mem_lowerFrom hc
  · exact lowerFrom_of_isLower

theorem toLowercase_eq_self_iff {s : String} :
    toLowercase s = s ↔ ∀ c ∈ s.toList, IsLower c := by
  have hchars := @lowerFrom_eq_self_iff _ [] s.toList
  rw [← hchars, toLowercase, ← String.toList_inj, String.toList_ofList]

theorem isLower_of_mem_toLowercase {s : String} {c : Char}
    (hc : c ∈ (toLowercase s).toList) : IsLower c := by
  rw [toLowercase, String.toList_ofList] at hc
  exact mem_lowerFrom hc

@[simp] theorem toLowercase_idem (s : String) :
    toLowercase (toLowercase s) = toLowercase s :=
  toLowercase_eq_self_iff.mpr fun _ => isLower_of_mem_toLowercase

/-- Lowercasing keeps white space where it is and makes none. -/
theorem mem_lowerFrom_whitespace {before cs : List Char} {d : Char}
    (hd : d ∈ lowerFrom before cs) (hspace : isWhitespace d = true) : d ∈ cs := by
  induction cs generalizing before with
  | nil => simp [lowerFrom] at hd
  | cons c rest ih =>
      simp only [lowerFrom, List.mem_append] at hd
      rcases hd with hd | hd
      · split at hd
        · simp only [List.mem_singleton] at hd
          subst hd
          split at hspace <;> simp [isWhitespace] at hspace
        · rw [CaseTables.lower_whitespace c d hd hspace]
          exact List.mem_cons_self
      · exact List.mem_cons_of_mem c (ih hd)

/-- The first character of a lowercased text comes from its first character. -/
theorem lowerFrom_cons_whitespace {before rest : List Char} {c d : Char}
    (hd : (lowerFrom before (c :: rest)).head? = some d)
    (hspace : isWhitespace d = true) : d = c := by
  rw [lowerFrom] at hd
  split at hd
  · simp only [List.cons_append, List.head?_cons, Option.some.injEq] at hd
    subst hd
    split at hspace <;> simp [isWhitespace] at hspace
  · cases hlower : CaseTables.lower c with
    | nil => exact absurd hlower (CaseTables.lower_ne_nil c)
    | cons e tail =>
        rw [hlower, List.cons_append, List.head?_cons, Option.some.injEq] at hd
        subst hd
        exact CaseTables.lower_whitespace c e (by simp [hlower]) hspace

theorem isLower_ascii {c : Char} (hascii : c.toNat < 128)
    (hlower : c.toLower = c) : IsLower c := by
  refine ⟨by rw [CaseTables.lower_ascii c hascii, hlower], ?_⟩
  rintro rfl
  simp at hascii

end Lowercase

end RlnGifter
