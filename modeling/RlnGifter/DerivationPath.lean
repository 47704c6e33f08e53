/-
The paths of an exported key.  A path is decoded to one number for each of its
segments, and a hardened segment sets the top bit of its number, whatever stands there.
-/
import Mathlib.Data.List.DropRight
import Mathlib.Data.Nat.Bitwise
import RlnGifter.AuthVector

namespace RlnGifter

namespace Keycard

/-- The markers of a hardened segment. -/
def isMarker (c : Char) : Bool := c == '\'' || c == 'h' || c == 'H'

/-- `ends_with` one of the markers. -/
def hardened (p : List Char) : Bool := p.getLast?.any isMarker

/-- `trim_end_matches(['\'', 'h', 'H'])`. -/
def trimMarkers (p : List Char) : List Char := p.rdropWhile isMarker

/-- A plus sign in front of a number is accepted. -/
def dropPlus : List Char → List Char
  | '+' :: rest => rest
  | cs => cs

/-- The decimal number that the characters write. -/
def decimal (cs : List Char) : Nat := Nat.ofDigitChars 10 (dropPlus cs) 0

/-- `str::parse` to a `u32`. -/
def parseU32 (cs : List Char) : Option UInt32 :=
  if dropPlus cs = [] then none
  else if (dropPlus cs).all Char.isDigit && decide (decimal cs < 2 ^ 32) then
    some (UInt32.ofNat (decimal cs))
  else none

def decodeSegment (p : List Char) : Except String UInt32 :=
  match parseU32 (trimMarkers p) with
  | none => .error ("bad path segment " ++ String.ofList p)
  | some n => .ok (if hardened p then n ||| 0x80000000 else n)

/-- The loop over the segments: empty ones are skipped. -/
def decodeSegments : List (List Char) → Except String (List UInt32)
  | [] => .ok []
  | p :: parts =>
      if p = [] then decodeSegments parts
      else do
        let n ← decodeSegment p
        let rest ← decodeSegments parts
        return n :: rest

def decodePath (path : String) : Except String (List UInt32) :=
  match path.toList.splitOn '/' with
  | [] => .error "empty path"
  | head :: parts =>
      if head ≠ ['m'] ∧ head ≠ ['M'] then
        .error "only master-rooted paths (m/...) supported"
      else decodeSegments parts

/-- The segments of a path that count. -/
def segments (path : String) : List (List Char) :=
  (path.toList.splitOn '/').tail.filter (· ≠ [])

/-- The index that a segment writes, and whether it is hardened. -/
def segmentIndex (p : List Char) : Nat × Bool := (decimal (trimMarkers p), hardened p)

/-- The index in the low bits of a decoded number, and whether its top bit is set. -/
def elementIndex (n : UInt32) : Nat × Bool :=
  ((n &&& 0x7fffffff).toNat, decide (n &&& 0x80000000 ≠ 0))

/-- What a path denotes. -/
def indices (path : String) : List (Nat × Bool) := (segments path).map segmentIndex

/-- Every index of the path leaves the top bit free. -/
def InRange (path : String) : Prop := ∀ index ∈ indices path, index.1 < 2 ^ 31

section Bits

theorem toNat_low_bits (n : UInt32) : (n &&& 0x7fffffff).toNat = n.toNat % 2 ^ 31 := by
  rw [UInt32.toNat_and]
  exact Nat.and_two_pow_sub_one_eq_mod n.toNat 31

theorem top_bit_iff (n : UInt32) : n &&& 0x80000000 ≠ 0 ↔ 2 ^ 31 ≤ n.toNat := by
  have hlt := n.toNat_lt
  have hmask : (n &&& 0x80000000).toNat = (n.toNat.testBit 31).toNat * 2 ^ 31 := by
    rw [UInt32.toNat_and]
    exact Nat.and_two_pow n.toNat 31
  have hbit : n.toNat.testBit 31 = decide (2 ^ 31 ≤ n.toNat) := by
    rw [Nat.testBit_eq_decide_div_mod_eq, decide_eq_decide]
    omega
  rw [Ne, ← UInt32.toNat_inj, hmask, hbit]
  by_cases htop : 2 ^ 31 ≤ n.toNat
  · rw [decide_eq_true htop]
    exact iff_of_true (by decide) htop
  · rw [decide_eq_false htop]
    exact iff_of_false (by decide) htop

theorem toNat_set_top_bit (n : UInt32) :
    (n ||| 0x80000000).toNat = 2 ^ 31 + n.toNat % 2 ^ 31 := by
  have hlt := n.toNat_lt
  have hlow : n.toNat % 2 ^ 31 < 2 ^ 31 := Nat.mod_lt _ (by decide)
  have hjoin := Nat.two_pow_add_eq_or_of_lt hlow 1
  have hparts := Nat.two_pow_add_eq_or_of_lt hlow (n.toNat / 2 ^ 31)
  rw [Nat.div_add_mod] at hparts
  rw [Nat.mul_one] at hjoin
  rw [UInt32.toNat_or, hjoin]
  change n.toNat ||| 2 ^ 31 = _
  by_cases htop : 2 ^ 31 ≤ n.toNat
  · rw [show n.toNat / 2 ^ 31 = 1 by omega, Nat.mul_one] at hparts
    nth_rewrite 1 [hparts]
    rw [Nat.or_right_comm, Nat.or_self]
  · rw [Nat.mod_eq_of_lt (Nat.lt_of_not_le htop), Nat.or_comm]

/-- A number without the top bit is the index it stands for. -/
theorem elementIndex_plain (n : UInt32) :
    elementIndex n = (n.toNat, false) ↔ n.toNat < 2 ^ 31 := by
  rw [elementIndex, Prod.mk.injEq, toNat_low_bits, decide_eq_false_iff_not, top_bit_iff]
  omega

/-- Setting the top bit hardens an index that leaves it free. -/
theorem elementIndex_hardened (n : UInt32) :
    elementIndex (n ||| 0x80000000) = (n.toNat, true) ↔ n.toNat < 2 ^ 31 := by
  rw [elementIndex, Prod.mk.injEq, toNat_low_bits, decide_eq_true_iff, top_bit_iff,
    toNat_set_top_bit]
  omega

end Bits

section Decoding

variable {p cs : List Char} {n : UInt32} {out : List UInt32} {path : String}

theorem parseU32_eq_some (h : parseU32 cs = some n) : n.toNat = decimal cs := by
  rw [parseU32] at h
  split at h
  · cases h
  · split at h
    · rename_i hdigits
      rw [Bool.and_eq_true, decide_eq_true_iff] at hdigits
      rw [← Option.some.inj h, UInt32.toNat_ofNat', Nat.mod_eq_of_lt hdigits.2]
    · cases h

/-- A segment is decoded to the index it writes just when that leaves the top bit free. -/
theorem decodeSegment_index (h : decodeSegment p = .ok n) :
    elementIndex n = segmentIndex p ↔ (segmentIndex p).1 < 2 ^ 31 := by
  rw [decodeSegment] at h
  split at h
  · cases h
  · rename_i m hparse
    have hm := parseU32_eq_some hparse
    rw [segmentIndex, ← hm]
    by_cases hmarker : hardened p = true
    · rw [if_pos hmarker, Except.ok.injEq] at h
      rw [hmarker, ← h]
      exact elementIndex_hardened m
    · rw [if_neg hmarker, Except.ok.injEq] at h
      rw [Bool.not_eq_true] at hmarker
      rw [hmarker, ← h]
      exact elementIndex_plain m

theorem decodeSegments_indices {parts : List (List Char)}
    (h : decodeSegments parts = .ok out) :
    out.map elementIndex = (parts.filter (· ≠ [])).map segmentIndex ↔
      ∀ index ∈ (parts.filter (· ≠ [])).map segmentIndex, index.1 < 2 ^ 31 := by
  induction parts generalizing out with
  | nil =>
      cases h
      simp
  | cons p parts ih =>
      rw [decodeSegments] at h
      by_cases hempty : p = []
      · rw [if_pos hempty] at h
        rw [List.filter_cons_of_neg (by simpa using hempty)]
        exact ih h
      · rw [if_neg hempty] at h
        obtain ⟨n, hsegment, hrest⟩ := bind_eq_ok h
        obtain ⟨rest, hparts, hret⟩ := bind_eq_ok hrest
        cases hret
        rw [List.filter_cons_of_pos (by simpa using hempty), List.map_cons, List.map_cons,
          List.cons.injEq, ih hparts, decodeSegment_index hsegment, List.forall_mem_cons]

theorem decodePath_segments (h : decodePath path = .ok out) :
    decodeSegments (path.toList.splitOn '/').tail = .ok out := by
  rw [decodePath] at h
  split at h
  · cases h
  · rename_i head parts hsplit
    rw [hsplit]
    split at h
    · cases h
    · exact h

end Decoding

section Rendering

/-- An index as a segment of a path. -/
def renderSegment (index : Nat × Bool) : List Char :=
  Nat.toDigits 10 index.1 ++ if index.2 then ['\''] else []

/-- The path of a sequence of indices. -/
def render (sequence : List (Nat × Bool)) : String :=
  String.ofList (['/'].intercalate (['m'] :: sequence.map renderSegment))

/-- The number that an index is decoded to. -/
def element (index : Nat × Bool) : UInt32 :=
  if index.2 then UInt32.ofNat index.1 ||| 0x80000000 else UInt32.ofNat index.1

variable {index : Nat × Bool} {sequence : List (Nat × Bool)}

theorem isDigit_of_mem_toDigits {n : Nat} {c : Char} (h : c ∈ Nat.toDigits 10 n) :
    c.isDigit = true :=
  Nat.isDigit_of_mem_toDigits (by decide) (by decide) h

theorem ne_of_isDigit {c d : Char} (h : c.isDigit = true) (hd : d.isDigit = false) :
    c ≠ d := by
  rintro rfl
  rw [hd] at h
  cases h

theorem isMarker_of_isDigit {c : Char} (h : c.isDigit = true) : isMarker c = false := by
  simp [isMarker, ne_of_isDigit h (d := '\'') (by decide),
    ne_of_isDigit h (d := 'h') (by decide), ne_of_isDigit h (d := 'H') (by decide)]

theorem dropPlus_toDigits (n : Nat) : dropPlus (Nat.toDigits 10 n) = Nat.toDigits 10 n := by
  rw [dropPlus.eq_def]
  split
  · rename_i rest heq
    have hplus : '+' ∈ Nat.toDigits 10 n := heq ▸ List.mem_cons_self
    exact absurd rfl (ne_of_isDigit (isDigit_of_mem_toDigits hplus) (d := '+') (by decide))
  · rfl

theorem parseU32_toDigits {n : Nat} (hn : n < 2 ^ 32) :
    parseU32 (Nat.toDigits 10 n) = some (UInt32.ofNat n) := by
  have hvalue : decimal (Nat.toDigits 10 n) = n := by
    rw [decimal, dropPlus_toDigits, Nat.ofDigitChars_ten_toDigits]
  have hdigits : (Nat.toDigits 10 n).all Char.isDigit = true :=
    List.all_eq_true.mpr fun c hc => isDigit_of_mem_toDigits hc
  rw [parseU32, dropPlus_toDigits, hvalue, if_neg Nat.toDigits_ne_nil, hdigits,
    decide_eq_true hn]
  rfl

theorem trimMarkers_renderSegment : trimMarkers (renderSegment index) =
    Nat.toDigits 10 index.1 := by
  have hplain : trimMarkers (Nat.toDigits 10 index.1) = Nat.toDigits 10 index.1 := by
    rw [trimMarkers, List.rdropWhile_eq_self_iff]
    intro hne
    rw [isMarker_of_isDigit (isDigit_of_mem_toDigits (List.getLast_mem hne))]
    exact Bool.false_ne_true
  cases hmarker : index.2 with
  | true =>
      rw [renderSegment, hmarker, if_pos rfl, trimMarkers,
        List.rdropWhile_concat_pos _ _ _ (by decide)]
      exact hplain
  | false =>
      rw [renderSegment, hmarker, if_neg Bool.false_ne_true, List.append_nil]
      exact hplain

theorem hardened_renderSegment : hardened (renderSegment index) = index.2 := by
  cases hmarker : index.2 with
  | true =>
      rw [renderSegment, hmarker, if_pos rfl, hardened, List.getLast?_concat]
      decide
  | false =>
      rw [renderSegment, hmarker, if_neg Bool.false_ne_true, List.append_nil, hardened,
        List.getLast?_eq_some_getLast Nat.toDigits_ne_nil]
      exact isMarker_of_isDigit (isDigit_of_mem_toDigits (List.getLast_mem _))

theorem renderSegment_ne_nil : renderSegment index ≠ [] :=
  List.append_ne_nil_of_left_ne_nil Nat.toDigits_ne_nil _

theorem slash_notMem_renderSegment : '/' ∉ renderSegment index := by
  rw [renderSegment, List.mem_append]
  rintro (hdigit | hmarker)
  · exact ne_of_isDigit (isDigit_of_mem_toDigits hdigit) (d := '/') (by decide) rfl
  · split at hmarker
    · exact absurd hmarker (by decide)
    · cases hmarker

theorem decodeSegment_renderSegment (hindex : index.1 < 2 ^ 31) :
    decodeSegment (renderSegment index) = .ok (element index) := by
  rw [decodeSegment, trimMarkers_renderSegment,
    parseU32_toDigits (hindex.trans (by decide)), hardened_renderSegment]
  rfl

theorem decodeSegments_render (h : ∀ index ∈ sequence, index.1 < 2 ^ 31) :
    decodeSegments (sequence.map renderSegment) = .ok (sequence.map element) := by
  induction sequence with
  | nil => rfl
  | cons index sequence ih =>
      obtain ⟨hindex, hrest⟩ := List.forall_mem_cons.mp h
      rw [List.map_cons, decodeSegments, if_neg renderSegment_ne_nil,
        decodeSegment_renderSegment hindex, ih hrest]
      rfl

theorem elementIndex_element (hindex : index.1 < 2 ^ 31) :
    elementIndex (element index) = index := by
  have hvalue : (UInt32.ofNat index.1).toNat = index.1 := by
    rw [UInt32.toNat_ofNat', Nat.mod_eq_of_lt (hindex.trans (by decide))]
  have hrange : (UInt32.ofNat index.1).toNat < 2 ^ 31 := hvalue.symm ▸ hindex
  obtain ⟨n, marker⟩ := index
  cases marker with
  | true => rw [element, if_pos rfl, (elementIndex_hardened _).mpr hrange, hvalue]
  | false =>
      rw [element, if_neg Bool.false_ne_true, (elementIndex_plain _).mpr hrange, hvalue]

/-- A sequence of indices is what its path is decoded to. -/
theorem decodePath_render (h : ∀ index ∈ sequence, index.1 < 2 ^ 31) :
    (decodePath (render sequence)).map (List.map elementIndex) = .ok sequence := by
  have hsplit : (render sequence).toList.splitOn '/' = ['m'] :: sequence.map renderSegment := by
    rw [render, String.toList_ofList, List.splitOn_intercalate '/' _ (by simp)]
    intro segment hsegment
    rcases List.mem_cons.mp hsegment with rfl | hsegment
    · decide
    · obtain ⟨index, -, rfl⟩ := List.mem_map.mp hsegment
      exact slash_notMem_renderSegment
  have hindices : sequence.map (elementIndex ∘ element) = sequence := by
    have hsame : sequence.map (elementIndex ∘ element) = sequence.map id :=
      List.map_congr_left fun index hindex => elementIndex_element (h index hindex)
    rw [hsame, List.map_id]
  rw [decodePath, hsplit]
  simp only
  rw [if_neg (fun hhead => hhead.1 rfl), decodeSegments_render h, Except.map, List.map_map,
    hindices]

end Rendering

/-- A path that is accepted is decoded to the indices it denotes just when all of them
leave the top bit free; such paths are decoded alike only if they denote the same; and
decoding undoes rendering. -/
theorem decodePath_indices (path : String) :
    (∀ out, decodePath path = .ok out →
      (out.map elementIndex = indices path ↔ InRange path)) ∧
    (∀ path' out, decodePath path = .ok out → decodePath path' = .ok out →
      InRange path → InRange path' → indices path = indices path') ∧
    ∀ sequence : List (Nat × Bool), (∀ index ∈ sequence, index.1 < 2 ^ 31) →
      (decodePath (render sequence)).map (List.map elementIndex) = .ok sequence := by
  have hfaithful : ∀ path out, decodePath path = .ok out →
      (out.map elementIndex = indices path ↔ InRange path) := fun path out h =>
    decodeSegments_indices (decodePath_segments h)
  refine ⟨hfaithful path, fun path' out h h' hrange hrange' => ?_, fun _ =>
    decodePath_render⟩
  rw [← (hfaithful path out h).mpr hrange, ← (hfaithful path' out h').mpr hrange']

/-- An index of `2 ^ 31` is taken for the hardened index zero. -/
theorem decodePath_collides :
    decodePath "m/2147483648" = .ok [0x80000000] ∧ decodePath "m/0h" = .ok [0x80000000] ∧
      indices "m/2147483648" ≠ indices "m/0h" ∧
      [0x80000000].map elementIndex ≠ indices "m/2147483648" := by
  decide +kernel

end Keycard

end RlnGifter
