/-
The numbers that varints denote.  A group of bytes is read as its base-128 value modulo
`2 ^ 64`: the reader stops after ten bytes, of which the last has room for one bit.
-/
import Mathlib.Data.Nat.Digits.Defs
import RlnGifter.WireGrammar

namespace RlnGifter

/-- Bytes that end in the only one of them with a clear top bit. -/
def IsGroup : List UInt8 → Prop
  | [] => False
  | [b] => b &&& 0x80 = 0
  | b :: rest => b &&& 0x80 ≠ 0 ∧ IsGroup rest

/-- Seven bits of each byte, lowest first. -/
def groupValue (group : List UInt8) : Nat :=
  Nat.ofDigits 128 (group.map fun b => b.toNat % 128)

@[simp] theorem groupValue_nil : groupValue [] = 0 := rfl

@[simp] theorem groupValue_cons (b : UInt8) (rest : List UInt8) :
    groupValue (b :: rest) = b.toNat % 128 + 128 * groupValue rest := by
  rw [groupValue, List.map_cons, Nat.ofDigits_cons, groupValue]

theorem groupValue_append (front back : List UInt8) :
    groupValue (front ++ back) =
      groupValue front + 128 ^ front.length * groupValue back := by
  rw [groupValue, List.map_append, Nat.ofDigits_append, List.length_map, groupValue,
    groupValue]

theorem groupValue_lt (group : List UInt8) : groupValue group < 128 ^ group.length := by
  have hdigits : ∀ d ∈ group.map fun b => b.toNat % 128, d < 128 := by
    intro d hd
    obtain ⟨b, -, rfl⟩ := List.mem_map.mp hd
    exact Nat.mod_lt _ (by decide)
  have hlt := Nat.ofDigits_lt_base_pow_length (by decide) hdigits
  rwa [List.length_map] at hlt

theorem isGroup_cons {b : UInt8} {rest : List UInt8} (hset : b &&& 0x80 ≠ 0) :
    IsGroup (b :: rest) ↔ IsGroup rest := by
  cases rest with
  | nil => simp [IsGroup, hset]
  | cons c rest => simp [IsGroup, hset]

theorem isGroup_cons_clear {b : UInt8} {rest : List UInt8} (hclear : b &&& 0x80 = 0) :
    IsGroup (b :: rest) ↔ rest = [] := by
  cases rest with
  | nil => simp [IsGroup, hclear]
  | cons c rest => simp [IsGroup, hclear]

theorem IsGroup.ne_nil {group : List UInt8} (h : IsGroup group) : group ≠ [] := by
  rintro rfl
  exact h

/-- Two groups at the front of the same bytes are one. -/
theorem IsGroup.unique {group group' rest rest' : List UInt8} (h : IsGroup group)
    (h' : IsGroup group') (heq : group ++ rest = group' ++ rest') : group = group' := by
  induction group generalizing group' with
  | nil => exact absurd h id
  | cons b tail ih =>
      cases group' with
      | nil => exact absurd h' id
      | cons b' tail' =>
          obtain ⟨rfl, htail⟩ := List.cons.inj heq
          by_cases hclear : b &&& 0x80 = 0
          · rw [(isGroup_cons_clear hclear).mp h, (isGroup_cons_clear hclear).mp h']
          · rw [ih ((isGroup_cons hclear).mp h) ((isGroup_cons hclear).mp h') htail]

theorem byte_lt_of_clear {b : UInt8} (h : b &&& 0x80 = 0) : b.toNat < 128 := by
  by_contra hge
  have hset := (byte_top_bit (b.toNat - 128) (by have := b.toNat_lt; omega)).2
  have hb : UInt8.ofNat (b.toNat - 128) ||| 0x80 = b := by
    rw [← UInt8.toNat_inj, hset.2]
    omega
  exact hset.1 (hb.symm ▸ h)

section Reading

variable {result v : UInt64} {shift : Nat} {b : UInt8} {buf rest : List UInt8}

/-- Adding the next seven bits to what was read so far; what has no room is lost. -/
theorem toNat_accumulate_mod (hshift : shift < 64) (hresult : result.toNat < 2 ^ shift) :
    (result ||| ((b &&& 0x7f).toUInt64 <<< UInt64.ofNat shift)).toNat =
      (result.toNat + 2 ^ shift * (b.toNat % 128)) % 2 ^ 64 := by
  have hsmall : (UInt64.ofNat shift).toNat % 64 = shift := by
    rw [UInt64.toNat_ofNat']
    omega
  have hpow : 2 ^ 64 = 2 ^ shift * 2 ^ (64 - shift) := by
    rw [← Nat.pow_add, Nat.add_sub_cancel' hshift.le]
  have hkept : 2 ^ shift * (b.toNat % 128) % 2 ^ 64 =
      2 ^ shift * (b.toNat % 128 % 2 ^ (64 - shift)) := by
    rw [hpow, Nat.mul_mod_mul_left]
  have hsum : (result ||| ((b &&& 0x7f).toUInt64 <<< UInt64.ofNat shift)).toNat =
      result.toNat + 2 ^ shift * (b.toNat % 128) % 2 ^ 64 := by
    rw [UInt64.toNat_or, UInt64.toNat_shiftLeft, UInt8.toNat_toUInt64, byte_and_mask,
      hsmall, Nat.shiftLeft_eq, Nat.mul_comm _ (2 ^ shift), hkept, Nat.or_comm,
      ← Nat.two_pow_add_eq_or_of_lt hresult, Nat.add_comm]
  rw [← Nat.add_mod_mod, ← hsum, Nat.mod_eq_of_lt (UInt64.toNat_lt _)]

/-- A byte without the top bit is a group of its own. -/
theorem exists_group_clear {P : List UInt8 → Prop} (hclear : b &&& 0x80 = 0) :
    (∃ group, b :: buf = group ++ rest ∧ IsGroup group ∧ P group) ↔ buf = rest ∧ P [b] := by
  have hsingle : IsGroup [b] := hclear
  constructor
  · rintro ⟨group, hbuf, hgroup, hP⟩
    obtain rfl := hgroup.unique hsingle hbuf.symm
    exact ⟨(List.cons.inj hbuf).2, hP⟩
  · rintro ⟨rfl, hP⟩
    exact ⟨[b], rfl, hsingle, hP⟩

/-- A byte with the top bit is followed by the rest of its group. -/
theorem exists_group_cons {P : List UInt8 → Prop} (hset : b &&& 0x80 ≠ 0) :
    (∃ group, b :: buf = group ++ rest ∧ IsGroup group ∧ P group) ↔
      ∃ more, buf = more ++ rest ∧ IsGroup more ∧ P (b :: more) := by
  constructor
  · rintro ⟨group, hbuf, hgroup, hP⟩
    cases group with
    | nil => exact absurd hgroup id
    | cons c more =>
        obtain ⟨rfl, rfl⟩ := List.cons.inj hbuf
        exact ⟨more, rfl, (isGroup_cons hset).mp hgroup, hP⟩
  · rintro ⟨more, rfl, hgroup, hP⟩
    exact ⟨b :: more, rfl, (isGroup_cons hset).mpr hgroup, hP⟩

/-- The loop with `k` bytes behind it reads the group at the front of the buffer, if ten
bytes hold all of it. -/
theorem readVarintFrom_eq_some (k : Nat) (hk : k ≤ 9) (hresult : result.toNat < 2 ^ (7 * k)) :
    readVarintFrom result (7 * k) buf = some (v, rest) ↔
      ∃ group, buf = group ++ rest ∧ IsGroup group ∧ k + group.length ≤ 10 ∧
        v.toNat = (result.toNat + 2 ^ (7 * k) * groupValue group) % 2 ^ 64 := by
  induction buf generalizing result k with
  | nil =>
      simp only [readVarintFrom, reduceCtorEq, false_iff]
      rintro ⟨group, hnil, hgroup, -⟩
      exact hgroup.ne_nil (List.append_eq_nil_iff.mp hnil.symm).1
  | cons b tail ih =>
      have hacc := toNat_accumulate_mod (b := b) (show 7 * k < 64 by omega) hresult
      rw [readVarintFrom]
      by_cases hclear : b &&& 0x80 = 0
      · have hlen : k + [b].length ≤ 10 := by
          rw [List.length_singleton]
          omega
        rw [if_pos hclear, Option.some.injEq, Prod.mk.injEq, exists_group_clear hclear,
          and_iff_right hlen, groupValue_cons, groupValue_nil, Nat.mul_zero, Nat.add_zero,
          ← hacc, UInt64.toNat_inj, and_comm, eq_comm (a := v)]
      · rw [if_neg hclear, exists_group_cons hclear]
        by_cases hlast : k = 9
        · rw [if_pos (by omega)]
          simp only [reduceCtorEq, false_iff]
          rintro ⟨more, -, hgroup, hlen, -⟩
          have hmore := List.length_pos_of_ne_nil hgroup.ne_nil
          rw [List.length_cons] at hlen
          omega
        · have hnext : result.toNat + 2 ^ (7 * k) * (b.toNat % 128) < 2 ^ (7 * (k + 1)) := by
            have hbyte : 2 ^ (7 * k) * (b.toNat % 128) ≤ 2 ^ (7 * k) * 127 :=
              Nat.mul_le_mul_left _ (by omega)
            rw [Nat.mul_succ, Nat.pow_add]
            omega
          have hfits : 2 ^ (7 * (k + 1)) ≤ 2 ^ 64 := Nat.pow_le_pow_right (by decide) (by omega)
          rw [Nat.mod_eq_of_lt (hnext.trans_le hfits)] at hacc
          have hrest := ih (k + 1) (by omega) (hacc.symm ▸ hnext)
          rw [if_neg (by omega), show 7 * k + 7 = 7 * (k + 1) from rfl, hrest, hacc]
          refine exists_congr fun more => and_congr_right fun _ => and_congr_right fun _ => ?_
          have hvalue : result.toNat + 2 ^ (7 * k) * (b.toNat % 128) +
              2 ^ (7 * (k + 1)) * groupValue more =
                result.toNat + 2 ^ (7 * k) * groupValue (b :: more) := by
            rw [groupValue_cons, Nat.mul_succ, Nat.pow_add]
            ring
          rw [hvalue, List.length_cons, Nat.add_right_comm, Nat.add_assoc]

/-- What `read_varint` accepts, and the number it returns for it. -/
theorem readVarint_eq_some : readVarint buf = some (v, rest) ↔
    ∃ group, buf = group ++ rest ∧ IsGroup group ∧ group.length ≤ 10 ∧
      v.toNat = groupValue group % 2 ^ 64 := by
  have hzero : (0 : UInt64).toNat < 2 ^ (7 * 0) := by decide
  have hfrom : readVarintFrom 0 0 buf = some (v, rest) ↔ _ :=
    readVarintFrom_eq_some 0 (Nat.zero_le 9) hzero
  simpa [readVarint] using hfrom

end Reading

/-- Reading at the front of a buffer returns a number just when a group of at most ten
bytes denotes one that fits, and then that number, with the bytes after the group. -/
def ReadAsDenoted (buf : List UInt8) : Prop :=
  ∀ v rest, readVarint buf = some (v, rest) ↔
    ∃ group, buf = group ++ rest ∧ IsGroup group ∧ group.length ≤ 10 ∧
      groupValue group < 2 ^ 64 ∧ v.toNat = groupValue group

/-- Nine bytes go on, and a tenth that ends the group has a bit above the lowest. -/
def Overflowing (buf : List UInt8) : Prop :=
  ∃ nine last rest, buf = nine ++ last :: rest ∧ nine.length = 9 ∧
    (∀ b ∈ nine, b &&& 0x80 ≠ 0) ∧ last &&& 0x80 = 0 ∧ 2 ≤ last.toNat

theorem isGroup_append_singleton {front : List UInt8} {last : UInt8} :
    IsGroup (front ++ [last]) ↔ (∀ b ∈ front, b &&& 0x80 ≠ 0) ∧ last &&& 0x80 = 0 := by
  induction front with
  | nil => simp [IsGroup]
  | cons b front ih =>
      by_cases hclear : b &&& 0x80 = 0
      · simp [isGroup_cons_clear hclear, hclear]
      · rw [List.cons_append, isGroup_cons hclear, ih, List.forall_mem_cons]
        exact ⟨fun h => ⟨⟨hclear, h.1⟩, h.2⟩, fun h => ⟨h.1.2, h.2⟩⟩

/-- Only the tenth byte can take a group past what fits. -/
theorem groupValue_overflow {front : List UInt8} {last : UInt8}
    (hlen : front.length + 1 ≤ 10) (hlast : last &&& 0x80 = 0) :
    2 ^ 64 ≤ groupValue (front ++ [last]) ↔ front.length = 9 ∧ 2 ≤ last.toNat := by
  have hfront := groupValue_lt front
  have hclear : last.toNat % 128 = last.toNat :=
    Nat.mod_eq_of_lt (byte_lt_of_clear hlast)
  rw [groupValue_append, groupValue_cons, groupValue_nil, hclear, Nat.mul_zero, Nat.add_zero]
  by_cases hten : front.length = 9
  · rw [hten] at hfront ⊢
    omega
  · have hpow : 128 ^ front.length ≤ 128 ^ 8 := Nat.pow_le_pow_right (by decide) (by omega)
    have hsum : 128 ^ front.length * last.toNat ≤ 128 ^ 8 * 127 :=
      Nat.mul_le_mul hpow (Nat.le_of_lt_succ (byte_lt_of_clear hlast))
    omega

/-- The bytes that denote a number too large are those that overflow the tenth byte. -/
theorem overflowing_iff {buf : List UInt8} : Overflowing buf ↔
    ∃ group rest, buf = group ++ rest ∧ IsGroup group ∧ group.length ≤ 10 ∧
      2 ^ 64 ≤ groupValue group := by
  constructor
  · rintro ⟨nine, last, rest, rfl, hnine, hset, hclear, hbits⟩
    refine ⟨nine ++ [last], rest, by simp, isGroup_append_singleton.mpr ⟨hset, hclear⟩, ?_, ?_⟩
    · rw [List.length_append, hnine, List.length_singleton]
    · exact (groupValue_overflow (by omega) hclear).mpr ⟨hnine, hbits⟩
  · rintro ⟨group, rest, rfl, hgroup, hlen, hlarge⟩
    obtain ⟨front, last, rfl⟩ := List.eq_nil_or_concat' group |>.resolve_left hgroup.ne_nil
    rw [List.length_append, List.length_singleton] at hlen
    obtain ⟨hset, hclear⟩ := isGroup_append_singleton.mp hgroup
    obtain ⟨hnine, hbits⟩ := (groupValue_overflow hlen hclear).mp hlarge
    exact ⟨front, last, rest, by simp, hnine, hset, hclear, hbits⟩

/-- A number with at most `n + 1` groups of seven bits takes at most that many bytes. -/
theorem length_putVarint_le {n : Nat} {v : UInt64} (hv : v.toNat < 128 ^ (n + 1)) :
    (putVarint v).length ≤ n + 1 := by
  induction n generalizing v with
  | zero =>
      have hsmall : v.toNat / 128 = 0 := Nat.div_eq_of_lt hv
      rw [putVarint_eq, if_pos hsmall, List.length_singleton]
  | succ n ih =>
      rw [putVarint_eq]
      split
      · simp
      · have hnext : (v >>> 7).toNat < 128 ^ (n + 1) := by
          rw [toNat_shiftRight_seven, Nat.div_lt_iff_lt_mul (by decide), ← Nat.pow_succ]
          exact hv
        exact Nat.succ_le_succ (ih hnext)

/-- No bytes that read as a number are fewer than those written for it. -/
theorem length_putVarint_le_of_isVarint {bytes : List UInt8} {v : UInt64}
    (h : IsVarint bytes v) : (putVarint v).length ≤ bytes.length := by
  obtain ⟨group, hbytes, hgroup, -, hv⟩ := readVarint_eq_some.mp h
  rw [List.append_nil] at hbytes
  subst hbytes
  obtain ⟨n, hn⟩ := Nat.exists_eq_succ_of_ne_zero
    (List.length_pos_of_ne_nil hgroup.ne_nil).ne'
  have hlt : v.toNat < 128 ^ bytes.length := by
    rw [hv]
    exact (Nat.mod_le _ _).trans_lt (groupValue_lt bytes)
  rw [hn] at hlt ⊢
  exact length_putVarint_le hlt

/-- Reading at any place of any buffer returns the number denoted there unless the tenth
byte of a group overflows; and a number written is read back from the fewest bytes that
denote it, whatever stands after them. -/
theorem readVarint_as_denoted (buf : List UInt8) (i : Nat) :
    (ReadAsDenoted (buf.drop i) ↔ ¬ Overflowing (buf.drop i)) ∧
    ∀ (v : UInt64) (rest : List UInt8),
      readVarint (putVarint v ++ rest) = some (v, rest) ∧
        ∀ bytes, IsVarint bytes v → (putVarint v).length ≤ bytes.length := by
  refine ⟨?_, fun v rest => ⟨readVarint_putVarint v rest, fun _ =>
    length_putVarint_le_of_isVarint⟩⟩
  generalize buf.drop i = bytes
  rw [overflowing_iff]
  constructor
  · rintro hread ⟨group, rest, hbytes, hgroup, hlen, hlarge⟩
    have hsome : readVarint bytes =
        some (UInt64.ofNat (groupValue group % 2 ^ 64), rest) := by
      refine readVarint_eq_some.mpr ⟨group, hbytes, hgroup, hlen, ?_⟩
      rw [UInt64.toNat_ofNat', Nat.mod_mod]
    obtain ⟨group', hbytes', hgroup', -, hsmall, -⟩ := (hread _ _).mp hsome
    rw [← hgroup.unique hgroup' (hbytes.symm.trans hbytes')] at hsmall
    exact absurd hlarge (Nat.not_le.mpr hsmall)
  · intro hfits v rest
    have hsmall : ∀ group, bytes = group ++ rest → IsGroup group → group.length ≤ 10 →
        groupValue group < 2 ^ 64 := fun group hbytes hgroup hlen =>
      Nat.not_le.mp fun hlarge => hfits ⟨group, rest, hbytes, hgroup, hlen, hlarge⟩
    rw [readVarint_eq_some]
    constructor
    · rintro ⟨group, hbytes, hgroup, hlen, hv⟩
      have hlt := hsmall group hbytes hgroup hlen
      exact ⟨group, hbytes, hgroup, hlen, hlt, hv.trans (Nat.mod_eq_of_lt hlt)⟩
    · rintro ⟨group, hbytes, hgroup, hlen, hlt, hv⟩
      exact ⟨group, hbytes, hgroup, hlen, hv.trans (Nat.mod_eq_of_lt hlt).symm⟩

/-- Ten bytes that denote `2 ^ 64` are read as zero. -/
theorem readVarint_overflow :
    readVarint [0x80, 0x80, 0x80, 0x80, 0x80, 0x80, 0x80, 0x80, 0x80, 2] = some (0, []) ∧
      ¬ ReadAsDenoted [0x80, 0x80, 0x80, 0x80, 0x80, 0x80, 0x80, 0x80, 0x80, 2] := by
  refine ⟨by decide, fun hread => ?_⟩
  obtain ⟨group, hbytes, hgroup, -, hsmall, -⟩ := (hread 0 []).mp (by decide)
  rw [List.append_nil] at hbytes
  subst hbytes
  exact absurd hsmall (by decide)

end RlnGifter
