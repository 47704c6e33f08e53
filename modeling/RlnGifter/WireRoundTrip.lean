/-
Decoding undoes encoding.  A written varint is read back whole, a written field
is one step of the walk, and so a message is read back field by field.
-/
import RlnGifter.Wire

namespace RlnGifter

theorem toNat_shiftRight_seven (v : UInt64) : (v >>> 7).toNat = v.toNat / 128 := by
  simp [UInt64.toNat_shiftRight, Nat.shiftRight_eq_div_pow]

theorem toNat_low_seven (v : UInt64) :
    (v &&& 0x7f).toUInt8.toNat = v.toNat % 128 := by
  have hmask : (v &&& 0x7f).toNat = v.toNat % 128 := by
    rw [UInt64.toNat_and]
    exact Nat.and_two_pow_sub_one_eq_mod v.toNat 7
  rw [UInt64.toNat_toUInt8, hmask]
  omega

theorem byte_and_mask (b : UInt8) : (b &&& 0x7f).toNat = b.toNat % 128 := by
  rw [UInt8.toNat_and]
  exact Nat.and_two_pow_sub_one_eq_mod b.toNat 7

/-- The top bit of a byte, and what setting it does to a byte without it. -/
theorem byte_top_bit : ∀ n < 128,
    (UInt8.ofNat n &&& 0x80 = 0) ∧ (UInt8.ofNat n ||| 0x80) &&& 0x80 ≠ 0 ∧
      (UInt8.ofNat n ||| 0x80).toNat = n + 128 := by
  decide

/-- One unrolling of the writer, in terms of the number written. -/
theorem putVarint_eq (v : UInt64) :
    putVarint v =
      if v.toNat / 128 = 0 then [UInt8.ofNat (v.toNat % 128)]
      else (UInt8.ofNat (v.toNat % 128) ||| 0x80) :: putVarint (v >>> 7) := by
  have hbyte : (v &&& 0x7f).toUInt8 = UInt8.ofNat (v.toNat % 128) := by
    rw [← UInt8.toNat_inj, toNat_low_seven, UInt8.toNat_ofNat']
    omega
  have hzero : v >>> 7 = 0 ↔ v.toNat / 128 = 0 := by
    rw [← UInt64.toNat_inj, toNat_shiftRight_seven]
    rfl
  rw [putVarint, hbyte]
  by_cases h : v.toNat / 128 = 0
  · rw [dif_neg (not_not.mpr (hzero.mpr h)), if_pos h]
  · rw [dif_pos (fun hv => h (hzero.mp hv)), if_neg h]

/-- Adding the next group of bits to what was read so far. -/
theorem toNat_accumulate {result : UInt64} {b : UInt8} {shift : Nat}
    (hshift : shift < 64) (hresult : result.toNat < 2 ^ shift)
    (hfits : b.toNat % 128 * 2 ^ shift < 2 ^ 64) :
    (result ||| ((b &&& 0x7f).toUInt64 <<< UInt64.ofNat shift)).toNat =
      result.toNat + b.toNat % 128 * 2 ^ shift := by
  have hsmall : (UInt64.ofNat shift).toNat % 64 = shift := by
    rw [UInt64.toNat_ofNat']
    omega
  rw [UInt64.toNat_or, UInt64.toNat_shiftLeft, UInt8.toNat_toUInt64,
    byte_and_mask, hsmall, Nat.shiftLeft_eq, Nat.mod_eq_of_lt hfits, Nat.or_comm,
    Nat.mul_comm, ← Nat.two_pow_add_eq_or_of_lt hresult, Nat.add_comm]

/-- Reading at any shift what was written of a number that still fits there. -/
theorem readVarintFrom_putVarint (v result : UInt64) (shift : Nat)
    (rest : List UInt8) (hshift : shift < 64)
    (hresult : result.toNat < 2 ^ shift) (hfits : v.toNat * 2 ^ shift < 2 ^ 64) :
    readVarintFrom result shift (putVarint v ++ rest) =
      some (UInt64.ofNat (result.toNat + v.toNat * 2 ^ shift), rest) := by
  induction hn : v.toNat using Nat.strongRecOn generalizing v result shift with
  | ind n ih =>
      subst hn
      have hlow : v.toNat % 128 < 128 := Nat.mod_lt _ (by decide)
      obtain ⟨hclear, hset, hsum⟩ := byte_top_bit (v.toNat % 128) hlow
      have hpart : v.toNat % 128 * 2 ^ shift ≤ v.toNat * 2 ^ shift :=
        Nat.mul_le_mul_right _ (Nat.mod_le _ _)
      rw [putVarint_eq]
      by_cases hlast : v.toNat / 128 = 0
      · have hbyte : (UInt8.ofNat (v.toNat % 128)).toNat % 128 = v.toNat := by
          rw [UInt8.toNat_ofNat']
          omega
        have hacc := toNat_accumulate (b := UInt8.ofNat (v.toNat % 128))
          hshift hresult (by rw [hbyte]; omega)
        rw [if_pos hlast, List.singleton_append, readVarintFrom]
        simp only [hclear, ↓reduceIte, Option.some.injEq, Prod.mk.injEq, and_true]
        rw [← UInt64.toNat_inj, hacc, hbyte, UInt64.toNat_ofNat', Nat.mod_eq_of_lt]
        rw [← hbyte, ← hacc]
        exact UInt64.toNat_lt _
      · have hbyte : (UInt8.ofNat (v.toNat % 128) ||| 0x80).toNat % 128 =
            v.toNat % 128 := by
          rw [hsum]
          omega
        have hacc := toNat_accumulate (b := UInt8.ofNat (v.toNat % 128) ||| 0x80)
          hshift hresult (by rw [hbyte]; omega)
        rw [hbyte] at hacc
        have hpow : 2 ^ (shift + 7) = 2 ^ shift * 128 := by rw [Nat.pow_add]
        have hsplit : v.toNat * 2 ^ shift =
            v.toNat % 128 * 2 ^ shift + v.toNat / 128 * 2 ^ (shift + 7) := by
          rw [hpow, ← Nat.mul_assoc, Nat.mul_right_comm, ← Nat.add_mul]
          congr 1
          omega
        have hroom : shift + 7 < 64 := by
          have hone : 2 ^ (shift + 7) ≤ v.toNat / 128 * 2 ^ (shift + 7) :=
            Nat.le_mul_of_pos_left _ (Nat.pos_of_ne_zero hlast)
          exact (Nat.pow_lt_pow_iff_right (by decide)).mp
            (show 2 ^ (shift + 7) < 2 ^ 64 by omega)
        have hnext : (result ||| ((UInt8.ofNat (v.toNat % 128) ||| 0x80) &&&
            0x7f).toUInt64 <<< UInt64.ofNat shift).toNat < 2 ^ (shift + 7) := by
          have hbound : v.toNat % 128 * 2 ^ shift ≤ 127 * 2 ^ shift :=
            Nat.mul_le_mul_right _ (by omega)
          omega
        rw [if_neg hlast, List.cons_append, readVarintFrom]
        simp only [hset, ↓reduceIte]
        rw [if_neg (by omega), ih (v >>> 7).toNat
          (by rw [toNat_shiftRight_seven]; omega) (v >>> 7) _ (shift + 7) hroom hnext
          (by rw [toNat_shiftRight_seven]; omega) rfl]
        rw [hacc, toNat_shiftRight_seven, hsplit, Nat.add_assoc]

/-- A written number is read back, and the bytes after it are left. -/
@[simp] theorem readVarint_putVarint (v : UInt64) (rest : List UInt8) :
    readVarint (putVarint v ++ rest) = some (v, rest) := by
  have hread := readVarintFrom_putVarint v 0 0 rest (by decide) (by decide)
    (by simpa using v.toNat_lt)
  simpa [readVarint] using hread

/-- A field key taken apart: the number and the wire type it was made of. -/
theorem key_parts {field wire : UInt64} (hfield : field.toNat < 2 ^ 61)
    (hwire : wire.toNat < 8) :
    ((field <<< 3) ||| wire) >>> 3 = field ∧ ((field <<< 3) ||| wire) &&& 7 = wire := by
  have hshift : (field <<< 3).toNat = 2 ^ 3 * field.toNat := by
    rw [UInt64.toNat_shiftLeft, Nat.shiftLeft_eq]
    simp only [UInt64.toNat_ofNat, Nat.reducePow, Nat.reduceMod]
    omega
  have hkey : ((field <<< 3) ||| wire).toNat = 8 * field.toNat + wire.toNat := by
    rw [UInt64.toNat_or, hshift, ← Nat.two_pow_add_eq_or_of_lt hwire]
  constructor
  · rw [← UInt64.toNat_inj, UInt64.toNat_shiftRight, hkey, Nat.shiftRight_eq_div_pow]
    simp only [UInt64.toNat_ofNat, Nat.reducePow, Nat.reduceMod]
    omega
  · rw [← UInt64.toNat_inj, UInt64.toNat_and, hkey]
    refine (Nat.and_two_pow_sub_one_eq_mod _ 3).trans ?_
    omega

/-- A written length-delimited field is read as one field. -/
theorem readField_putLenField {size : Nat} {field : UInt64}
    {data rest : List UInt8} (hfield : field.toNat < 2 ^ 61)
    (hroom : data.length + rest.length ≤ size) (hsize : size < 2 ^ 64) :
    readField size (putLenField field data ++ rest) =
      .ok (field, .bytes data, rest) := by
  obtain ⟨hnumber, hwire⟩ := @key_parts field 2 hfield (by decide)
  have hlen : (UInt64.ofNat data.length).toNat = data.length := by
    rw [UInt64.toNat_ofNat', Nat.mod_eq_of_lt (by omega)]
  rw [putLenField, List.append_assoc, List.append_assoc, readField]
  simp only [readVarint_putVarint, hwire, hnumber, hlen, List.length_append,
    List.take_left, List.drop_left]
  rw [if_neg (by decide), if_pos trivial, if_neg (by omega), if_neg (by omega)]

/-- A written varint field is read as one field. -/
theorem readField_putVarintField {size : Nat} {field v : UInt64}
    {rest : List UInt8} (hfield : field.toNat < 2 ^ 61) :
    readField size (putVarintField field v ++ rest) =
      .ok (field, .varint v, rest) := by
  obtain ⟨hnumber, hwire⟩ := @key_parts field 0 hfield (by decide)
  rw [UInt64.or_zero] at hnumber hwire
  rw [putVarintField, List.append_assoc, readField]
  simp only [readVarint_putVarint, hwire, hnumber, ↓reduceIte]

section Walk

variable {σ : Type} {f : σ → UInt64 → FieldVal → σ} {s : σ} {size : Nat}

@[simp] theorem walkFrom_nil : walkFrom f size s [] = .ok s := by
  rw [walkFrom, if_pos rfl]

/-- One turn of the walk. -/
theorem walkFrom_of_readField {buf rest : List UInt8} {field : UInt64}
    {v : FieldVal} (hread : readField size buf = .ok (field, v, rest)) :
    walkFrom f size s buf = walkFrom f size (f s field v) rest := by
  have hne : buf ≠ [] := by
    rintro rfl
    exact absurd (readField_shorter hread) (Nat.not_lt_zero _)
  rw [walkFrom, if_neg hne]
  split
  · rename_i e he
    rw [hread] at he
    cases he
  · rename_i field' v' rest' hok
    rw [hread] at hok
    cases hok
    rfl

end Walk

/-- One field as the encoders write it. -/
def putField (field : UInt64) : FieldVal → List UInt8
  | .varint v => putVarintField field v
  | .bytes data => putLenField field data

/-- Fields written one after another. -/
def putFields (fields : List (UInt64 × FieldVal)) : List UInt8 :=
  fields.flatMap fun p => putField p.1 p.2

theorem readField_putField {size : Nat} {field : UInt64} {v : FieldVal}
    {rest : List UInt8} (hfield : field.toNat < 2 ^ 61)
    (hroom : (putField field v ++ rest).length ≤ size) (hsize : size < 2 ^ 64) :
    readField size (putField field v ++ rest) = .ok (field, v, rest) := by
  cases v with
  | varint n => exact readField_putVarintField hfield
  | bytes data =>
      apply readField_putLenField hfield _ hsize
      simp only [putField, putLenField, List.length_append] at hroom
      omega

/-- The walk over written fields hands them over in order. -/
theorem walkFrom_putFields {σ : Type} {f : σ → UInt64 → FieldVal → σ} {s : σ}
    {size : Nat} {fields : List (UInt64 × FieldVal)}
    (hnumbers : ∀ p ∈ fields, p.1.toNat < 2 ^ 61)
    (hroom : (putFields fields).length ≤ size) (hsize : size < 2 ^ 64) :
    walkFrom f size s (putFields fields) =
      .ok (fields.foldl (fun s p => f s p.1 p.2) s) := by
  induction fields generalizing s with
  | nil => exact walkFrom_nil
  | cons p fields ih =>
      have hbytes : putFields (p :: fields) = putField p.1 p.2 ++ putFields fields :=
        rfl
      rw [hbytes] at hroom ⊢
      rw [walkFrom_of_readField (readField_putField
        (hnumbers p List.mem_cons_self) hroom hsize), List.foldl_cons]
      apply ih fun q hq => hnumbers q (List.mem_cons_of_mem p hq)
      rw [List.length_append] at hroom
      omega

theorem walkFields_putFields {σ : Type} {f : σ → UInt64 → FieldVal → σ} {s : σ}
    {fields : List (UInt64 × FieldVal)}
    (hnumbers : ∀ p ∈ fields, p.1.toNat < 2 ^ 61)
    (hsize : (putFields fields).length < 2 ^ 64) :
    walkFields f s (putFields fields) =
      .ok (fields.foldl (fun s p => f s p.1 p.2) s) :=
  walkFrom_putFields hnumbers (Nat.le_refl _) hsize

/-- An optional field, present or left out. -/
def optField (field : UInt64) (v : Option FieldVal) : List (UInt64 × FieldVal) :=
  match v with
  | some v => [(field, v)]
  | none => []

namespace RlnGifterRequest

/-- The fields of a request in the order they are written. -/
def fields (m : RlnGifterRequest) : List (UInt64 × FieldVal) :=
  [(1, .bytes (utf8 m.requestId)), (2, .bytes m.authenticationType),
    (3, .bytes m.authenticationPayload), (4, .bytes m.identityCommitment)] ++
    optField 5 (m.rateLimit.map .varint)

theorem encode_eq_putFields (m : RlnGifterRequest) : m.encode = putFields m.fields := by
  cases hrate : m.rateLimit <;>
    simp [encode, fields, putFields, putField, optField, hrate]

theorem foldl_take_fields (m : RlnGifterRequest) :
    m.fields.foldl (fun d p => take d p.1 p.2) {} =
      { m := m, haveId := true, haveIdc := true } := by
  cases m with
  | mk requestId authenticationType authenticationPayload identityCommitment
      rateLimit =>
      cases rateLimit <;>
        simp [fields, optField, take, asString, asBytes, asU64]

theorem fields_numbers (m : RlnGifterRequest) : ∀ p ∈ m.fields, p.1.toNat < 2 ^ 61 := by
  intro p hp
  cases hrate : m.rateLimit <;> simp [fields, optField, hrate] at hp <;>
    rcases hp with rfl | rfl | rfl | rfl | rfl <;> simp

theorem decode_encode_of_fits (m : RlnGifterRequest)
    (hfits : m.encode.length < 2 ^ 64) : decode m.encode = .ok m := by
  rw [encode_eq_putFields] at hfits ⊢
  rw [decode, walkFields_putFields m.fields_numbers hfits, foldl_take_fields]
  rfl

end RlnGifterRequest

namespace MembershipAllocationSuccess

def fields (m : MembershipAllocationSuccess) : List (UInt64 × FieldVal) :=
  [(1, .varint m.leafIndex), (2, .bytes m.merkleRoot),
    (3, .varint m.blockNumber), (4, .bytes m.transactionHash)] ++
    optField 100 (m.configAccountId.map fun cfg => .bytes (utf8 cfg))

theorem encode_eq_putFields (m : MembershipAllocationSuccess) :
    m.encode = putFields m.fields := by
  cases hcfg : m.configAccountId <;>
    simp [encode, fields, putFields, putField, optField, hcfg]

theorem decode_encode_of_fits (m : MembershipAllocationSuccess)
    (hfits : m.encode.length < 2 ^ 64) : decode m.encode = .ok m := by
  have hnumbers : ∀ p ∈ m.fields, p.1.toNat < 2 ^ 61 := by
    intro p hp
    cases hcfg : m.configAccountId <;> simp [fields, optField, hcfg] at hp <;>
      rcases hp with rfl | rfl | rfl | rfl | rfl <;> simp
  rw [encode_eq_putFields] at hfits ⊢
  rw [decode, walkFields_putFields hnumbers hfits]
  cases m with
  | mk leafIndex merkleRoot blockNumber transactionHash configAccountId =>
      cases configAccountId <;>
        simp [fields, optField, take, asString, asBytes, asU64]

end MembershipAllocationSuccess

namespace MembershipAllocationFailure

theorem decode_encode_of_fits (m : MembershipAllocationFailure)
    (hfits : m.encode.length < 2 ^ 64) : decode m.encode = .ok m := by
  have hbytes : m.encode = putFields [(1, .bytes (utf8 m.errorMessage))] := by
    simp [encode, putFields, putField]
  rw [hbytes] at hfits ⊢
  rw [decode, walkFields_putFields (by simp) hfits]
  simp [take, asString]

end MembershipAllocationFailure

namespace RlnGifterResponse

def fields (m : RlnGifterResponse) : List (UInt64 × FieldVal) :=
  [(1, .bytes (utf8 m.requestId)),
    (2, .varint (if m.authSuccess then 1 else 0))] ++
    optField 3 (m.error.map fun e => .bytes (utf8 e)) ++
    optField 4 (m.success.map fun s => .bytes s.encode) ++
    optField 5 (m.failure.map fun f => .bytes f.encode)

theorem encode_eq_putFields (m : RlnGifterResponse) :
    m.encode = putFields m.fields := by
  cases herror : m.error <;> cases hsuccess : m.success <;>
    cases hfailure : m.failure <;>
      simp [encode, fields, putFields, putField, optField, herror, hsuccess,
        hfailure]

/-- A sub-message is shorter than the message it is written into. -/
theorem field_length_lt {fields : List (UInt64 × FieldVal)} {field : UInt64}
    {data : List UInt8} {bound : Nat} (hmem : (field, .bytes data) ∈ fields)
    (hfits : (putFields fields).length < bound) : data.length < bound := by
  induction fields with
  | nil => cases hmem
  | cons p fields ih =>
      have hbytes : putFields (p :: fields) = putField p.1 p.2 ++ putFields fields :=
        rfl
      rw [hbytes, List.length_append] at hfits
      rcases List.mem_cons.mp hmem with rfl | htail
      · simp only [putField, putLenField, List.length_append] at hfits
        omega
      · exact ih htail (by omega)

theorem take_error {d : Draft} (hnone : d.m.error = none) (error : Option String) :
    (optField 3 (error.map fun e => .bytes (utf8 e))).foldl (fun d p => take d p.1 p.2) d =
      { d with m := { d.m with error } } := by
  cases error with
  | none =>
      change d = { d with m := { d.m with error := none } }
      rw [← hnone]
  | some e => simp [optField, take, asString]

theorem take_success {d : Draft} (hnone : d.m.success = none)
    {success : Option MembershipAllocationSuccess}
    (hsuccess : ∀ s, success = some s → MembershipAllocationSuccess.decode s.encode = .ok s) :
    (optField 4 (success.map fun s => .bytes s.encode)).foldl (fun d p => take d p.1 p.2) d =
      { d with m := { d.m with success } } := by
  cases success with
  | none =>
      change d = { d with m := { d.m with success := none } }
      rw [← hnone]
  | some s => simp [optField, take, asBytes, hsuccess s rfl]

theorem take_failure {d : Draft} (hnone : d.m.failure = none)
    {failure : Option MembershipAllocationFailure}
    (hfailure : ∀ f, failure = some f → MembershipAllocationFailure.decode f.encode = .ok f) :
    (optField 5 (failure.map fun f => .bytes f.encode)).foldl (fun d p => take d p.1 p.2) d =
      { d with m := { d.m with failure } } := by
  cases failure with
  | none =>
      change d = { d with m := { d.m with failure := none } }
      rw [← hnone]
  | some f => simp [optField, take, asBytes, hfailure f rfl]

theorem foldl_take_fields (m : RlnGifterResponse)
    (hsuccess : ∀ s, m.success = some s →
      MembershipAllocationSuccess.decode s.encode = .ok s)
    (hfailure : ∀ f, m.failure = some f →
      MembershipAllocationFailure.decode f.encode = .ok f) :
    m.fields.foldl (fun d p => take d p.1 p.2) {} =
      { m := m, haveId := true, haveAuth := true } := by
  have hflag : (asU64 (.varint (if m.authSuccess then 1 else 0)) != 0) = m.authSuccess := by
    cases m.authSuccess <;> rfl
  rw [fields, List.foldl_append, List.foldl_append, List.foldl_append, take_error,
    take_success _ hsuccess, take_failure _ hfailure]
  · simp [take, asString, hflag]
  all_goals rfl

theorem fields_numbers (m : RlnGifterResponse) : ∀ p ∈ m.fields, p.1.toNat < 2 ^ 61 := by
  intro p hp
  simp only [fields, List.mem_append, List.mem_cons, List.not_mem_nil,
    or_false] at hp
  rcases hp with (((rfl | rfl) | hp) | hp) | hp
  · simp
  · simp
  · cases herror : m.error <;> simp [optField, herror] at hp
    simp [hp]
  · cases hsuccess : m.success <;> simp [optField, hsuccess] at hp
    simp [hp]
  · cases hfailure : m.failure <;> simp [optField, hfailure] at hp
    simp [hp]

/-- The success in a response is read back. -/
theorem decode_success_of_fits {m : RlnGifterResponse} (hfits : m.encode.length < 2 ^ 64)
    {s : MembershipAllocationSuccess} (hs : m.success = some s) :
    MembershipAllocationSuccess.decode s.encode = .ok s := by
  apply MembershipAllocationSuccess.decode_encode_of_fits
  have hmem : (4, .bytes s.encode) ∈ m.fields := by simp [fields, optField, hs]
  rw [encode_eq_putFields] at hfits
  exact field_length_lt hmem hfits

/-- The failure in a response is read back. -/
theorem decode_failure_of_fits {m : RlnGifterResponse} (hfits : m.encode.length < 2 ^ 64)
    {f : MembershipAllocationFailure} (hf : m.failure = some f) :
    MembershipAllocationFailure.decode f.encode = .ok f := by
  apply MembershipAllocationFailure.decode_encode_of_fits
  have hmem : (5, .bytes f.encode) ∈ m.fields := by simp [fields, optField, hf]
  rw [encode_eq_putFields] at hfits
  exact field_length_lt hmem hfits

theorem decode_encode_of_fits (m : RlnGifterResponse)
    (hfits : m.encode.length < 2 ^ 64) : decode m.encode = .ok m := by
  have hfold := foldl_take_fields m (fun _ => decode_success_of_fits hfits)
    (fun _ => decode_failure_of_fits hfits)
  rw [encode_eq_putFields] at hfits ⊢
  rw [decode, walkFields_putFields m.fields_numbers hfits, hfold]
  rfl

end RlnGifterResponse

/-- A codec reads back what it wrote, wherever that fits a buffer, and so writes no
two messages alike. -/
structure RoundTrips {α : Type} (encode : α → List UInt8)
    (decode : List UInt8 → Except String α) : Prop where
  decode_encode : ∀ m, (encode m).length < 2 ^ 64 → decode (encode m) = .ok m
  injective : ∀ m m', (encode m).length < 2 ^ 64 → encode m = encode m' → m = m'

theorem RoundTrips.of_decode_encode {α : Type} {encode : α → List UInt8}
    {decode : List UInt8 → Except String α}
    (h : ∀ m, (encode m).length < 2 ^ 64 → decode (encode m) = .ok m) :
    RoundTrips encode decode := by
  refine ⟨h, ?_⟩
  intro m m' hfits heq
  have hm := h m hfits
  rw [heq, h m' (heq ▸ hfits)] at hm
  exact (Except.ok.inj hm).symm

/-- The wire round trip of every message. -/
theorem wire_roundTrips :
    RoundTrips RlnGifterRequest.encode RlnGifterRequest.decode ∧
      RoundTrips MembershipAllocationSuccess.encode MembershipAllocationSuccess.decode ∧
      RoundTrips MembershipAllocationFailure.encode MembershipAllocationFailure.decode ∧
      RoundTrips RlnGifterResponse.encode RlnGifterResponse.decode :=
  ⟨.of_decode_encode RlnGifterRequest.decode_encode_of_fits,
    .of_decode_encode MembershipAllocationSuccess.decode_encode_of_fits,
    .of_decode_encode MembershipAllocationFailure.decode_encode_of_fits,
    .of_decode_encode RlnGifterResponse.decode_encode_of_fits⟩

end RlnGifter
