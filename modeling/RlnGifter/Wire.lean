/-
The wire codec of the gifter messages: protobuf varint and length-delimited
fields, written in field order and read back by a walk that hands every field
to a decoder.
-/
import RlnGifter.Text

namespace RlnGifter

/-- `RLN_GIFTER_CODEC`. -/
def rlnGifterCodec : String := "/logos/rln/membership/1.0.0"

structure RlnGifterRequest where
  requestId : String := ""
  authenticationType : List UInt8 := []
  authenticationPayload : List UInt8 := []
  identityCommitment : List UInt8 := []
  rateLimit : Option UInt64 := none
deriving DecidableEq

structure MembershipAllocationSuccess where
  leafIndex : UInt64 := 0
  merkleRoot : List UInt8 := []
  blockNumber : UInt64 := 0
  transactionHash : List UInt8 := []
  configAccountId : Option String := none
deriving DecidableEq

structure MembershipAllocationFailure where
  errorMessage : String := ""
deriving DecidableEq

structure RlnGifterResponse where
  requestId : String := ""
  authSuccess : Bool := false
  error : Option String := none
  success : Option MembershipAllocationSuccess := none
  failure : Option MembershipAllocationFailure := none
deriving DecidableEq

theorem shiftRight_seven_lt {v : UInt64} (hv : v >>> 7 ≠ 0) :
    (v >>> 7).toNat < v.toNat := by
  have hdiv : (v >>> 7).toNat = v.toNat / 128 := by
    simp [UInt64.toNat_shiftRight, Nat.shiftRight_eq_div_pow]
  have hne : (v >>> 7).toNat ≠ 0 := fun h =>
    hv (UInt64.toNat_inj.mp (by simpa using h))
  omega

/-- Seven bits a byte, lowest first, the top bit set on all but the last. -/
def putVarint (v : UInt64) : List UInt8 :=
  let b := (v &&& 0x7f).toUInt8
  if _h : v >>> 7 ≠ 0 then (b ||| 0x80) :: putVarint (v >>> 7) else [b]
termination_by v.toNat
decreasing_by exact shiftRight_seven_lt _h

def putLenField (field : UInt64) (data : List UInt8) : List UInt8 :=
  putVarint ((field <<< 3) ||| 2) ++ putVarint (UInt64.ofNat data.length) ++ data

def putVarintField (field v : UInt64) : List UInt8 :=
  putVarint (field <<< 3) ++ putVarint v

/-- The loop of `read_varint`; a place in the buffer is given by the bytes from
it on. -/
def readVarintFrom (result : UInt64) (shift : Nat) :
    List UInt8 → Option (UInt64 × List UInt8)
  | [] => none
  | b :: rest =>
      let result := result ||| ((b &&& 0x7f).toUInt64 <<< UInt64.ofNat shift)
      if b &&& 0x80 = 0 then some (result, rest)
      else if 64 ≤ shift + 7 then none
      else readVarintFrom result (shift + 7) rest

def readVarint (buf : List UInt8) : Option (UInt64 × List UInt8) :=
  readVarintFrom 0 0 buf

theorem readVarintFrom_shorter {result v : UInt64} {shift : Nat}
    {buf rest : List UInt8} (h : readVarintFrom result shift buf = some (v, rest)) :
    rest.length < buf.length := by
  induction buf generalizing result shift with
  | nil => simp [readVarintFrom] at h
  | cons b tail ih =>
      simp only [readVarintFrom] at h
      split at h
      · simp only [Option.some.injEq, Prod.mk.injEq] at h
        simp [h.2]
      · split at h
        · cases h
        · exact Nat.lt_succ_of_lt (ih h)

theorem readVarint_shorter {v : UInt64} {buf rest : List UInt8}
    (h : readVarint buf = some (v, rest)) : rest.length < buf.length :=
  readVarintFrom_shorter h

inductive FieldVal where
  | varint (n : UInt64)
  | bytes (data : List UInt8)
deriving DecidableEq

/-- One turn of the loop of `walk_fields` in a buffer of `size` bytes: the field
number and value at the front of `buf`, and the bytes after them. -/
def readField (size : Nat) (buf : List UInt8) :
    Except String (UInt64 × FieldVal × List UInt8) :=
  match readVarint buf with
  | none => .error "truncated field key"
  | some (key, rest) =>
      let field := key >>> 3
      if key &&& 7 = 0 then
        match readVarint rest with
        | none => .error "truncated varint value"
        | some (v, rest') => .ok (field, .varint v, rest')
      else if key &&& 7 = 2 then
        match readVarint rest with
        | none => .error "truncated length"
        | some (len, rest') =>
            let last := (size - rest'.length) + len.toNat
            if 2 ^ 64 ≤ last then .error "length overflow"
            else if size < last then .error "length exceeds buffer"
            else .ok (field, .bytes (rest'.take len.toNat), rest'.drop len.toNat)
      else .error ("unsupported wire type " ++ toString (key &&& 7).toNat)

theorem readField_shorter {size : Nat} {buf rest : List UInt8} {field : UInt64}
    {v : FieldVal} (h : readField size buf = .ok (field, v, rest)) :
    rest.length < buf.length := by
  unfold readField at h
  split at h
  · cases h
  · rename_i key rest₁ hkey
    have hfirst := readVarint_shorter hkey
    dsimp only at h
    split at h
    · split at h
      · cases h
      · rename_i n rest₂ hval
        have hsecond := readVarint_shorter hval
        simp only [Except.ok.injEq, Prod.mk.injEq] at h
        rw [← h.2.2]
        omega
    · split at h
      · split at h
        · cases h
        · rename_i len rest₂ hlen
          have hsecond := readVarint_shorter hlen
          split at h
          · cases h
          · split at h
            · cases h
            · simp only [Except.ok.injEq, Prod.mk.injEq] at h
              rw [← h.2.2, List.length_drop]
              omega
      · cases h

/-- The loop of `walk_fields` over the bytes still to read of a buffer of
`size` bytes; `f` takes each field into the state it builds. -/
def walkFrom {σ : Type} (f : σ → UInt64 → FieldVal → σ) (size : Nat) (s : σ)
    (buf : List UInt8) : Except String σ :=
  if buf = [] then .ok s
  else
    match _h : readField size buf with
    | .error e => .error e
    | .ok (field, v, rest) => walkFrom f size (f s field v) rest
termination_by buf.length
decreasing_by exact readField_shorter _h

def walkFields {σ : Type} (f : σ → UInt64 → FieldVal → σ) (s : σ)
    (buf : List UInt8) : Except String σ :=
  walkFrom f buf.length s buf

def asBytes : FieldVal → List UInt8
  | .bytes b => b
  | .varint _ => []

def asString : FieldVal → String
  | .bytes b => fromUtf8Lossy b
  | .varint _ => ""

def asU64 : FieldVal → UInt64
  | .varint n => n
  | .bytes _ => 0

namespace RlnGifterRequest

def encode (m : RlnGifterRequest) : List UInt8 :=
  putLenField 1 (utf8 m.requestId) ++
  putLenField 2 m.authenticationType ++
  putLenField 3 m.authenticationPayload ++
  putLenField 4 m.identityCommitment ++
  match m.rateLimit with
  | some r => putVarintField 5 r
  | none => []

/-- The message read so far and the two `have_` flags. -/
structure Draft where
  m : RlnGifterRequest := {}
  haveId : Bool := false
  haveIdc : Bool := false

def take (d : Draft) (field : UInt64) (v : FieldVal) : Draft :=
  if field = 1 then
    { d with m := { d.m with requestId := asString v }, haveId := true }
  else if field = 2 then
    { d with m := { d.m with authenticationType := asBytes v } }
  else if field = 3 then
    { d with m := { d.m with authenticationPayload := asBytes v } }
  else if field = 4 then
    { d with m := { d.m with identityCommitment := asBytes v }, haveIdc := true }
  else if field = 5 then
    { d with m := { d.m with rateLimit := some (asU64 v) } }
  else d

def decode (buf : List UInt8) : Except String RlnGifterRequest :=
  match walkFields take {} buf with
  | .error e => .error e
  | .ok d =>
      if d.haveId = false then .error "missing request_id"
      else if d.haveIdc = false then .error "missing identity_commitment"
      else .ok d.m

end RlnGifterRequest

namespace MembershipAllocationSuccess

def encode (m : MembershipAllocationSuccess) : List UInt8 :=
  putVarintField 1 m.leafIndex ++
  putLenField 2 m.merkleRoot ++
  putVarintField 3 m.blockNumber ++
  putLenField 4 m.transactionHash ++
  match m.configAccountId with
  | some cfg => putLenField 100 (utf8 cfg)
  | none => []

def take (m : MembershipAllocationSuccess) (field : UInt64) (v : FieldVal) :
    MembershipAllocationSuccess :=
  if field = 1 then { m with leafIndex := asU64 v }
  else if field = 2 then { m with merkleRoot := asBytes v }
  else if field = 3 then { m with blockNumber := asU64 v }
  else if field = 4 then { m with transactionHash := asBytes v }
  else if field = 100 then { m with configAccountId := some (asString v) }
  else m

def decode (buf : List UInt8) : Except String MembershipAllocationSuccess :=
  walkFields take {} buf

end MembershipAllocationSuccess

namespace MembershipAllocationFailure

def encode (m : MembershipAllocationFailure) : List UInt8 :=
  putLenField 1 (utf8 m.errorMessage)

def take (m : MembershipAllocationFailure) (field : UInt64) (v : FieldVal) :
    MembershipAllocationFailure :=
  if field = 1 then { m with errorMessage := asString v } else m

def decode (buf : List UInt8) : Except String MembershipAllocationFailure :=
  walkFields take {} buf

end MembershipAllocationFailure

namespace RlnGifterResponse

def encode (m : RlnGifterResponse) : List UInt8 :=
  putLenField 1 (utf8 m.requestId) ++
  putVarintField 2 (if m.authSuccess then 1 else 0) ++
  (match m.error with
    | some e => putLenField 3 (utf8 e)
    | none => []) ++
  (match m.success with
    | some s => putLenField 4 s.encode
    | none => []) ++
  match m.failure with
  | some f => putLenField 5 f.encode
  | none => []

/-- The message read so far, the two `have_` flags and the last error of a
sub-message. -/
structure Draft where
  m : RlnGifterResponse := {}
  haveId : Bool := false
  haveAuth : Bool := false
  subErr : Option String := none

def take (d : Draft) (field : UInt64) (v : FieldVal) : Draft :=
  if field = 1 then
    { d with m := { d.m with requestId := asString v }, haveId := true }
  else if field = 2 then
    { d with m := { d.m with authSuccess := asU64 v != 0 }, haveAuth := true }
  else if field = 3 then
    { d with m := { d.m with error := some (asString v) } }
  else if field = 4 then
    match MembershipAllocationSuccess.decode (asBytes v) with
    | .ok s => { d with m := { d.m with success := some s } }
    | .error e => { d with subErr := some e }
  else if field = 5 then
    match MembershipAllocationFailure.decode (asBytes v) with
    | .ok f => { d with m := { d.m with failure := some f } }
    | .error e => { d with subErr := some e }
  else d

def decode (buf : List UInt8) : Except String RlnGifterResponse :=
  match walkFields take {} buf with
  | .error e => .error e
  | .ok d =>
      match d.subErr with
      | some e => .error e
      | none =>
          if d.haveId = false then .error "missing request_id"
          else if d.haveAuth = false then .error "missing auth_success"
          else .ok d.m

end RlnGifterResponse

end RlnGifter
