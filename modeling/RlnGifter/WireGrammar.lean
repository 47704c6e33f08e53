/-
The language of the decoders.  The walk accepts exactly the concatenations of
fields, in one way only, and a decoded message has the last occurrence of each of
its fields, so neither unknown fields nor the order of different fields matter.
-/
import RlnGifter.WireRoundTrip

namespace RlnGifter

/-- These bytes are one varint, as `read_varint` reads it. -/
def IsVarint (bytes : List UInt8) (v : UInt64) : Prop :=
  readVarint bytes = some (v, [])

/-- A field of a message and the bytes it stands in. -/
structure Piece where
  number : UInt64
  val : FieldVal
  bytes : List UInt8

/-- A field: a key varint with wire type 0 and a varint, or with wire type 2, a
length varint and that many bytes. -/
inductive IsField : Piece → Prop where
  | varint {key v : UInt64} {keyBytes valBytes : List UInt8} (hkey : IsVarint keyBytes key)
      (hwire : key &&& 7 = 0) (hval : IsVarint valBytes v) :
      IsField ⟨key >>> 3, .varint v, keyBytes ++ valBytes⟩
  | bytes {key len : UInt64} {keyBytes lenBytes data : List UInt8}
      (hkey : IsVarint keyBytes key) (hwire : key &&& 7 = 2) (hlen : IsVarint lenBytes len)
      (hdata : data.length = len.toNat) :
      IsField ⟨key >>> 3, .bytes data, keyBytes ++ (lenBytes ++ data)⟩

/-- The bytes are the concatenation of these fields. -/
structure Decomposes (pieces : List Piece) (buf : List UInt8) : Prop where
  fields : ∀ p ∈ pieces, IsField p
  concat : pieces.flatMap Piece.bytes = buf

section Varint

theorem readVarintFrom_sound {result v : UInt64} {shift : Nat} {buf rest : List UInt8}
    (h : readVarintFrom result shift buf = some (v, rest)) :
    ∃ bytes, buf = bytes ++ rest ∧ bytes ≠ [] ∧
      ∀ rest', readVarintFrom result shift (bytes ++ rest') = some (v, rest') := by
  induction buf generalizing result shift with
  | nil => cases h
  | cons b tail ih =>
      simp only [readVarintFrom] at h
      by_cases hlast : b &&& 0x80 = 0
      · rw [if_pos hlast, Option.some.injEq, Prod.mk.injEq] at h
        obtain ⟨rfl, rfl⟩ := h
        refine ⟨[b], rfl, by simp, ?_⟩
        intro rest'
        simp [readVarintFrom, hlast]
      · rw [if_neg hlast] at h
        by_cases hroom : 64 ≤ shift + 7
        · rw [if_pos hroom] at h
          cases h
        · rw [if_neg hroom] at h
          obtain ⟨bytes, rfl, -, hread⟩ := ih h
          refine ⟨b :: bytes, rfl, by simp, ?_⟩
          intro rest'
          simp only [List.cons_append, readVarintFrom, if_neg hlast, if_neg hroom]
          exact hread rest'

theorem readVarint_sound {v : UInt64} {buf rest : List UInt8}
    (h : readVarint buf = some (v, rest)) : ∃ bytes, buf = bytes ++ rest ∧ IsVarint bytes v := by
  obtain ⟨bytes, hbuf, -, hread⟩ := readVarintFrom_sound h
  refine ⟨bytes, hbuf, ?_⟩
  have hnil := hread []
  rwa [List.append_nil] at hnil

theorem IsVarint.read {bytes : List UInt8} {v : UInt64} (h : IsVarint bytes v)
    (rest : List UInt8) : readVarint (bytes ++ rest) = some (v, rest) := by
  obtain ⟨bytes', hbytes, -, hread⟩ := readVarintFrom_sound h
  rw [List.append_nil] at hbytes
  subst hbytes
  exact hread rest

theorem IsVarint.ne_nil {bytes : List UInt8} {v : UInt64} (h : IsVarint bytes v) :
    bytes ≠ [] := by
  rintro rfl
  cases h

end Varint

section Field

variable {size : Nat} {buf rest : List UInt8} {number : UInt64} {val : FieldVal}

theorem IsField.ne_nil {p : Piece} (h : IsField p) : p.bytes ≠ [] := by
  cases h with
  | varint hkey => simp [hkey.ne_nil]
  | bytes hkey => simp [hkey.ne_nil]

/-- What one turn of the walk accepts is a field. -/
theorem readField_sound (h : readField size buf = .ok (number, val, rest))
    (hroom : buf.length ≤ size) :
    ∃ bytes, buf = bytes ++ rest ∧ IsField ⟨number, val, bytes⟩ := by
  unfold readField at h
  split at h
  · cases h
  · rename_i key rest₁ hkey
    obtain ⟨keyBytes, rfl, hkeyBytes⟩ := readVarint_sound hkey
    dsimp only at h
    split at h
    · rename_i hwire
      split at h
      · cases h
      · rename_i n rest₂ hval
        obtain ⟨valBytes, rfl, hvalBytes⟩ := readVarint_sound hval
        cases h
        exact ⟨keyBytes ++ valBytes, by simp, .varint hkeyBytes hwire hvalBytes⟩
    · split at h
      · rename_i hwire
        split at h
        · cases h
        · rename_i len rest₂ hlen
          obtain ⟨lenBytes, rfl, hlenBytes⟩ := readVarint_sound hlen
          split at h
          · cases h
          · split at h
            · cases h
            · rename_i hlast
              simp only [List.length_append] at hroom
              have hdata : (rest₂.take len.toNat).length = len.toNat := by
                rw [List.length_take]
                omega
              cases h
              exact ⟨keyBytes ++ (lenBytes ++ rest₂.take len.toNat), by simp,
                .bytes hkeyBytes hwire hlenBytes hdata⟩
      · cases h

/-- One turn of the walk accepts every field there is room for. -/
theorem readField_complete {p : Piece} (h : IsField p)
    (hroom : (p.bytes ++ rest).length ≤ size) (hsize : size < 2 ^ 64) :
    readField size (p.bytes ++ rest) = .ok (p.number, p.val, rest) := by
  cases h with
  | varint hkey hwire hval =>
      rw [List.append_assoc, readField, hkey.read]
      simp only [hwire, ↓reduceIte, hval.read]
  | @bytes key len keyBytes lenBytes data hkey hwire hlen hdata =>
      have hne : ¬ key &&& 7 = 0 := by
        rw [hwire]
        decide
      simp only [List.length_append] at hroom
      rw [List.append_assoc, readField, hkey.read, List.append_assoc]
      simp only [if_neg hne, if_pos hwire, hlen.read, List.length_append]
      rw [if_neg (by omega), if_neg (by omega), ← hdata, List.take_left, List.drop_left]

end Field

section Walk

variable {σ : Type} {f : σ → UInt64 → FieldVal → σ} {s : σ} {size : Nat}

/-- What the walk makes of fields. -/
def foldFields (f : σ → UInt64 → FieldVal → σ) (s : σ) (pieces : List Piece) : σ :=
  pieces.foldl (fun s p => f s p.number p.val) s

theorem decomposes_nil : Decomposes [] [] :=
  ⟨by simp, rfl⟩

theorem Decomposes.cons {p : Piece} {pieces : List Piece} {buf : List UInt8} (hp : IsField p)
    (h : Decomposes pieces buf) : Decomposes (p :: pieces) (p.bytes ++ buf) := by
  refine ⟨?_, by rw [List.flatMap_cons, h.concat]⟩
  intro q hq
  rcases List.mem_cons.mp hq with rfl | hq
  · exact hp
  · exact h.fields q hq

theorem Decomposes.tail {p : Piece} {pieces : List Piece} {buf : List UInt8}
    (h : Decomposes (p :: pieces) buf) :
    IsField p ∧ ∃ rest, buf = p.bytes ++ rest ∧ Decomposes pieces rest := by
  refine ⟨h.fields p List.mem_cons_self, pieces.flatMap Piece.bytes, ?_, ?_, rfl⟩
  · rw [← h.concat, List.flatMap_cons]
  · exact fun q hq => h.fields q (List.mem_cons_of_mem p hq)

theorem walkFrom_sound {buf : List UInt8} {r : σ} (h : walkFrom f size s buf = .ok r)
    (hroom : buf.length ≤ size) :
    ∃ pieces, Decomposes pieces buf ∧ r = foldFields f s pieces := by
  induction hn : buf.length using Nat.strongRecOn generalizing buf s with
  | ind n ih =>
      subst hn
      by_cases hnil : buf = []
      · subst hnil
        rw [walkFrom_nil] at h
        exact ⟨[], decomposes_nil, (Except.ok.inj h).symm⟩
      · cases hread : readField size buf with
        | error e =>
            rw [walkFrom, if_neg hnil] at h
            split at h
            · cases h
            · rename_i hok
              rw [hread] at hok
              cases hok
        | ok field =>
            obtain ⟨number, val, rest⟩ := field
            have hshorter := readField_shorter hread
            obtain ⟨bytes, rfl, hfield⟩ := readField_sound hread hroom
            rw [walkFrom_of_readField hread] at h
            obtain ⟨pieces, hpieces, rfl⟩ := ih rest.length hshorter h (by omega) rfl
            exact ⟨⟨number, val, bytes⟩ :: pieces, hpieces.cons hfield, rfl⟩

theorem walkFrom_complete {pieces : List Piece} {buf : List UInt8}
    (h : Decomposes pieces buf) (hroom : buf.length ≤ size) (hsize : size < 2 ^ 64) :
    walkFrom f size s buf = .ok (foldFields f s pieces) := by
  induction pieces generalizing buf s with
  | nil =>
      rw [← h.concat, List.flatMap_nil, walkFrom_nil]
      rfl
  | cons p pieces ih =>
      obtain ⟨hp, rest, rfl, hrest⟩ := h.tail
      rw [walkFrom_of_readField (readField_complete hp hroom hsize)]
      rw [List.length_append] at hroom
      exact ih hrest (by omega)

/-- The walk accepts exactly the concatenations of fields, and takes them up in
order. -/
theorem walkFields_ok_iff {buf : List UInt8} {r : σ} (hsize : buf.length < 2 ^ 64) :
    walkFields f s buf = .ok r ↔
      ∃ pieces, Decomposes pieces buf ∧ r = foldFields f s pieces := by
  constructor
  · intro h
    exact walkFrom_sound h (Nat.le_refl _)
  · rintro ⟨pieces, hpieces, rfl⟩
    exact walkFrom_complete hpieces (Nat.le_refl _) hsize

theorem walkFields_cases (f : σ → UInt64 → FieldVal → σ) (s : σ) {buf : List UInt8}
    (hsize : buf.length < 2 ^ 64) :
    (∃ pieces, Decomposes pieces buf) ∨ ∃ e, walkFields f s buf = .error e := by
  cases hwalk : walkFields f s buf with
  | error e => exact Or.inr ⟨e, rfl⟩
  | ok r =>
      obtain ⟨pieces, hpieces, -⟩ := (walkFields_ok_iff hsize).mp hwalk
      exact Or.inl ⟨pieces, hpieces⟩

/-- There is one way to take bytes apart into fields. -/
theorem decomposes_unique {pieces pieces' : List Piece} {buf : List UInt8}
    (hsize : buf.length < 2 ^ 64) (h : Decomposes pieces buf) (h' : Decomposes pieces' buf) :
    pieces = pieces' := by
  induction pieces generalizing pieces' buf with
  | nil =>
      cases pieces' with
      | nil => rfl
      | cons p' pieces' =>
          obtain ⟨hp', rest, hbuf, -⟩ := h'.tail
          rw [← h.concat, List.flatMap_nil] at hbuf
          exact absurd (List.append_eq_nil_iff.mp hbuf.symm).1 hp'.ne_nil
  | cons p pieces ih =>
      obtain ⟨hp, rest, rfl, hrest⟩ := h.tail
      cases pieces' with
      | nil =>
          have hbuf := h'.concat
          rw [List.flatMap_nil] at hbuf
          exact absurd (List.append_eq_nil_iff.mp hbuf.symm).1 hp.ne_nil
      | cons p' pieces' =>
          obtain ⟨hp', rest', hbuf, hrest'⟩ := h'.tail
          have hread := readField_complete hp (Nat.le_refl _) hsize
          have hread' := readField_complete hp' (Nat.le_of_eq (congrArg _ hbuf.symm)) hsize
          rw [← hbuf, hread] at hread'
          cases p with
          | mk number val bytes =>
              cases p' with
              | mk number' val' bytes' =>
                  cases hread'
                  obtain rfl := List.append_cancel_right hbuf
                  rw [List.length_append] at hsize
                  rw [ih (by omega) hrest hrest']

end Walk

section Occurrences

/-- The values of the occurrences of a field, in order. -/
def occurrences (pieces : List Piece) (number : UInt64) : List FieldVal :=
  (pieces.filter fun p => p.number = number).map Piece.val

/-- The value of the last occurrence of a field. -/
def lastOf (pieces : List Piece) (number : UInt64) : Option FieldVal :=
  (occurrences pieces number).getLast?

/-- Bytes that are a concatenation of fields. -/
def IsFieldString (buf : List UInt8) : Prop :=
  ∃ pieces, Decomposes pieces buf

theorem occurrences_concat (pieces : List Piece) (p : Piece) (number : UInt64) :
    occurrences (pieces ++ [p]) number =
      occurrences pieces number ++ if p.number = number then [p.val] else [] := by
  by_cases h : p.number = number <;> simp [occurrences, h]

theorem lastOf_concat (pieces : List Piece) (p : Piece) (number : UInt64) :
    lastOf (pieces ++ [p]) number =
      if p.number = number then some p.val else lastOf pieces number := by
  rw [lastOf, occurrences_concat]
  by_cases h : p.number = number <;> simp [h, lastOf]

theorem isSome_lastOf {pieces : List Piece} {number : UInt64} :
    (lastOf pieces number).isSome ↔ ∃ p ∈ pieces, p.number = number := by
  rw [lastOf, List.getLast?_isSome, ne_eq, occurrences, List.map_eq_nil_iff,
    List.filter_eq_nil_iff]
  simp

theorem foldFields_concat {σ : Type} (f : σ → UInt64 → FieldVal → σ) (s : σ)
    (pieces : List Piece) (p : Piece) :
    foldFields f s (pieces ++ [p]) = f (foldFields f s pieces) p.number p.val := by
  simp [foldFields]

/-- The fold is any summary that a further field changes as `f` does. -/
theorem foldFields_eq {σ : Type} {f : σ → UInt64 → FieldVal → σ} {s : σ}
    {summary : List Piece → σ} (hnil : s = summary [])
    (hconcat : ∀ pieces p, f (summary pieces) p.number p.val = summary (pieces ++ [p]))
    (pieces : List Piece) : foldFields f s pieces = summary pieces := by
  induction pieces using List.reverseRecOn with
  | nil => exact hnil
  | append_singleton pieces p ih => rw [foldFields_concat, ih, hconcat]

/-- The bytes of a field are no longer than the message. -/
theorem Decomposes.asBytes_length {pieces : List Piece} {buf : List UInt8}
    (h : Decomposes pieces buf) {number : UInt64} {v : FieldVal}
    (hv : v ∈ occurrences pieces number) : (asBytes v).length ≤ buf.length := by
  obtain ⟨p, hp, rfl⟩ := List.mem_map.mp hv
  have hmem := (List.mem_filter.mp hp).1
  have hlength : (asBytes p.val).length ≤ p.bytes.length := by
    cases h.fields p hmem with
    | varint => simp [asBytes]
    | bytes =>
        simp only [asBytes, List.length_append]
        omega
  have hsublist := List.sublist_flatten_of_mem (List.mem_map_of_mem (f := Piece.bytes) hmem)
  rw [← h.concat, List.flatMap_def]
  exact Nat.le_trans hlength hsublist.length_le

end Occurrences

namespace RlnGifterRequest

/-- The request these last occurrences make. -/
def ofLast (last : UInt64 → Option FieldVal) : RlnGifterRequest where
  requestId := ((last 1).map asString).getD ""
  authenticationType := ((last 2).map asBytes).getD []
  authenticationPayload := ((last 3).map asBytes).getD []
  identityCommitment := ((last 4).map asBytes).getD []
  rateLimit := (last 5).map asU64

theorem foldFields_take (pieces : List Piece) : foldFields take {} pieces =
    { m := ofLast (lastOf pieces), haveId := (lastOf pieces 1).isSome,
      haveIdc := (lastOf pieces 4).isSome } := by
  apply foldFields_eq
  · rfl
  · intro pieces p
    rw [take]
    by_cases h1 : p.number = 1
    · simp [h1, ofLast, lastOf_concat]
    · by_cases h2 : p.number = 2
      · simp [h2, ofLast, lastOf_concat]
      · by_cases h3 : p.number = 3
        · simp [h3, ofLast, lastOf_concat]
        · by_cases h4 : p.number = 4
          · simp [h4, ofLast, lastOf_concat]
          · by_cases h5 : p.number = 5
            · simp [h5, ofLast, lastOf_concat]
            · simp [h1, h2, h3, h4, h5, ofLast, lastOf_concat]

/-- What `decode` gives for a concatenation of fields. -/
theorem decode_of_decomposes {pieces : List Piece} {buf : List UInt8}
    (h : Decomposes pieces buf) (hsize : buf.length < 2 ^ 64) :
    decode buf =
      if (lastOf pieces 1).isSome = false then .error "missing request_id"
      else if (lastOf pieces 4).isSome = false then .error "missing identity_commitment"
      else .ok (ofLast (lastOf pieces)) := by
  have hwalk := (walkFields_ok_iff hsize).mpr ⟨pieces, h, (foldFields_take pieces).symm⟩
  rw [decode, hwalk]

end RlnGifterRequest

namespace MembershipAllocationSuccess

def ofLast (last : UInt64 → Option FieldVal) : MembershipAllocationSuccess where
  leafIndex := ((last 1).map asU64).getD 0
  merkleRoot := ((last 2).map asBytes).getD []
  blockNumber := ((last 3).map asU64).getD 0
  transactionHash := ((last 4).map asBytes).getD []
  configAccountId := (last 100).map asString

theorem foldFields_take (pieces : List Piece) :
    foldFields take {} pieces = ofLast (lastOf pieces) := by
  apply foldFields_eq
  · rfl
  · intro pieces p
    rw [take]
    by_cases h1 : p.number = 1
    · simp [h1, ofLast, lastOf_concat]
    · by_cases h2 : p.number = 2
      · simp [h2, ofLast, lastOf_concat]
      · by_cases h3 : p.number = 3
        · simp [h3, ofLast, lastOf_concat]
        · by_cases h4 : p.number = 4
          · simp [h4, ofLast, lastOf_concat]
          · by_cases h100 : p.number = 100
            · simp [h100, ofLast, lastOf_concat]
            · simp [h1, h2, h3, h4, h100, ofLast, lastOf_concat]

theorem decode_ok_iff {buf : List UInt8} {s : MembershipAllocationSuccess}
    (hsize : buf.length < 2 ^ 64) :
    decode buf = .ok s ↔ ∃ pieces, Decomposes pieces buf ∧ s = ofLast (lastOf pieces) := by
  rw [decode, walkFields_ok_iff hsize]
  simp only [foldFields_take]

end MembershipAllocationSuccess

namespace MembershipAllocationFailure

def ofLast (last : UInt64 → Option FieldVal) : MembershipAllocationFailure where
  errorMessage := ((last 1).map asString).getD ""

theorem foldFields_take (pieces : List Piece) :
    foldFields take {} pieces = ofLast (lastOf pieces) := by
  apply foldFields_eq
  · rfl
  · intro pieces p
    rw [take]
    by_cases h1 : p.number = 1 <;> simp [h1, ofLast, lastOf_concat]

theorem decode_ok_iff {buf : List UInt8} {m : MembershipAllocationFailure}
    (hsize : buf.length < 2 ^ 64) :
    decode buf = .ok m ↔ ∃ pieces, Decomposes pieces buf ∧ m = ofLast (lastOf pieces) := by
  rw [decode, walkFields_ok_iff hsize]
  simp only [foldFields_take]

end MembershipAllocationFailure

namespace RlnGifterResponse

/-- The error of an occurrence of a sub-message. -/
def subError (number : UInt64) (v : FieldVal) : Option String :=
  if number = 4 then
    match MembershipAllocationSuccess.decode (asBytes v) with
    | .ok _ => none
    | .error e => some e
  else if number = 5 then
    match MembershipAllocationFailure.decode (asBytes v) with
    | .ok _ => none
    | .error e => some e
  else none

/-- The errors of all sub-messages, in order. -/
def subErrors (pieces : List Piece) : List String :=
  pieces.filterMap fun p => subError p.number p.val

/-- The last success that was read. -/
def lastSuccess (pieces : List Piece) : Option MembershipAllocationSuccess :=
  ((occurrences pieces 4).filterMap fun v =>
    (MembershipAllocationSuccess.decode (asBytes v)).toOption).getLast?

/-- The last failure that was read. -/
def lastFailure (pieces : List Piece) : Option MembershipAllocationFailure :=
  ((occurrences pieces 5).filterMap fun v =>
    (MembershipAllocationFailure.decode (asBytes v)).toOption).getLast?

/-- The response these fields make, sub-messages that are malformed left out. -/
def ofFields (pieces : List Piece) : RlnGifterResponse where
  requestId := ((lastOf pieces 1).map asString).getD ""
  authSuccess := ((lastOf pieces 2).map fun v => asU64 v != 0).getD false
  error := (lastOf pieces 3).map asString
  success := lastSuccess pieces
  failure := lastFailure pieces

theorem foldFields_take (pieces : List Piece) : foldFields take {} pieces =
    { m := ofFields pieces, haveId := (lastOf pieces 1).isSome,
      haveAuth := (lastOf pieces 2).isSome, subErr := (subErrors pieces).getLast? } := by
  apply foldFields_eq
  · rfl
  · intro pieces p
    rw [take]
    by_cases h1 : p.number = 1
    · simp [h1, ofFields, lastOf_concat, lastSuccess, lastFailure, occurrences_concat,
        subErrors, subError]
    · by_cases h2 : p.number = 2
      · simp [h2, ofFields, lastOf_concat, lastSuccess, lastFailure, occurrences_concat,
          subErrors, subError]
      · by_cases h3 : p.number = 3
        · simp [h3, ofFields, lastOf_concat, lastSuccess, lastFailure, occurrences_concat,
            subErrors, subError]
        · by_cases h4 : p.number = 4
          · cases hdecode : MembershipAllocationSuccess.decode (asBytes p.val) <;>
              simp [h4, hdecode, ofFields, lastOf_concat, lastSuccess, lastFailure,
                occurrences_concat, subErrors, subError, Except.toOption]
          · by_cases h5 : p.number = 5
            · cases hdecode : MembershipAllocationFailure.decode (asBytes p.val) <;>
                simp [h5, hdecode, ofFields, lastOf_concat, lastSuccess, lastFailure,
                  occurrences_concat, subErrors, subError, Except.toOption]
            · simp [h1, h2, h3, h4, h5, ofFields, lastOf_concat, lastSuccess, lastFailure,
                occurrences_concat, subErrors, subError]

/-- The response the last occurrences make. -/
def ofLast (last : UInt64 → Option FieldVal) : RlnGifterResponse where
  requestId := ((last 1).map asString).getD ""
  authSuccess := ((last 2).map fun v => asU64 v != 0).getD false
  error := (last 3).map asString
  success := (last 4).bind fun v => (MembershipAllocationSuccess.decode (asBytes v)).toOption
  failure := (last 5).bind fun v => (MembershipAllocationFailure.decode (asBytes v)).toOption

/-- What `decode` gives for a concatenation of fields. -/
theorem decode_of_decomposes {pieces : List Piece} {buf : List UInt8}
    (h : Decomposes pieces buf) (hsize : buf.length < 2 ^ 64) :
    decode buf =
      match (subErrors pieces).getLast? with
      | some e => .error e
      | none =>
          if (lastOf pieces 1).isSome = false then .error "missing request_id"
          else if (lastOf pieces 2).isSome = false then .error "missing auth_success"
          else .ok (ofFields pieces) := by
  have hwalk := (walkFields_ok_iff hsize).mpr ⟨pieces, h, (foldFields_take pieces).symm⟩
  rewrite [decode, hwalk]
  cases (subErrors pieces).getLast? <;> rfl

/-- Every sub-message is a concatenation of fields. -/
def WellNested (pieces : List Piece) (number : UInt64) : Prop :=
  ∀ v ∈ occurrences pieces number, IsFieldString (asBytes v)

theorem mem_occurrences {pieces : List Piece} {p : Piece} (hp : p ∈ pieces) :
    p.val ∈ occurrences pieces p.number :=
  List.mem_map_of_mem (List.mem_filter.mpr ⟨hp, by simp⟩)

theorem isFieldString_of_success {bytes : List UInt8} (hsize : bytes.length < 2 ^ 64) :
    IsFieldString bytes ↔ ∃ s, MembershipAllocationSuccess.decode bytes = .ok s := by
  constructor
  · rintro ⟨pieces, h⟩
    exact ⟨_, (MembershipAllocationSuccess.decode_ok_iff hsize).mpr ⟨pieces, h, rfl⟩⟩
  · rintro ⟨s, h⟩
    obtain ⟨pieces, hpieces, -⟩ := (MembershipAllocationSuccess.decode_ok_iff hsize).mp h
    exact ⟨pieces, hpieces⟩

theorem isFieldString_of_failure {bytes : List UInt8} (hsize : bytes.length < 2 ^ 64) :
    IsFieldString bytes ↔ ∃ m, MembershipAllocationFailure.decode bytes = .ok m := by
  constructor
  · rintro ⟨pieces, h⟩
    exact ⟨_, (MembershipAllocationFailure.decode_ok_iff hsize).mpr ⟨pieces, h, rfl⟩⟩
  · rintro ⟨m, h⟩
    obtain ⟨pieces, hpieces, -⟩ := (MembershipAllocationFailure.decode_ok_iff hsize).mp h
    exact ⟨pieces, hpieces⟩

theorem subError_four {v : FieldVal} (hsize : (asBytes v).length < 2 ^ 64) :
    subError 4 v = none ↔ IsFieldString (asBytes v) := by
  rw [isFieldString_of_success hsize, subError, if_pos rfl]
  cases MembershipAllocationSuccess.decode (asBytes v) <;> simp

theorem subError_five {v : FieldVal} (hsize : (asBytes v).length < 2 ^ 64) :
    subError 5 v = none ↔ IsFieldString (asBytes v) := by
  rw [isFieldString_of_failure hsize, subError, if_neg (by decide), if_pos rfl]
  cases MembershipAllocationFailure.decode (asBytes v) <;> simp

theorem subErrors_eq_nil {pieces : List Piece} {buf : List UInt8}
    (h : Decomposes pieces buf) (hsize : buf.length < 2 ^ 64) :
    subErrors pieces = [] ↔ WellNested pieces 4 ∧ WellNested pieces 5 := by
  have hbytes : ∀ {number : UInt64} {v : FieldVal}, v ∈ occurrences pieces number →
      (asBytes v).length < 2 ^ 64 := fun hv => Nat.lt_of_le_of_lt (h.asBytes_length hv) hsize
  rw [subErrors, List.filterMap_eq_nil_iff]
  constructor
  · intro hall
    have hnested : ∀ number v, v ∈ occurrences pieces number → subError number v = none := by
      intro number v hv
      obtain ⟨p, hp, rfl⟩ := List.mem_map.mp hv
      obtain ⟨hmem, hnumber⟩ := List.mem_filter.mp hp
      rw [← of_decide_eq_true hnumber]
      exact hall p hmem
    exact ⟨fun v hv => (subError_four (hbytes hv)).mp (hnested 4 v hv),
      fun v hv => (subError_five (hbytes hv)).mp (hnested 5 v hv)⟩
  · rintro ⟨hfour, hfive⟩ p hp
    have hv := mem_occurrences hp
    by_cases h4 : p.number = 4
    · rw [h4] at hv ⊢
      exact (subError_four (hbytes hv)).mpr (hfour _ hv)
    · by_cases h5 : p.number = 5
      · rw [h5] at hv ⊢
        exact (subError_five (hbytes hv)).mpr (hfive _ hv)
      · rw [subError, if_neg h4, if_neg h5]

/-- Where all are read, the last that is read is the last. -/
theorem getLast_filterMap {α β : Type} {g : α → Option β} {l : List α}
    (h : ∀ a ∈ l, (g a).isSome) : (l.filterMap g).getLast? = l.getLast?.bind g := by
  induction l using List.reverseRecOn with
  | nil => rfl
  | append_singleton l a ih =>
      obtain ⟨b, hb⟩ := Option.isSome_iff_exists.mp (h a (by simp))
      simp [hb]

theorem ofFields_eq_ofLast {pieces : List Piece} {buf : List UInt8}
    (h : Decomposes pieces buf) (hsize : buf.length < 2 ^ 64) (hfour : WellNested pieces 4)
    (hfive : WellNested pieces 5) : ofFields pieces = ofLast (lastOf pieces) := by
  have hsuccess : lastSuccess pieces = (ofLast (lastOf pieces)).success := by
    apply getLast_filterMap
    intro v hv
    have hlength := Nat.lt_of_le_of_lt (h.asBytes_length hv) hsize
    obtain ⟨s, hs⟩ := (isFieldString_of_success hlength).mp (hfour v hv)
    rw [hs]
    rfl
  have hfailure : lastFailure pieces = (ofLast (lastOf pieces)).failure := by
    apply getLast_filterMap
    intro v hv
    have hlength := Nat.lt_of_le_of_lt (h.asBytes_length hv) hsize
    obtain ⟨m, hm⟩ := (isFieldString_of_failure hlength).mp (hfive v hv)
    rw [hm]
    rfl
  rw [ofFields, hsuccess, hfailure]
  rfl

/-- A response is decoded exactly from the concatenations of fields that have both
required ones and whose sub-messages are concatenations of fields. -/
theorem decode_ok_iff {buf : List UInt8} {m : RlnGifterResponse} (hsize : buf.length < 2 ^ 64) :
    decode buf = .ok m ↔ ∃ pieces, Decomposes pieces buf ∧
      (∃ p ∈ pieces, p.number = 1) ∧ (∃ p ∈ pieces, p.number = 2) ∧ WellNested pieces 4 ∧
      WellNested pieces 5 ∧ m = ofLast (lastOf pieces) := by
  simp only [← isSome_lastOf]
  constructor
  · intro h
    obtain ⟨pieces, hpieces⟩ : ∃ pieces, Decomposes pieces buf := by
      rcases walkFields_cases take {} hsize with hpieces | ⟨e, hwalk⟩
      · exact hpieces
      · rw [decode, hwalk] at h
        cases h
    rw [decode_of_decomposes hpieces hsize] at h
    cases herrors : (subErrors pieces).getLast? with
    | some e =>
        rw [herrors] at h
        cases h
    | none =>
        rw [herrors] at h
        obtain ⟨hfour, hfive⟩ := (subErrors_eq_nil hpieces hsize).mp
          (List.getLast?_eq_none_iff.mp herrors)
        cases h1 : (lastOf pieces 1).isSome with
        | false =>
            simp only [h1, ↓reduceIte] at h
            cases h
        | true =>
            cases h2 : (lastOf pieces 2).isSome with
            | false =>
                simp only [h1, h2, Bool.true_eq_false, ↓reduceIte] at h
                cases h
            | true =>
                simp only [h1, h2, Bool.true_eq_false, ↓reduceIte] at h
                refine ⟨pieces, hpieces, h1, h2, hfour, hfive, ?_⟩
                rw [← Except.ok.inj h, ofFields_eq_ofLast hpieces hsize hfour hfive]
  · rintro ⟨pieces, hpieces, h1, h2, hfour, hfive, rfl⟩
    rw [decode_of_decomposes hpieces hsize,
      (subErrors_eq_nil hpieces hsize).mpr ⟨hfour, hfive⟩]
    simp [h1, h2, ofFields_eq_ofLast hpieces hsize hfour hfive]

end RlnGifterResponse

theorem RlnGifterRequest.decode_ok_iff {buf : List UInt8} {m : RlnGifterRequest}
    (hsize : buf.length < 2 ^ 64) :
    RlnGifterRequest.decode buf = .ok m ↔ ∃ pieces, Decomposes pieces buf ∧
      (∃ p ∈ pieces, p.number = 1) ∧ (∃ p ∈ pieces, p.number = 4) ∧
      m = .ofLast (lastOf pieces) := by
  simp only [← isSome_lastOf]
  constructor
  · intro h
    obtain ⟨pieces, hpieces⟩ : ∃ pieces, Decomposes pieces buf := by
      rcases walkFields_cases take {} hsize with hpieces | ⟨e, hwalk⟩
      · exact hpieces
      · rw [decode, hwalk] at h
        cases h
    rw [decode_of_decomposes hpieces hsize] at h
    cases h1 : (lastOf pieces 1).isSome with
    | false =>
        simp only [h1, ↓reduceIte] at h
        cases h
    | true =>
        cases h4 : (lastOf pieces 4).isSome with
        | false =>
            simp only [h1, h4, Bool.true_eq_false, ↓reduceIte] at h
            cases h
        | true =>
            simp only [h1, h4, Bool.true_eq_false, ↓reduceIte] at h
            exact ⟨pieces, hpieces, h1, h4, (Except.ok.inj h).symm⟩
  · rintro ⟨pieces, hpieces, h1, h4, rfl⟩
    rw [decode_of_decomposes hpieces hsize]
    simp [h1, h4]

section Rearranging

/-- Fields with these numbers are kept in their order, and all others may come and
go. -/
inductive Rearranged (known : List UInt64) : List Piece → List Piece → Prop where
  | refl (pieces : List Piece) : Rearranged known pieces pieces
  | insert (before after : List Piece) (p : Piece) (h : p.number ∉ known) :
      Rearranged known (before ++ after) (before ++ p :: after)
  | remove (before after : List Piece) (p : Piece) (h : p.number ∉ known) :
      Rearranged known (before ++ p :: after) (before ++ after)
  | swap (before after : List Piece) (p q : Piece) (h : p.number ≠ q.number) :
      Rearranged known (before ++ p :: q :: after) (before ++ q :: p :: after)
  | trans {first second third : List Piece} (h : Rearranged known first second)
      (h' : Rearranged known second third) : Rearranged known first third

theorem Rearranged.occurrences {known : List UInt64} {pieces pieces' : List Piece}
    (h : Rearranged known pieces pieces') {number : UInt64} (hknown : number ∈ known) :
    occurrences pieces' number = occurrences pieces number := by
  induction h with
  | refl pieces => rfl
  | insert before after p h =>
      have hne : p.number ≠ number := fun heq => h (heq ▸ hknown)
      simp [RlnGifter.occurrences, hne]
  | remove before after p h =>
      have hne : p.number ≠ number := fun heq => h (heq ▸ hknown)
      simp [RlnGifter.occurrences, hne]
  | swap before after p q h =>
      by_cases hp : p.number = number
      · have hq : q.number ≠ number := fun heq => h (hp.trans heq.symm)
        simp [RlnGifter.occurrences, hp, hq]
      · by_cases hq : q.number = number <;> simp [RlnGifter.occurrences, hp, hq]
  | trans _ _ ih ih' => rw [ih', ih]

theorem Rearranged.lastOf {known : List UInt64} {pieces pieces' : List Piece}
    (h : Rearranged known pieces pieces') {number : UInt64} (hknown : number ∈ known) :
    lastOf pieces' number = lastOf pieces number := by
  rw [RlnGifter.lastOf, h.occurrences hknown, RlnGifter.lastOf]

/-- The numbers of the fields that the messages have. -/
def knownNumbers : List UInt64 := [1, 2, 3, 4, 5]

theorem RlnGifterRequest.decode_rearranged {pieces pieces' : List Piece}
    {buf buf' : List UInt8} (h : Decomposes pieces buf) (h' : Decomposes pieces' buf')
    (hsize : buf.length < 2 ^ 64) (hsize' : buf'.length < 2 ^ 64)
    (hpieces : Rearranged knownNumbers pieces pieces') :
    RlnGifterRequest.decode buf' = RlnGifterRequest.decode buf := by
  rw [decode_of_decomposes h hsize, decode_of_decomposes h' hsize', ofLast, ofLast,
    hpieces.lastOf (show 1 ∈ knownNumbers by decide),
    hpieces.lastOf (show 2 ∈ knownNumbers by decide),
    hpieces.lastOf (show 3 ∈ knownNumbers by decide),
    hpieces.lastOf (show 4 ∈ knownNumbers by decide),
    hpieces.lastOf (show 5 ∈ knownNumbers by decide)]

namespace RlnGifterResponse

theorem ofFields_rearranged {pieces pieces' : List Piece}
    (h : Rearranged knownNumbers pieces pieces') : ofFields pieces' = ofFields pieces := by
  rw [ofFields, lastSuccess, lastFailure, h.lastOf (show 1 ∈ knownNumbers by decide),
    h.lastOf (show 2 ∈ knownNumbers by decide), h.lastOf (show 3 ∈ knownNumbers by decide),
    h.occurrences (show 4 ∈ knownNumbers by decide),
    h.occurrences (show 5 ∈ knownNumbers by decide)]
  rfl

/-- Where one kind of sub-message has no errors, the errors are those of the other. -/
theorem subErrors_eq {pieces : List Piece} {number : UInt64}
    (h : ∀ p ∈ pieces, p.number ≠ number → subError p.number p.val = none) :
    subErrors pieces = (occurrences pieces number).filterMap (subError number) := by
  induction pieces with
  | nil => rfl
  | cons p pieces ih =>
      have hrest := ih fun q hq => h q (List.mem_cons_of_mem p hq)
      rw [subErrors] at hrest ⊢
      by_cases hp : p.number = number
      · simp only [List.filterMap_cons, hrest, occurrences, hp, List.filter_cons, decide_true,
          ↓reduceIte, List.map_cons]
      · have hnone := h p List.mem_cons_self hp
        simp only [List.filterMap_cons, hrest, hnone, occurrences, hp, List.filter_cons,
          decide_false, Bool.false_eq_true, ↓reduceIte]

theorem wellNested_rearranged {pieces pieces' : List Piece}
    (h : Rearranged knownNumbers pieces pieces') {number : UInt64}
    (hknown : number ∈ knownNumbers) :
    WellNested pieces' number ↔ WellNested pieces number := by
  rw [WellNested, WellNested, h.occurrences hknown]

theorem subError_of_ne {number : UInt64} (h4 : number ≠ 4) (h5 : number ≠ 5)
    (v : FieldVal) : subError number v = none := by
  rw [subError, if_neg h4, if_neg h5]

theorem subErrors_of_five {pieces : List Piece} {buf : List UInt8}
    (h : Decomposes pieces buf) (hsize : buf.length < 2 ^ 64) (hfive : WellNested pieces 5) :
    subErrors pieces = (occurrences pieces 4).filterMap (subError 4) := by
  apply subErrors_eq
  intro p hp h4
  by_cases h5 : p.number = 5
  · have hv := mem_occurrences hp
    rw [h5] at hv ⊢
    exact (subError_five (Nat.lt_of_le_of_lt (h.asBytes_length hv) hsize)).mpr (hfive _ hv)
  · exact subError_of_ne h4 h5 p.val

theorem subErrors_of_four {pieces : List Piece} {buf : List UInt8}
    (h : Decomposes pieces buf) (hsize : buf.length < 2 ^ 64) (hfour : WellNested pieces 4) :
    subErrors pieces = (occurrences pieces 5).filterMap (subError 5) := by
  apply subErrors_eq
  intro p hp h5
  by_cases h4 : p.number = 4
  · have hv := mem_occurrences hp
    rw [h4] at hv ⊢
    exact (subError_four (Nat.lt_of_le_of_lt (h.asBytes_length hv) hsize)).mpr (hfour _ hv)
  · exact subError_of_ne h4 h5 p.val

theorem subErrors_rearranged {pieces pieces' : List Piece} {buf buf' : List UInt8}
    (h : Decomposes pieces buf) (h' : Decomposes pieces' buf') (hsize : buf.length < 2 ^ 64)
    (hsize' : buf'.length < 2 ^ 64) (hpieces : Rearranged knownNumbers pieces pieces')
    (hnested : WellNested pieces 4 ∨ WellNested pieces 5) :
    subErrors pieces' = subErrors pieces := by
  rcases hnested with hfour | hfive
  · have hfour' := (wellNested_rearranged hpieces (show 4 ∈ knownNumbers by decide)).mpr hfour
    rw [subErrors_of_four h hsize hfour, subErrors_of_four h' hsize' hfour',
      hpieces.occurrences (show 5 ∈ knownNumbers by decide)]
  · have hfive' := (wellNested_rearranged hpieces (show 5 ∈ knownNumbers by decide)).mpr hfive
    rw [subErrors_of_five h hsize hfive, subErrors_of_five h' hsize' hfive',
      hpieces.occurrences (show 4 ∈ knownNumbers by decide)]

/-- Rearranging changes the response in no way, save that of two malformed
sub-messages of both kinds the later one names the error. -/
theorem decode_rearranged {pieces pieces' : List Piece} {buf buf' : List UInt8}
    (h : Decomposes pieces buf) (h' : Decomposes pieces' buf') (hsize : buf.length < 2 ^ 64)
    (hsize' : buf'.length < 2 ^ 64) (hpieces : Rearranged knownNumbers pieces pieces') :
    (decode buf').toOption = (decode buf).toOption ∧
      (WellNested pieces 4 ∨ WellNested pieces 5 → decode buf' = decode buf) := by
  have h1 := hpieces.lastOf (show 1 ∈ knownNumbers by decide)
  have h2 := hpieces.lastOf (show 2 ∈ knownNumbers by decide)
  rw [decode_of_decomposes h hsize, decode_of_decomposes h' hsize', h1, h2,
    ofFields_rearranged hpieces]
  by_cases hnested : WellNested pieces 4 ∨ WellNested pieces 5
  · rw [subErrors_rearranged h h' hsize hsize' hpieces hnested]
    exact ⟨rfl, fun _ => rfl⟩
  · have hsome : ∀ {pieces : List Piece} {buf : List UInt8}, Decomposes pieces buf →
        buf.length < 2 ^ 64 → ¬ WellNested pieces 4 →
        ∃ e, (subErrors pieces).getLast? = some e := by
      intro pieces buf h hsize hfour
      cases herrors : (subErrors pieces).getLast? with
      | some e => exact ⟨e, rfl⟩
      | none =>
          have hnil := (subErrors_eq_nil h hsize).mp (List.getLast?_eq_none_iff.mp herrors)
          exact absurd hnil.1 hfour
    rw [not_or] at hnested
    have hfour' : ¬ WellNested pieces' 4 := fun hfour => hnested.1
      ((wellNested_rearranged hpieces (by decide)).mp hfour)
    obtain ⟨e, he⟩ := hsome h hsize hnested.1
    obtain ⟨e', he'⟩ := hsome h' hsize' hfour'
    rw [he, he']
    exact ⟨rfl, fun hone => absurd hone (not_or.mpr hnested)⟩

end RlnGifterResponse

end Rearranging

/-- What the decoders make of a buffer. -/
structure FieldLanguage (buf : List UInt8) : Prop where
  walk : ∀ {σ : Type} (f : σ → UInt64 → FieldVal → σ) (s : σ),
    (∃ r, walkFields f s buf = .ok r) ↔ IsFieldString buf
  unique : ∀ pieces pieces', Decomposes pieces buf → Decomposes pieces' buf → pieces = pieces'
  request : ∀ m, RlnGifterRequest.decode buf = .ok m ↔ ∃ pieces, Decomposes pieces buf ∧
    (∃ p ∈ pieces, p.number = 1) ∧ (∃ p ∈ pieces, p.number = 4) ∧ m = .ofLast (lastOf pieces)
  success : ∀ s, MembershipAllocationSuccess.decode buf = .ok s ↔
    ∃ pieces, Decomposes pieces buf ∧ s = .ofLast (lastOf pieces)
  failure : ∀ m, MembershipAllocationFailure.decode buf = .ok m ↔
    ∃ pieces, Decomposes pieces buf ∧ m = .ofLast (lastOf pieces)
  response : ∀ m, RlnGifterResponse.decode buf = .ok m ↔ ∃ pieces, Decomposes pieces buf ∧
    (∃ p ∈ pieces, p.number = 1) ∧ (∃ p ∈ pieces, p.number = 2) ∧
    RlnGifterResponse.WellNested pieces 4 ∧ RlnGifterResponse.WellNested pieces 5 ∧
    m = .ofLast (lastOf pieces)
  rearranged : ∀ pieces pieces' buf', Decomposes pieces buf → Decomposes pieces' buf' →
    buf'.length < 2 ^ 64 → Rearranged knownNumbers pieces pieces' →
    RlnGifterRequest.decode buf' = RlnGifterRequest.decode buf ∧
    (RlnGifterResponse.decode buf').toOption = (RlnGifterResponse.decode buf).toOption ∧
    (RlnGifterResponse.WellNested pieces 4 ∨ RlnGifterResponse.WellNested pieces 5 →
      RlnGifterResponse.decode buf' = RlnGifterResponse.decode buf)

/-- The decoders accept exactly the field grammar, the last occurrence of a field
wins, and rearranging matters only for the text of an error. -/
theorem decoders_accept_fields (buf : List UInt8) (hsize : buf.length < 2 ^ 64) :
    FieldLanguage buf where
  walk := by
    intro σ f s
    constructor
    · rintro ⟨r, hr⟩
      obtain ⟨pieces, hpieces, -⟩ := (walkFields_ok_iff hsize).mp hr
      exact ⟨pieces, hpieces⟩
    · rintro ⟨pieces, hpieces⟩
      exact ⟨_, (walkFields_ok_iff hsize).mpr ⟨pieces, hpieces, rfl⟩⟩
  unique := fun pieces pieces' => decomposes_unique hsize
  request := fun m => RlnGifterRequest.decode_ok_iff hsize
  success := fun s => MembershipAllocationSuccess.decode_ok_iff hsize
  failure := fun m => MembershipAllocationFailure.decode_ok_iff hsize
  response := fun m => RlnGifterResponse.decode_ok_iff hsize
  rearranged := by
    intro pieces pieces' buf' h h' hsize' hpieces
    exact ⟨RlnGifterRequest.decode_rearranged h h' hsize hsize' hpieces,
      RlnGifterResponse.decode_rearranged h h' hsize hsize' hpieces⟩

/-- Two empty fields. -/
theorem decoders_accept_fields_empty : FieldLanguage [0x0a, 0x00, 0x22, 0x00] :=
  decoders_accept_fields _ (by decide)

/-- A request id, a flag, a malformed success and a malformed failure. -/
def malformedPieces : List Piece × Piece × Piece :=
  ([⟨1, .bytes [], [0x0a, 0x00]⟩, ⟨2, .varint 0, [0x10, 0x00]⟩],
    ⟨4, .bytes [0x09], [0x22, 0x01, 0x09]⟩, ⟨5, .bytes [0x80], [0x2a, 0x01, 0x80]⟩)

theorem malformedPieces_fields :
    (∀ p ∈ malformedPieces.1, IsField p) ∧ IsField malformedPieces.2.1 ∧
      IsField malformedPieces.2.2 := by
  have hid : IsField ⟨1, .bytes [], [0x0a, 0x00]⟩ :=
    @IsField.bytes 0x0a 0 [0x0a] [0x00] [] rfl (by decide) rfl rfl
  have hflag : IsField ⟨2, .varint 0, [0x10, 0x00]⟩ :=
    @IsField.varint 0x10 0 [0x10] [0x00] rfl (by decide) rfl
  refine ⟨?_, @IsField.bytes 0x22 1 [0x22] [0x01] [0x09] rfl (by decide) rfl rfl,
    @IsField.bytes 0x2a 1 [0x2a] [0x01] [0x80] rfl (by decide) rfl rfl⟩
  intro p hp
  simp only [malformedPieces, List.mem_cons, List.not_mem_nil, or_false] at hp
  rcases hp with rfl | rfl
  · exact hid
  · exact hflag

theorem decode_malformed_success :
    MembershipAllocationSuccess.decode [0x09] = .error "unsupported wire type 1" := by
  rw [MembershipAllocationSuccess.decode, walkFields, walkFrom, if_neg (by decide)]
  split
  · rename_i e he
    have hread : readField 1 [0x09] = .error "unsupported wire type 1" := rfl
    exact congrArg _ (Except.error.inj (he.symm.trans hread))
  · rename_i hok
    cases hok

theorem decode_malformed_failure :
    MembershipAllocationFailure.decode [0x80] = .error "truncated field key" := by
  rw [MembershipAllocationFailure.decode, walkFields, walkFrom, if_neg (by decide)]
  split
  · rename_i e he
    have hread : readField 1 [0x80] = .error "truncated field key" := rfl
    exact congrArg _ (Except.error.inj (he.symm.trans hread))
  · rename_i hok
    cases hok

/-- Two malformed sub-messages of different numbers change places, and the error is
another one. -/
theorem rearranged_error_differs :
    let (head, first, second) := malformedPieces
    Decomposes (head ++ [first, second])
        [0x0a, 0x00, 0x10, 0x00, 0x22, 0x01, 0x09, 0x2a, 0x01, 0x80] ∧
      Decomposes (head ++ [second, first])
        [0x0a, 0x00, 0x10, 0x00, 0x2a, 0x01, 0x80, 0x22, 0x01, 0x09] ∧
      Rearranged knownNumbers (head ++ [first, second]) (head ++ [second, first]) ∧
      RlnGifterResponse.decode
          [0x0a, 0x00, 0x10, 0x00, 0x22, 0x01, 0x09, 0x2a, 0x01, 0x80] =
        .error "truncated field key" ∧
      RlnGifterResponse.decode
          [0x0a, 0x00, 0x10, 0x00, 0x2a, 0x01, 0x80, 0x22, 0x01, 0x09] =
        .error "unsupported wire type 1" := by
  obtain ⟨hhead, hfirst, hsecond⟩ := malformedPieces_fields
  have hall : ∀ {p q : Piece}, IsField p → IsField q →
      ∀ r ∈ malformedPieces.1 ++ [p, q], IsField r := by
    intro p q hp hq
    rw [List.forall_mem_append]
    exact ⟨hhead, by simp [hp, hq]⟩
  have hdecomposes : Decomposes (malformedPieces.1 ++ [malformedPieces.2.1, malformedPieces.2.2])
      [0x0a, 0x00, 0x10, 0x00, 0x22, 0x01, 0x09, 0x2a, 0x01, 0x80] :=
    ⟨hall hfirst hsecond, rfl⟩
  have hdecomposes' : Decomposes (malformedPieces.1 ++ [malformedPieces.2.2, malformedPieces.2.1])
      [0x0a, 0x00, 0x10, 0x00, 0x2a, 0x01, 0x80, 0x22, 0x01, 0x09] :=
    ⟨hall hsecond hfirst, rfl⟩
  refine ⟨hdecomposes, hdecomposes', .swap _ [] _ _ (by decide), ?_, ?_⟩
  · rw [RlnGifterResponse.decode_of_decomposes hdecomposes (by decide)]
    simp [malformedPieces, RlnGifterResponse.subErrors, RlnGifterResponse.subError, asBytes,
      decode_malformed_success, decode_malformed_failure]
  · rw [RlnGifterResponse.decode_of_decomposes hdecomposes' (by decide)]
    simp [malformedPieces, RlnGifterResponse.subErrors, RlnGifterResponse.subError, asBytes,
      decode_malformed_success, decode_malformed_failure]

end RlnGifter
