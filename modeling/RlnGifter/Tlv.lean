/-
What the reader of TLV objects finds.  The search follows the headers of its input one
after another; it goes wrong only where a length takes the end of a value past 64 bits,
and where lengths are of the short forms it finds what the attestation's reader finds.
-/
import RlnGifter.Apdu

namespace RlnGifter

namespace Apdu

section Headers

variable {data : List UInt8} {tag t b : UInt8} {len : UInt64} {i j n : Nat}

theorem readLenBytes_spec {len' : UInt64} (h : readLenBytes data n len i = some (len', j)) :
    j = i + n ∧ (i ≤ data.length → j ≤ data.length) := by
  induction n generalizing len i with
  | zero =>
      obtain ⟨-, rfl⟩ := Prod.mk.inj (Option.some.inj h)
      exact ⟨rfl, id⟩
  | succ n ih =>
      rw [readLenBytes] at h
      cases hb : data[i]? with
      | none =>
          rw [hb] at h
          cases h
      | some b =>
          rw [hb] at h
          obtain ⟨rfl, hroom⟩ := ih h
          obtain ⟨hi, -⟩ := List.getElem?_eq_some_iff.mp hb
          exact ⟨by omega, fun _ => hroom hi⟩

/-- The bytes of a length: one that holds it, or one that tells how many follow. -/
def IsLengthField : List UInt8 → Prop
  | [] => False
  | b :: more => more.length = if b < 0x80 then 0 else (b &&& 0x7f).toNat

/-- What a length that was read stands in. -/
theorem readLen_spec (h : readLen data i = .returns (some (len, j))) :
    i < j ∧ j ≤ data.length ∧ IsLengthField ((data.drop i).take (j - i)) := by
  rw [readLen] at h
  cases hb : data[i]? with
  | none =>
      rw [hb] at h
      cases h
  | some b =>
      obtain ⟨hi, hbyte⟩ := List.getElem?_eq_some_iff.mp hb
      have hdrop : data.drop i = b :: data.drop (i + 1) := by
        rw [← hbyte]
        exact List.drop_eq_getElem_cons hi
      simp only [hb] at h
      by_cases hshort : b < 0x80
      · rw [if_pos hshort, Ending.returns.injEq, Option.some.injEq, Prod.mk.injEq] at h
        obtain ⟨-, rfl⟩ := h
        refine ⟨Nat.lt_succ_self i, hi, ?_⟩
        rw [hdrop, Nat.add_sub_cancel_left, List.take_succ_cons, List.take_zero]
        exact (if_pos hshort).symm
      · rw [if_neg hshort, Ending.returns.injEq] at h
        obtain ⟨rfl, hroom⟩ := readLenBytes_spec h
        have hend := hroom hi
        refine ⟨by omega, hend, ?_⟩
        rw [hdrop, show i + 1 + (b &&& 0x7f).toNat - i = (b &&& 0x7f).toNat + 1 by omega,
          List.take_succ_cons, IsLengthField, if_neg hshort, List.length_take,
          List.length_drop]
        omega

/-- At `i` stand a tag byte and a length, and the value starts at `j`. -/
structure HeaderAt (data : List UInt8) (i : Nat) (t : UInt8) (len : UInt64) (j : Nat) :
    Prop where
  tag : data[i]? = some t
  length : readLen data (i + 1) = .returns (some (len, j))

theorem HeaderAt.lt (h : HeaderAt data i t len j) : i + 1 < j := (readLen_spec h.length).1

theorem HeaderAt.le (h : HeaderAt data i t len j) : j ≤ data.length :=
  (readLen_spec h.length).2.1

theorem HeaderAt.room (h : HeaderAt data i t len j) : i + 1 < data.length :=
  h.lt.trans_le h.le

theorem addLen_eq : addLen j len = (j + len.toNat) % 2 ^ 64 := by
  rw [addLen, UInt64.toNat_add, UInt64.toNat_ofNat', Nat.mod_add_mod]

theorem findTagTurn_header (tag : UInt8) (h : HeaderAt data i t len j) :
    findTagTurn data tag i =
      if data.length < addLen j len then .returns none
      else if t = tag then
        if j ≤ addLen j len then .returns (some (KeycardAttest.slice data j (addLen j len)))
        else .panics
      else .next (addLen j len) := by
  simp only [findTagTurn, h.tag, h.length, if_neg (Nat.not_le.mpr h.room), subslice]
  by_cases hout : data.length < addLen j len
  · rw [if_pos hout, if_pos hout]
  · simp only [if_neg hout]
    by_cases htag : t = tag
    · simp only [if_pos htag]
      by_cases hle : j ≤ addLen j len
      · simp only [if_pos hle, if_pos (And.intro hle (Nat.le_of_not_lt hout))]
      · simp only [if_neg hle, if_neg (fun hrange : _ ∧ _ => hle hrange.1)]
    · rw [if_neg htag, if_neg htag]

/-- Without a header the search is over. -/
theorem findTagTurn_no_header (h : ∀ t len j, ¬ HeaderAt data i t len j) :
    findTagTurn data tag i = .returns none := by
  rw [findTagTurn]
  cases ht : data[i]? with
  | none => rfl
  | some t =>
      simp only
      by_cases hroom : data.length ≤ i + 1
      · rw [if_pos hroom]
      · rw [if_neg hroom]
        have hread : readLen data (i + 1) = .returns none := by
          cases hlen : readLen data (i + 1) with
          | returns found =>
              cases found with
              | none => rfl
              | some found => exact absurd ⟨ht, hlen⟩ (h t found.1 found.2)
          | panics =>
              rw [readLen, List.getElem?_eq_getElem (Nat.lt_of_not_le hroom)] at hlen
              simp only at hlen
              split at hlen <;> cases hlen
          | diverges =>
              rw [readLen, List.getElem?_eq_getElem (Nat.lt_of_not_le hroom)] at hlen
              simp only at hlen
              split at hlen <;> cases hlen
        rw [hread]

end Headers

/-- The headers that a search of `data` comes to: the first, and after every one of
another tag the one behind its value. -/
inductive Chain (data : List UInt8) (tag : UInt8) : Nat → Prop where
  | first : Chain data tag 0
  | next {i j : Nat} {t : UInt8} {len : UInt64} (h : Chain data tag i)
      (header : HeaderAt data i t len j) (htag : t ≠ tag) : Chain data tag (addLen j len)

/-- The length at a header of the chain takes the end of its value past 64 bits, and
the header is of the searched tag, or the value ends at its own start or before. -/
def WrapsBack (data : List UInt8) (tag : UInt8) : Prop :=
  ∃ i t len j, Chain data tag i ∧ HeaderAt data i t len j ∧ 2 ^ 64 ≤ j + len.toNat ∧
    (t = tag ∨ j + len.toNat ≤ 2 ^ 64 + i)

/-- A value stands in `data` right behind a tag byte and its length. -/
def Holds (data : List UInt8) (tag : UInt8) (v : List UInt8) : Prop :=
  ∃ front lengthField back, data = front ++ tag :: (lengthField ++ (v ++ back)) ∧
    IsLengthField lengthField

/-- The search returns nothing or a value that `data` holds, its index goes up at every
turn, and no access is out of range. -/
structure Searches (data : List UInt8) (tag : UInt8) : Prop where
  returns : ∃ found, findTag data tag = .returns found ∧ ∀ v, found = some v →
    Holds data tag v
  advances : ∀ i i', Turn.Reached (findTagTurn data tag) 0 i →
    findTagTurn data tag i = .next i' → i < i'
  inRange : ∀ i, Turn.Reached (findTagTurn data tag) 0 i → findTagTurn data tag i ≠ .panics

section Search

variable {data : List UInt8} {tag : UInt8} {i i' : Nat}

/-- What a turn of the search comes to. -/
inductive TurnsTo (data : List UInt8) (tag : UInt8) (i : Nat) :
    Turn Nat (Option (List UInt8)) → Prop where
  | over : TurnsTo data tag i (.returns none)
  | onward {t : UInt8} {len : UInt64} {j : Nat} (header : HeaderAt data i t len j)
      (htag : t ≠ tag) (hle : addLen j len ≤ data.length) :
      TurnsTo data tag i (.next (addLen j len))
  | found {len : UInt64} {j : Nat} (header : HeaderAt data i tag len j)
      (hforward : j ≤ addLen j len) (hle : addLen j len ≤ data.length) :
      TurnsTo data tag i (.returns (some (KeycardAttest.slice data j (addLen j len))))
  | back {len : UInt64} {j : Nat} (header : HeaderAt data i tag len j)
      (hback : addLen j len < j) : TurnsTo data tag i .panics

theorem findTagTurn_turnsTo (data : List UInt8) (tag : UInt8) (i : Nat) :
    TurnsTo data tag i (findTagTurn data tag i) := by
  by_cases hheader : ∃ t len j, HeaderAt data i t len j
  · obtain ⟨t, len, j, hheader⟩ := hheader
    rw [findTagTurn_header tag hheader]
    split
    · exact .over
    · rename_i hout
      have hle := Nat.le_of_not_lt hout
      split
      · rename_i htag
        subst htag
        split
        · rename_i hforward
          exact .found hheader hforward hle
        · rename_i hback
          exact .back hheader (Nat.lt_of_not_le hback)
      · rename_i htag
        exact .onward hheader htag hle
  · rw [findTagTurn_no_header fun t len j h => hheader ⟨t, len, j, h⟩]
    exact .over

theorem findTagTurn_next (h : findTagTurn data tag i = .next i') :
    ∃ t len j, HeaderAt data i t len j ∧ t ≠ tag ∧ i' = addLen j len ∧ i' ≤ data.length := by
  have hturn := findTagTurn_turnsTo data tag i
  rw [h] at hturn
  cases hturn with
  | onward header htag hle => exact ⟨_, _, _, header, htag, rfl, hle⟩

theorem findTagTurn_panics (h : findTagTurn data tag i = .panics) :
    ∃ len j, HeaderAt data i tag len j ∧ addLen j len < j := by
  have hturn := findTagTurn_turnsTo data tag i
  rw [h] at hturn
  cases hturn with
  | back header hback => exact ⟨_, _, header, hback⟩

theorem findTagTurn_some {v : List UInt8}
    (h : findTagTurn data tag i = .returns (some v)) :
    ∃ len j, HeaderAt data i tag len j ∧ j ≤ addLen j len ∧ addLen j len ≤ data.length ∧
      v = KeycardAttest.slice data j (addLen j len) := by
  have hturn := findTagTurn_turnsTo data tag i
  rw [h] at hturn
  cases hturn with
  | found header hforward hle => exact ⟨_, _, header, hforward, hle, rfl⟩

theorem Chain.of_reached (h : Turn.Reached (findTagTurn data tag) 0 i) :
    Chain data tag i := by
  induction h with
  | start => exact .first
  | next _ hturn ih =>
      obtain ⟨t, len, j, hheader, htag, rfl, -⟩ := findTagTurn_next hturn
      exact ih.next hheader htag

theorem Chain.reached (h : Chain data tag i) (hi : i ≤ data.length) :
    Turn.Reached (findTagTurn data tag) 0 i := by
  induction h with
  | first => exact .start
  | next _ hheader htag ih =>
      have hroom := hheader.room
      refine (ih (by omega)).next ?_
      rw [findTagTurn_header _ hheader, if_neg (Nat.not_lt.mpr hi), if_neg htag]

/-- An end that wraps comes before the value it is the end of. -/
theorem addLen_of_wraps {len : UInt64} {j : Nat} (hj : j ≤ isizeMax)
    (hwraps : 2 ^ 64 ≤ j + len.toNat) :
    addLen j len + 2 ^ 64 = j + len.toNat ∧ addLen j len < j := by
  have hlen := len.toNat_lt
  rw [isizeMax] at hj
  rw [addLen_eq, Nat.mod_eq_sub_mod hwraps, Nat.mod_eq_of_lt (by omega)]
  omega

theorem addLen_of_fits {len : UInt64} {j : Nat} (hfits : j + len.toNat < 2 ^ 64) :
    addLen j len = j + len.toNat := by
  rw [addLen_eq, Nat.mod_eq_of_lt hfits]

theorem HeaderAt.holds {len : UInt64} {j : Nat} (h : HeaderAt data i tag len j)
    (hle : j ≤ addLen j len) :
    Holds data tag (KeycardAttest.slice data j (addLen j len)) := by
  obtain ⟨hlt, -, hfield⟩ := readLen_spec h.length
  obtain ⟨hi, htag⟩ := List.getElem?_eq_some_iff.mp h.tag
  refine ⟨data.take i, (data.drop (i + 1)).take (j - (i + 1)),
    data.drop (addLen j len), ?_, hfield⟩
  have hvalue : KeycardAttest.slice data j (addLen j len) ++ data.drop (addLen j len) =
      data.drop j := by
    rw [KeycardAttest.slice, show data.drop (addLen j len) =
      (data.drop j).drop (addLen j len - j) by rw [List.drop_drop, Nat.add_sub_cancel' hle]]
    exact List.take_append_drop _ _
  have hfield' : (data.drop (i + 1)).take (j - (i + 1)) ++ data.drop j =
      data.drop (i + 1) := by
    rw [show data.drop j = (data.drop (i + 1)).drop (j - (i + 1)) by
      rw [List.drop_drop, Nat.add_sub_cancel' hlt.le]]
    exact List.take_append_drop _ _
  rw [hvalue, hfield', ← htag, ← List.drop_eq_getElem_cons hi, List.take_append_drop]

end Search

/-- The search does what it should just when no length wraps the end of its value back. -/
theorem findTag_searches_iff (data : ByteSlice) (tag : UInt8) :
    Searches data.bytes tag ↔ ¬ WrapsBack data.bytes tag := by
  constructor
  · rintro hsearch ⟨i, t, len, j, hchain, hheader, hwraps, hback⟩
    have hroom := hheader.room
    have hreached := hchain.reached (by omega)
    obtain ⟨hsum, hlt⟩ := addLen_of_wraps (hheader.le.trans data.bounded) hwraps
    have hturn := findTagTurn_header tag hheader
    rw [if_neg (Nat.not_lt.mpr (hlt.le.trans hheader.le))] at hturn
    by_cases htag : t = tag
    · rw [if_pos htag, if_neg (Nat.not_le.mpr hlt)] at hturn
      exact hsearch.inRange i hreached hturn
    · rw [if_neg htag] at hturn
      have hforward := hsearch.advances i _ hreached hturn
      have hstart := hback.resolve_left htag
      omega
  · intro hfits
    have hadvances : ∀ i i', Turn.Reached (findTagTurn data.bytes tag) 0 i →
        findTagTurn data.bytes tag i = .next i' → i < i' := by
      intro i i' hreached hturn
      obtain ⟨t, len, j, hheader, htag, rfl, -⟩ := findTagTurn_next hturn
      have hlt := hheader.lt
      by_cases hwraps : 2 ^ 64 ≤ j + len.toNat
      · obtain ⟨hsum, -⟩ := addLen_of_wraps (hheader.le.trans data.bounded) hwraps
        by_contra hback
        exact hfits ⟨i, t, len, j, .of_reached hreached, hheader, hwraps,
          Or.inr (by omega)⟩
      · rw [addLen_of_fits (Nat.lt_of_not_le hwraps)]
        omega
    have hinRange : ∀ i, Turn.Reached (findTagTurn data.bytes tag) 0 i →
        findTagTurn data.bytes tag i ≠ .panics := by
      intro i hreached hturn
      obtain ⟨len, j, hheader, hlt⟩ := findTagTurn_panics hturn
      refine hfits ⟨i, tag, len, j, .of_reached hreached, hheader, ?_, Or.inl rfl⟩
      by_contra hwraps
      rw [addLen_of_fits (Nat.lt_of_not_le hwraps)] at hlt
      omega
    refine ⟨?_, hadvances, hinRange⟩
    have hends : (findTag data.bytes tag).Returns := by
      refine Turn.returns_of_decreasing (fun i => data.bytes.length - i) ?_ hinRange
        (Nat.lt_succ_self _)
      intro i i' hreached hturn
      have hlt := hadvances i i' hreached hturn
      obtain ⟨-, -, -, -, -, -, hle⟩ := findTagTurn_next hturn
      omega
    obtain ⟨found, hfound⟩ := hends
    refine ⟨found, hfound, ?_⟩
    rintro v rfl
    obtain ⟨i, -, hturn⟩ := Turn.run_eq_returns hfound
    obtain ⟨len, j, hheader, hle, -, rfl⟩ := findTagTurn_some hturn
    exact hheader.holds hle

/-- A length of `2 ^ 64 - 10` behind the searched tag stops the program; behind another
tag it sends the search back to its start. -/
theorem findTag_wraps :
    findTag [0xA4, 0x88, 255, 255, 255, 255, 255, 255, 255, 246] 0xA4 = .panics ∧
      findTag [0x01, 0x88, 255, 255, 255, 255, 255, 255, 255, 246] 0xA4 = .diverges ∧
      ¬ Searches [0xA4, 0x88, 255, 255, 255, 255, 255, 255, 255, 246] 0xA4 := by
  have hpanics : findTag [0xA4, 0x88, 255, 255, 255, 255, 255, 255, 255, 246] 0xA4 =
      .panics := by decide
  refine ⟨hpanics, by decide, fun hsearch => ?_⟩
  obtain ⟨found, hfound, -⟩ := hsearch.returns
  rw [hpanics] at hfound
  cases hfound

/-- A header of the chain leads to the one behind its value, which stands in `data` or
right at its end. -/
def Leads (data : List UInt8) (tag : UInt8) (i i' : Nat) : Prop :=
  ∃ t len j, HeaderAt data i t len j ∧ t ≠ tag ∧ i' = addLen j len ∧ i' ≤ data.length

/-- The search is over some time: no value that it comes to ends before its start, and no
header leads back to itself. -/
structure Ends (data : List UInt8) (tag : UInt8) : Prop where
  forward : ∀ i len j, Chain data tag i → HeaderAt data i tag len j → j ≤ addLen j len
  onward : ∀ i, Chain data tag i → ¬ Relation.TransGen (Leads data tag) i i

section Ends

variable {data : List UInt8} {tag : UInt8} {i i' : Nat}

theorem leads_iff : Leads data tag i i' ↔ findTagTurn data tag i = .next i' := by
  constructor
  · rintro ⟨t, len, j, hheader, htag, rfl, hle⟩
    rw [findTagTurn_header _ hheader, if_neg (Nat.not_lt.mpr hle), if_neg htag]
  · exact findTagTurn_next

theorem reached_le (h : Turn.Reached (findTagTurn data tag) 0 i) : i ≤ data.length := by
  cases h with
  | start => exact Nat.zero_le _
  | next _ hturn =>
      obtain ⟨-, -, -, -, -, -, hle⟩ := findTagTurn_next hturn
      exact hle

theorem cycles_iff : Turn.Cycles (findTagTurn data tag) 0 ↔
    ∃ i, Chain data tag i ∧ Relation.TransGen (Leads data tag) i i := by
  have hleads : Leads data tag = fun i i' => findTagTurn data tag i = .next i' :=
    funext fun i => funext fun i' => propext leads_iff
  rw [hleads, Turn.Cycles]
  constructor
  · rintro ⟨i, n, hreached, hback⟩
    exact ⟨i, .of_reached hreached, Turn.transGen_iff_after.mpr ⟨n, hback⟩⟩
  · rintro ⟨i, hchain, hback⟩
    obtain ⟨n, hn⟩ := Turn.transGen_iff_after.mp hback
    obtain ⟨i', hturn, -⟩ := Turn.after_succ.mp hn
    obtain ⟨t, len, j, hheader, -⟩ := findTagTurn_next hturn
    have hroom := hheader.room
    exact ⟨i, n, hchain.reached (by omega), hn⟩

/-- What ends a search, on any bytes. -/
theorem findTag_returns : (findTag data tag).Returns ↔ Ends data tag := by
  have hbound : ∀ i, Turn.Reached (findTagTurn data tag) 0 i →
      i ∈ Finset.range (data.length + 1) := fun i hi =>
    Finset.mem_range.mpr (Nat.lt_succ_of_le (reached_le hi))
  have hdiverges : findTag data tag = .diverges ↔
      ∃ i, Chain data tag i ∧ Relation.TransGen (Leads data tag) i i := by
    rw [← cycles_iff, ← Turn.run_card_eq_diverges hbound, Finset.card_range, findTag]
  constructor
  · rintro ⟨found, hfound⟩
    refine ⟨fun i len j hchain hheader => ?_, fun i hchain hback => ?_⟩
    · by_contra hlt
      have hroom := hheader.room
      have hle := hheader.le
      have hturn := findTagTurn_header tag hheader
      rw [if_neg (by omega), if_pos rfl, if_neg hlt] at hturn
      exact (hchain.reached (by omega)).not_returns hturn _ ⟨found, hfound⟩
    · rw [hdiverges.mpr ⟨i, hchain, hback⟩] at hfound
      cases hfound
  · rintro ⟨hforward, honward⟩
    cases hend : findTag data tag with
    | returns found => exact Ending.returns_returns found
    | panics =>
        obtain ⟨i, hreached, hturn⟩ := Turn.run_eq_panics hend
        obtain ⟨len, j, hheader, hlt⟩ := findTagTurn_panics hturn
        have hle := hforward i len j (.of_reached hreached) hheader
        omega
    | diverges =>
        obtain ⟨i, hchain, hback⟩ := hdiverges.mp hend
        exact absurd hback (honward i hchain)

end Ends

/-- The forms of a length that the attestation's reader knows: one byte, or `0x81` or
`0x82` and as many bytes as they say. -/
def ShortForm (data : List UInt8) (i : Nat) : Prop :=
  ∀ b, data[i]? = some b → b < 0x80 ∨ b = 0x81 ∨ b = 0x82

section Agreement

variable {data : List UInt8} {tag : UInt8} {i : Nat}

theorem toNat_two_bytes (hi lo : UInt8) :
    (hi.toUInt64 <<< 8 ||| lo.toUInt64).toNat = hi.toNat <<< 8 ||| lo.toNat := by
  have hhi := hi.toNat_lt
  have hshift : hi.toNat <<< 8 < 2 ^ 64 := by
    rw [Nat.shiftLeft_eq]
    omega
  rw [UInt64.toNat_or, UInt64.toNat_shiftLeft, UInt8.toNat_toUInt64, UInt8.toNat_toUInt64]
  change hi.toNat <<< 8 % 2 ^ 64 ||| lo.toNat = _
  rw [Nat.mod_eq_of_lt hshift]

/-- On the forms it knows the attestation's reader reads what is read here. -/
theorem readLen_short {b : UInt8} (hb : data[i]? = some b)
    (hform : b < 0x80 ∨ b = 0x81 ∨ b = 0x82) :
    (∃ (len : UInt64) (lhdr : Nat), readLen data i = .returns (some (len, i + lhdr)) ∧
      KeycardAttest.readLen data i = .ok (len.toNat, lhdr) ∧ len.toNat < 2 ^ 16) ∨
    (readLen data i = .returns none ∧ ∃ e, KeycardAttest.readLen data i = .error e) := by
  rw [readLen, KeycardAttest.readLen]
  simp only [hb]
  rcases hform with hshort | rfl | rfl
  · have hlt := b.toNat_lt
    rw [if_pos hshort, if_pos hshort]
    exact Or.inl ⟨b.toUInt64, 1, rfl, by rw [UInt8.toNat_toUInt64], by
      rw [UInt8.toNat_toUInt64]
      omega⟩
  · change (∃ (len : UInt64) (lhdr : Nat),
      Ending.returns (readLenBytes data 1 0 (i + 1)) = _ ∧ _ ∧ _) ∨
        (Ending.returns (readLenBytes data 1 0 (i + 1)) = _ ∧ _)
    cases hl : data[i + 1]? with
    | none => exact Or.inr ⟨by simp only [readLenBytes, hl], _, rfl⟩
    | some l =>
        have hlt := l.toNat_lt
        refine Or.inl ⟨l.toUInt64, 2, ?_, ?_, ?_⟩
        · simp [readLenBytes, hl]
        · rw [UInt8.toNat_toUInt64]
          rfl
        · rw [UInt8.toNat_toUInt64]
          omega
  · change (∃ (len : UInt64) (lhdr : Nat),
      Ending.returns (readLenBytes data 2 0 (i + 1)) = _ ∧ _ ∧ _) ∨
        (Ending.returns (readLenBytes data 2 0 (i + 1)) = _ ∧ _)
    cases hhi : data[i + 1]? with
    | none => exact Or.inr ⟨by simp only [readLenBytes, hhi], _, rfl⟩
    | some hi =>
        cases hlo : data[i + 2]? with
        | none =>
            refine Or.inr ⟨?_, _, rfl⟩
            simp only [readLenBytes, hhi, hlo]
        | some lo =>
            refine Or.inl ⟨hi.toUInt64 <<< 8 ||| lo.toUInt64, 3, ?_, ?_, ?_⟩
            · simp [readLenBytes, hhi, hlo]
            · rw [toNat_two_bytes]
              rfl
            · have hhi' := hi.toNat_lt
              rw [toNat_two_bytes]
              exact Nat.or_lt_two_pow (by rw [Nat.shiftLeft_eq]; omega)
                (lo.toNat_lt.trans (by decide))

/-- The attestation's reader accepts no other form. -/
theorem readLen_attest_form {found : Nat × Nat}
    (h : KeycardAttest.readLen data i = .ok found) :
    ∃ b, data[i]? = some b ∧ (b < 0x80 ∨ b = 0x81 ∨ b = 0x82) := by
  rw [KeycardAttest.readLen] at h
  cases hb : data[i]? with
  | none =>
      rw [hb] at h
      cases h
  | some b =>
      refine ⟨b, rfl, ?_⟩
      simp only [hb] at h
      by_contra hform
      simp only [not_or] at hform
      rw [if_neg hform.1, if_neg hform.2.1, if_neg hform.2.2] at h
      cases h

/-- The end of a value of a short form does not wrap. -/
theorem addLen_short {data : ByteSlice} {len : UInt64} {t : UInt8} {i j : Nat}
    (hheader : HeaderAt data.bytes i t len j) (hlen : len.toNat < 2 ^ 16) :
    addLen j len = j + len.toNat := by
  have hj := hheader.le.trans data.bounded
  rw [isizeMax] at hj
  exact addLen_of_fits (by omega)

/-- From any header on, what the attestation's reader finds is found here. -/
theorem run_of_attest {data : ByteSlice} {v full : List UInt8} {i n : Nat}
    (h : KeycardAttest.findTagFrom data.bytes tag i = .ok (v, full))
    (hn : data.bytes.length < n + i) :
    Turn.run (findTagTurn data.bytes tag) n i = .returns (some v) := by
  induction n generalizing i with
  | zero =>
      rw [KeycardAttest.findTagFrom, if_neg (by omega)] at h
      cases h
  | succ n ih =>
      rw [KeycardAttest.findTagFrom] at h
      by_cases hroom : i + 1 < data.bytes.length
      · rw [if_pos hroom] at h
        cases hread : KeycardAttest.readLen data.bytes (i + 1) with
        | error e =>
            rw [hread] at h
            cases h
        | ok found =>
            obtain ⟨b, hb, hform⟩ := readLen_attest_form hread
            rcases readLen_short hb hform with ⟨len, lhdr, hlen, hattest, hsmall⟩ |
              ⟨-, e, hattest⟩
            · have hheader : HeaderAt data.bytes i data.bytes[i] len (i + 1 + lhdr) :=
                ⟨List.getElem?_eq_getElem _, hlen⟩
              have hstop := addLen_short hheader hsmall
              have hturn := findTagTurn_header tag hheader
              rw [hattest] at h
              simp only at h
              by_cases hout : data.bytes.length < i + 1 + lhdr + len.toNat
              · rw [if_pos hout] at h
                cases h
              · rw [if_neg hout] at h
                rw [hstop, if_neg hout] at hturn
                by_cases htag : data.bytes[i] = tag
                · rw [if_pos (hheader.tag.trans (congrArg some htag)), Except.ok.injEq,
                    Prod.mk.injEq] at h
                  rw [if_pos htag, if_pos (by omega)] at hturn
                  rw [Turn.run_succ_returns hturn, h.1]
                · have hother : data.bytes[i]? ≠ some tag := fun hsame =>
                    htag (Option.some.inj (hheader.tag.symm.trans hsame))
                  rw [if_neg hother] at h
                  rw [if_neg htag] at hturn
                  rw [Turn.run_succ_next hturn]
                  exact ih h (by omega)
            · rw [hattest] at hread
              cases hread
      · rw [if_neg hroom] at h
        cases h

/-- What is found here behind lengths of short forms, the attestation's reader finds. -/
theorem attest_of_run {data : ByteSlice} {v : List UInt8} {i n : Nat}
    (h : Turn.run (findTagTurn data.bytes tag) n i = .returns (some v))
    (hchain : Chain data.bytes tag i)
    (hforms : ∀ i, Chain data.bytes tag i → ShortForm data.bytes (i + 1)) :
    ∃ full, KeycardAttest.findTagFrom data.bytes tag i = .ok (v, full) := by
  induction n generalizing i with
  | zero => cases h
  | succ n ih =>
      by_cases hheader : ∃ t len j, HeaderAt data.bytes i t len j
      · obtain ⟨t, len, j, hheader⟩ := hheader
        have hroom := hheader.room
        have hb : data.bytes[i + 1]? = some data.bytes[i + 1] := List.getElem?_eq_getElem _
        rcases readLen_short hb (hforms i hchain _ hb) with ⟨len', lhdr, hlen, hattest, hsmall⟩ |
          ⟨hnone, -⟩
        · rw [hheader.length, Ending.returns.injEq, Option.some.injEq, Prod.mk.injEq] at hlen
          obtain ⟨rfl, rfl⟩ := hlen
          have hstop := addLen_short hheader hsmall
          have hturn := findTagTurn_header tag hheader
          rw [KeycardAttest.findTagFrom, if_pos hroom, hattest]
          simp only
          rw [hstop] at hturn
          by_cases hout : data.bytes.length < i + 1 + lhdr + len.toNat
          · rw [if_pos hout] at hturn
            rw [Turn.run_succ_returns hturn] at h
            cases h
          · rw [if_neg hout] at hturn ⊢
            by_cases htag : t = tag
            · rw [if_pos htag, if_pos (by omega)] at hturn
              rw [Turn.run_succ_returns hturn, Ending.returns.injEq, Option.some.injEq] at h
              rw [if_pos (hheader.tag.trans (congrArg some htag)), h]
              exact ⟨_, rfl⟩
            · rw [if_neg htag] at hturn
              rw [Turn.run_succ_next hturn] at h
              have hother : data.bytes[i]? ≠ some tag := fun hsame =>
                htag (Option.some.inj (hheader.tag.symm.trans hsame))
              rw [if_neg hother]
              have hnext := hchain.next hheader htag
              rw [hstop] at hnext
              exact ih h hnext
        · rw [hheader.length] at hnone
          cases hnone
      · rw [Turn.run_succ_returns
          (findTagTurn_no_header fun t len j h' => hheader ⟨t, len, j, h'⟩)] at h
        cases h

/-- The two readers agree: what the attestation's finds is found here, and what is found
here is found there unless a length on the way has a form it does not know. -/
theorem findTag_agrees (data : ByteSlice) (tag : UInt8) (v : List UInt8) :
    ((∃ full, KeycardAttest.findTag data.bytes tag = .ok (v, full)) →
      findTag data.bytes tag = .returns (some v)) ∧
    (findTag data.bytes tag = .returns (some v) →
      (∀ i, Chain data.bytes tag i → ShortForm data.bytes (i + 1)) →
      ∃ full, KeycardAttest.findTag data.bytes tag = .ok (v, full)) := by
  constructor
  · rintro ⟨full, hattest⟩
    exact run_of_attest hattest (Nat.lt_succ_self _)
  · intro hfound hforms
    exact attest_of_run hfound .first hforms

/-- Behind an empty object of another tag stands a template of one byte. -/
theorem findTag_agrees_template :
    findTag [0x01, 0x00, 0xA0, 0x81, 0x01, 0x07] 0xA0 = .returns (some [0x07]) := by
  have hattest : KeycardAttest.findTag [0x01, 0x00, 0xA0, 0x81, 0x01, 0x07] 0xA0 =
      .ok ([0x07], [0xA0, 0x81, 0x01, 0x07]) := by
    simp [KeycardAttest.findTag, KeycardAttest.findTagFrom, KeycardAttest.readLen,
      KeycardAttest.slice]
  exact (findTag_agrees ⟨[0x01, 0x00, 0xA0, 0x81, 0x01, 0x07], by decide⟩ 0xA0 [0x07]).1
    ⟨_, hattest⟩

end Agreement

end Apdu

end RlnGifter
