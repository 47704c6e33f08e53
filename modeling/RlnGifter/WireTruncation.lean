/-
Truncated messages.  A cut inside a field is an error of the walk, and a cut
between two fields leaves out the last ones, which are the optional ones; so no part
of a message decodes to another message.
-/
import RlnGifter.WireGrammar

namespace RlnGifter

section Cut

/-- A varint that is cut short is not read. -/
theorem readVarint_cut {v : UInt64} {p : List UInt8} (h : p <+: putVarint v)
    (hne : p ≠ putVarint v) : readVarint p = none := by
  cases hread : readVarint p with
  | none => rfl
  | some read =>
      obtain ⟨w, rest⟩ := read
      obtain ⟨last, hlast⟩ := h
      obtain ⟨bytes, rfl, hbytes⟩ := readVarint_sound hread
      have hwhole := readVarint_putVarint v []
      rw [List.append_nil, ← hlast, List.append_assoc, hbytes.read] at hwhole
      have hnil : rest ++ last = [] := congrArg Prod.snd (Option.some.inj hwhole)
      rw [(List.append_eq_nil_iff.mp hnil).2, List.append_nil] at hlast
      exact absurd hlast hne

/-- Where a cut of two strings falls. -/
theorem cut_append {p first second : List UInt8} (h : p <+: first ++ second) :
    (p <+: first ∧ p ≠ first) ∨ ∃ rest, p = first ++ rest ∧ rest <+: second := by
  by_cases hlength : p.length < first.length
  · left
    refine ⟨List.prefix_of_prefix_length_le h (List.prefix_append _ _) (by omega), ?_⟩
    rintro rfl
    exact absurd hlength (Nat.lt_irrefl _)
  · right
    have hfirst : first <+: p :=
      List.prefix_of_prefix_length_le (List.prefix_append _ _) h (by omega)
    obtain ⟨rest, rfl⟩ := hfirst
    exact ⟨rest, rfl, (List.prefix_append_right_inj first).mp h⟩

variable {size : Nat} {number : UInt64} {p : List UInt8}

/-- A field that is cut short is an error of the walk. -/
theorem readField_cut {val : FieldVal} (hnumber : number.toNat < 2 ^ 61)
    (hfits : (putField number val).length < 2 ^ 64) (h : p <+: putField number val)
    (hne : p ≠ putField number val) (hroom : p.length ≤ size) :
    ∃ e, readField size p = .error e := by
  cases val with
  | varint v =>
      obtain ⟨-, hwire⟩ := @key_parts number 0 hnumber (by decide)
      rw [UInt64.or_zero] at hwire
      simp only [putField, putVarintField] at h hne
      rcases cut_append h with ⟨hkey, hkey'⟩ | ⟨rest, rfl, hval⟩
      · rw [readField, readVarint_cut hkey hkey']
        exact ⟨_, rfl⟩
      · have hcut := readVarint_cut hval fun heq => hne (by rw [heq])
        rw [readField, readVarint_putVarint]
        simp only [hwire, ↓reduceIte, hcut]
        exact ⟨_, rfl⟩
  | bytes data =>
      obtain ⟨-, hwire⟩ := @key_parts number 2 hnumber (by decide)
      have hnot : ¬ ((number <<< 3) ||| 2) &&& 7 = 0 := by
        rw [hwire]
        decide
      simp only [putField, putLenField, List.append_assoc, List.length_append] at h hne hfits
      rcases cut_append h with ⟨hkey, hkey'⟩ | ⟨rest, rfl, hrest⟩
      · rw [readField, readVarint_cut hkey hkey']
        exact ⟨_, rfl⟩
      · rw [readField, readVarint_putVarint]
        simp only [if_neg hnot, if_pos hwire]
        rcases cut_append hrest with ⟨hlen, hlen'⟩ | ⟨part, rfl, hpart⟩
        · rw [readVarint_cut hlen hlen']
          exact ⟨_, rfl⟩
        · -- part of the data is missing, so the announced end is out of the buffer
          have hshort : part.length < data.length := by
            apply Nat.lt_of_le_of_ne hpart.length_le
            intro heq
            rw [hpart.eq_of_length heq] at hne
            exact hne rfl
          have hlength : (UInt64.ofNat data.length).toNat = data.length := by
            rw [UInt64.toNat_ofNat', Nat.mod_eq_of_lt (by omega)]
          simp only [List.length_append] at hroom
          rw [readVarint_putVarint]
          simp only [hlength]
          by_cases hover : 2 ^ 64 ≤ size - part.length + data.length
          · rw [if_pos hover]
            exact ⟨_, rfl⟩
          · rw [if_neg hover, if_pos (by omega)]
            exact ⟨_, rfl⟩

/-- A cut of written fields is an error of the walk or falls between two of them. -/
theorem walkFrom_cut {σ : Type} {f : σ → UInt64 → FieldVal → σ} {s : σ}
    {fields : List (UInt64 × FieldVal)} (hnumbers : ∀ q ∈ fields, q.1.toNat < 2 ^ 61)
    (hfits : (putFields fields).length < 2 ^ 64) (h : p <+: putFields fields)
    (hroom : p.length ≤ size) (hsize : size < 2 ^ 64) :
    (∃ e, walkFrom f size s p = .error e) ∨
      ∃ kept removed, fields = kept ++ removed ∧ p = putFields kept := by
  induction fields generalizing p s with
  | nil => exact Or.inr ⟨[], [], rfl, List.prefix_nil.mp h⟩
  | cons q fields ih =>
      have hbytes : putFields (q :: fields) = putField q.1 q.2 ++ putFields fields := rfl
      rw [hbytes] at h hfits
      rw [List.length_append] at hfits
      rcases cut_append h with ⟨hq, hq'⟩ | ⟨rest, rfl, hrest⟩
      · by_cases hnil : p = []
        · exact Or.inr ⟨[], q :: fields, rfl, hnil⟩
        · left
          obtain ⟨e, he⟩ := readField_cut (hnumbers q List.mem_cons_self) (by omega) hq hq' hroom
          refine ⟨e, ?_⟩
          rw [walkFrom, if_neg hnil]
          split
          · rename_i e' he'
            rw [he] at he'
            cases he'
            rfl
          · rename_i hok
            rw [he] at hok
            cases hok
      · rw [walkFrom_of_readField
          (readField_putField (hnumbers q List.mem_cons_self) hroom hsize)]
        rw [List.length_append] at hroom
        rcases ih (s := f s q.1 q.2) (fun r hr => hnumbers r (List.mem_cons_of_mem q hr))
          (by omega) hrest (by omega) with herror | ⟨kept, removed, rfl, rfl⟩
        · exact Or.inl herror
        · exact Or.inr ⟨q :: kept, removed, rfl, rfl⟩

/-- A strict cut of written fields is an error of the walk or leaves some of them
out. -/
theorem walkFields_cut {σ : Type} (f : σ → UInt64 → FieldVal → σ) (s : σ)
    {fields : List (UInt64 × FieldVal)} (hnumbers : ∀ q ∈ fields, q.1.toNat < 2 ^ 61)
    (hfits : (putFields fields).length < 2 ^ 64) (h : p <+: putFields fields)
    (hne : p ≠ putFields fields) :
    (∃ e, walkFields f s p = .error e) ∨ ∃ kept removed, fields = kept ++ removed ∧
      removed ≠ [] ∧ walkFields f s p = .ok (kept.foldl (fun s q => f s q.1 q.2) s) := by
  have hlength := h.length_le
  rcases walkFrom_cut (f := f) (s := s) hnumbers hfits h (Nat.le_refl _) (by omega) with
    herror | ⟨kept, removed, rfl, rfl⟩
  · exact Or.inl herror
  · refine Or.inr ⟨kept, removed, rfl, ?_, ?_⟩
    · rintro rfl
      exact hne (by rw [List.append_nil])
    · exact walkFields_putFields (fun q hq => hnumbers q (List.mem_append_left _ hq)) (by omega)

end Cut

namespace RlnGifterRequest

/-- The fields of a request that every request has. -/
def requiredFields (m : RlnGifterRequest) : List (UInt64 × FieldVal) :=
  [(1, .bytes (utf8 m.requestId)), (2, .bytes m.authenticationType),
    (3, .bytes m.authenticationPayload), (4, .bytes m.identityCommitment)]

/-- Without the commitment a request is not complete. -/
theorem foldl_take_incomplete {kept removed : List (UInt64 × FieldVal)}
    (m : RlnGifterRequest) (h : m.requiredFields = kept ++ removed) (hne : removed ≠ []) :
    (kept.foldl (fun d q => take d q.1 q.2) {}).haveIdc = false := by
  rcases kept with _ | ⟨a, _ | ⟨b, _ | ⟨c, _ | ⟨d, kept⟩⟩⟩⟩
  · rfl
  · cases h
    simp [take]
  · cases h
    simp [take]
  · cases h
    simp [take]
  · simp only [requiredFields, List.cons_append, List.cons.injEq, List.nil_eq,
      List.append_eq_nil_iff] at h
    exact absurd h.2.2.2.2.2 hne

/-- What is left of the fields of a request, once the last ones are gone: the
required ones, or not all of them. -/
theorem fields_cut {kept removed : List (UInt64 × FieldVal)} (m : RlnGifterRequest)
    (h : m.fields = kept ++ removed) (hne : removed ≠ []) :
    kept = m.requiredFields ∨ ∃ more, m.requiredFields = kept ++ more ∧ more ≠ [] := by
  have hsplit : m.requiredFields ++ optField 5 (m.rateLimit.map .varint) = kept ++ removed := h
  rcases List.append_eq_append_iff.mp hsplit with ⟨more, rfl, hlast⟩ | ⟨more, hkept, rfl⟩
  · left
    cases hrate : m.rateLimit with
    | none =>
        simp only [hrate, optField, Option.map_none, List.nil_eq,
          List.append_eq_nil_iff] at hlast
        rw [hlast.1, List.append_nil]
    | some r =>
        simp only [hrate, optField, Option.map_some, List.singleton_eq_append_iff] at hlast
        rcases hlast with ⟨hnil, -⟩ | ⟨-, hnil⟩
        · rw [hnil, List.append_nil]
        · exact absurd hnil hne
  · by_cases hnil : more = []
    · left
      rw [hkept, hnil, List.append_nil]
    · exact Or.inr ⟨more, hkept, hnil⟩

/-- A cut request is an error, or the request without its rate. -/
theorem decode_cut (m : RlnGifterRequest) {p : List UInt8} (hfits : m.encode.length < 2 ^ 64)
    (h : p <+: m.encode) (hne : p ≠ m.encode) :
    (∃ e, decode p = .error e) ∨ decode p = .ok { m with rateLimit := none } := by
  rw [encode_eq_putFields] at hfits h hne
  rcases walkFields_cut take {} m.fields_numbers hfits h hne with ⟨e, hwalk⟩ |
    ⟨kept, removed, hfields, hremoved, hwalk⟩
  · left
    rw [decode, hwalk]
    exact ⟨e, rfl⟩
  · rw [decode, hwalk]
    rcases m.fields_cut hfields hremoved with rfl | ⟨more, hmore, hnil⟩
    · right
      have hfold := foldl_take_fields { m with rateLimit := none }
      have hrequired : fields { m with rateLimit := none } = m.requiredFields := rfl
      rw [← hrequired, hfold]
      rfl
    · left
      have hincomplete := foldl_take_incomplete m hmore hnil
      simp only [hincomplete, ↓reduceIte]
      split
      · exact ⟨_, rfl⟩
      · exact ⟨_, rfl⟩

end RlnGifterRequest

namespace RlnGifterResponse

/-- An optional part of a response. -/
inductive Part where
  | error (e : String)
  | success (s : MembershipAllocationSuccess)
  | failure (f : MembershipAllocationFailure)

/-- The optional parts a response has, in the order they are written. -/
def parts (m : RlnGifterResponse) : List Part :=
  (m.error.map .error).toList ++ (m.success.map .success).toList ++
    (m.failure.map .failure).toList

def addPart (m : RlnGifterResponse) : Part → RlnGifterResponse
  | .error e => { m with error := some e }
  | .success s => { m with success := some s }
  | .failure f => { m with failure := some f }

/-- The response with these optional parts and no others. -/
def withParts (m : RlnGifterResponse) (parts : List Part) : RlnGifterResponse :=
  parts.foldl addPart { requestId := m.requestId, authSuccess := m.authSuccess }

/-- The field a part is written as. -/
def Part.field : Part → UInt64 × FieldVal
  | .error e => (3, .bytes (utf8 e))
  | .success s => (4, .bytes s.encode)
  | .failure f => (5, .bytes f.encode)

/-- The fields of a response that every response has. -/
def requiredFields (m : RlnGifterResponse) : List (UInt64 × FieldVal) :=
  [(1, .bytes (utf8 m.requestId)), (2, .varint (if m.authSuccess then 1 else 0))]

theorem fields_eq (m : RlnGifterResponse) :
    m.fields = m.requiredFields ++ m.parts.map Part.field := by
  cases herror : m.error <;> cases hsuccess : m.success <;> cases hfailure : m.failure <;>
    simp [fields, requiredFields, parts, Part.field, optField, herror, hsuccess, hfailure]

/-- A part whose sub-message is read back. -/
def Part.ReadsBack : Part → Prop
  | .error _ => True
  | .success s => MembershipAllocationSuccess.decode s.encode = .ok s
  | .failure f => MembershipAllocationFailure.decode f.encode = .ok f

theorem readsBack_of_mem_parts {m : RlnGifterResponse} (hfits : m.encode.length < 2 ^ 64) :
    ∀ part ∈ m.parts, part.ReadsBack := by
  intro part hpart
  simp only [parts, List.mem_append, Option.mem_toList,
    Option.map_eq_some_iff] at hpart
  rcases hpart with (⟨e, -, rfl⟩ | ⟨s, hs, rfl⟩) | ⟨f, hf, rfl⟩
  · trivial
  · exact decode_success_of_fits hfits hs
  · exact decode_failure_of_fits hfits hf

theorem take_part {part : Part} (h : part.ReadsBack) (d : Draft) :
    take d part.field.1 part.field.2 = { d with m := d.m.addPart part } := by
  cases part with
  | error e => simp [Part.field, take, addPart, asString]
  | success s =>
      have hdecode : MembershipAllocationSuccess.decode s.encode = .ok s := h
      simp [Part.field, take, addPart, asBytes, hdecode]
  | failure f =>
      have hdecode : MembershipAllocationFailure.decode f.encode = .ok f := h
      simp [Part.field, take, addPart, asBytes, hdecode]

theorem foldl_take_parts {parts : List Part} (h : ∀ part ∈ parts, part.ReadsBack) (d : Draft) :
    (parts.map Part.field).foldl (fun d q => take d q.1 q.2) d =
      { d with m := parts.foldl addPart d.m } := by
  induction parts generalizing d with
  | nil => rfl
  | cons part parts ih =>
      rw [List.map_cons, List.foldl_cons, take_part (h part List.mem_cons_self),
        ih fun part hpart => h part (List.mem_cons_of_mem _ hpart)]
      rfl

theorem foldl_take_required (m : RlnGifterResponse) :
    m.requiredFields.foldl (fun d q => take d q.1 q.2) {} =
      { m := { requestId := m.requestId, authSuccess := m.authSuccess },
        haveId := true, haveAuth := true } := by
  cases hauth : m.authSuccess <;> simp [requiredFields, take, asString, asU64, hauth]

/-- Without the flag a response is not complete. -/
theorem foldl_take_incomplete {kept removed : List (UInt64 × FieldVal)}
    (m : RlnGifterResponse) (h : m.requiredFields = kept ++ removed) (hne : removed ≠ []) :
    (kept.foldl (fun d q => take d q.1 q.2) {}).haveAuth = false ∧
      (kept.foldl (fun d q => take d q.1 q.2) {}).subErr = none := by
  rcases kept with _ | ⟨a, _ | ⟨b, kept⟩⟩
  · exact ⟨rfl, rfl⟩
  · cases h
    simp [take]
  · simp only [requiredFields, List.cons_append, List.cons.injEq, List.nil_eq,
      List.append_eq_nil_iff] at h
    exact absurd h.2.2.2 hne

/-- A cut response is an error, or the response without the last of its optional
parts. -/
theorem decode_cut (m : RlnGifterResponse) {p : List UInt8} (hfits : m.encode.length < 2 ^ 64)
    (h : p <+: m.encode) (hne : p ≠ m.encode) :
    (∃ e, decode p = .error e) ∨ ∃ kept removed, m.parts = kept ++ removed ∧ removed ≠ [] ∧
      decode p = .ok (m.withParts kept) := by
  have hback := readsBack_of_mem_parts hfits
  rw [encode_eq_putFields] at hfits h hne
  rcases walkFields_cut take {} m.fields_numbers hfits h hne with ⟨e, hwalk⟩ |
    ⟨kept, removed, hfields, hremoved, hwalk⟩
  · left
    rw [decode, hwalk]
    exact ⟨e, rfl⟩
  · rw [fields_eq] at hfields
    rw [decode, hwalk]
    rcases List.append_eq_append_iff.mp hfields with ⟨more, rfl, hparts⟩ | ⟨more, hkept, rfl⟩
    · right
      obtain ⟨keptParts, removedParts, hsplit, rfl, rfl⟩ := List.map_eq_append_iff.mp hparts
      refine ⟨keptParts, removedParts, hsplit, ?_, ?_⟩
      · rintro rfl
        exact hremoved rfl
      · have hkeptBack : ∀ part ∈ keptParts, part.ReadsBack := fun part hpart =>
          hback part (hsplit ▸ List.mem_append_left _ hpart)
        rw [List.foldl_append, foldl_take_required, foldl_take_parts hkeptBack]
        rfl
    · by_cases hnil : more = []
      · right
        rw [hnil, List.append_nil] at hkept
        rw [hnil, List.nil_append] at hremoved
        refine ⟨[], m.parts, rfl, fun hparts => hremoved (by rw [hparts]; rfl), ?_⟩
        rw [← hkept, foldl_take_required]
        rfl
      · left
        obtain ⟨hauth, hsub⟩ := foldl_take_incomplete m hkept hnil
        simp only [hauth, hsub, ↓reduceIte]
        split
        · exact ⟨_, rfl⟩
        · exact ⟨_, rfl⟩

/-- A response that says nothing but what `m` says, and perhaps less. -/
structure Within (m m' : RlnGifterResponse) : Prop where
  requestId : m'.requestId = m.requestId
  authSuccess : m'.authSuccess = m.authSuccess
  error : m'.error = none ∨ m'.error = m.error
  success : m'.success = none ∨ m'.success = m.success
  failure : m'.failure = none ∨ m'.failure = m.failure

theorem within_addPart {m m' : RlnGifterResponse} (h : Within m m') {part : Part}
    (hpart : part ∈ m.parts) : Within m (m'.addPart part) := by
  simp only [parts, List.mem_append, Option.mem_toList, Option.map_eq_some_iff] at hpart
  rcases hpart with (⟨e, he, rfl⟩ | ⟨s, hs, rfl⟩) | ⟨f, hf, rfl⟩
  · exact ⟨h.requestId, h.authSuccess, Or.inr he.symm, h.success, h.failure⟩
  · exact ⟨h.requestId, h.authSuccess, h.error, Or.inr hs.symm, h.failure⟩
  · exact ⟨h.requestId, h.authSuccess, h.error, h.success, Or.inr hf.symm⟩

theorem within_withParts {m : RlnGifterResponse} {kept : List Part}
    (h : ∀ part ∈ kept, part ∈ m.parts) : Within m (m.withParts kept) := by
  rw [withParts]
  have hbase : Within m { requestId := m.requestId, authSuccess := m.authSuccess } :=
    ⟨rfl, rfl, Or.inl rfl, Or.inl rfl, Or.inl rfl⟩
  generalize ({ requestId := m.requestId, authSuccess := m.authSuccess } :
    RlnGifterResponse) = base at hbase
  induction kept generalizing base with
  | nil => exact hbase
  | cons part kept ih =>
      exact ih (fun part hpart => h part (List.mem_cons_of_mem _ hpart)) _
        (within_addPart hbase (h part List.mem_cons_self))

end RlnGifterResponse

/-- A truncated message is never mistaken for another one: a strict part of a request
is an error or the request without its rate, and a strict part of a response is an
error or the response without the last of its optional parts, so it says nothing that
the response does not say. -/
theorem cut_never_mistaken :
    (∀ (m : RlnGifterRequest) (p : List UInt8), m.encode.length < 2 ^ 64 → p <+: m.encode →
      p ≠ m.encode → (∃ e, RlnGifterRequest.decode p = .error e) ∨
        RlnGifterRequest.decode p = .ok { m with rateLimit := none }) ∧
    ∀ (m : RlnGifterResponse) (p : List UInt8), m.encode.length < 2 ^ 64 → p <+: m.encode →
      p ≠ m.encode → ((∃ e, RlnGifterResponse.decode p = .error e) ∨
        ∃ kept removed, m.parts = kept ++ removed ∧ removed ≠ [] ∧
          RlnGifterResponse.decode p = .ok (m.withParts kept)) ∧
        ∀ m', RlnGifterResponse.decode p = .ok m' → RlnGifterResponse.Within m m' := by
  refine ⟨fun m p hfits h hne => m.decode_cut hfits h hne, ?_⟩
  intro m p hfits h hne
  refine ⟨m.decode_cut hfits h hne, ?_⟩
  intro m' hdecode
  rcases m.decode_cut hfits h hne with ⟨e, he⟩ | ⟨kept, removed, hparts, -, hok⟩
  · rw [he] at hdecode
    cases hdecode
  · rw [hok] at hdecode
    cases hdecode
    apply RlnGifterResponse.within_withParts
    intro part hpart
    rw [hparts]
    exact List.mem_append_left _ hpart

end RlnGifter
