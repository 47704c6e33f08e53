/-
What a request may lose when it is printed and read: the last bits of the doubles
in its configuration.  Everything else of it is read as it was printed, and so a
verdict that comes back is the vector's own, on a request with other doubles at
most.
-/
import RlnGifter.Contract

namespace RlnGifter

namespace Value

/-- A value without its doubles. -/
def erased (v : Value) : Json :=
  v.tree.eraseFloats

/-- The text of a string. -/
def stringOf : Json → Option String
  | .string s => some s
  | _ => none

/-- The number of a nonnegative integer. -/
def naturalOf : Json → Option UInt64
  | .number (.posInt n) => some n
  | _ => none

/-- The entries of an array. -/
def itemsOf : Json → Option (List Json)
  | .array items => some items
  | _ => none

/-- What is not null. -/
def presentOf : Json → Option Json
  | .null => none
  | j => some j

theorem asStr_eq (v : Value) : v.asStr = stringOf v.erased := by
  obtain ⟨j, hj⟩ := v
  cases j with
  | number n => cases n <;> rfl
  | _ => rfl

theorem asU64_eq (v : Value) : v.asU64 = naturalOf v.erased := by
  obtain ⟨j, hj⟩ := v
  cases j with
  | number n => cases n <;> rfl
  | _ => rfl

theorem map_erased_asArray (v : Value) :
    v.asArray.map (List.map erased) = itemsOf v.erased := by
  obtain ⟨j, hj⟩ := v
  cases j with
  | number n => cases n <;> rfl
  | array items =>
      simp only [asArray, view, Option.map_some, erased, Json.eraseFloats, itemsOf,
        Json.eraseFloatsItems_eq_map, List.map_pmap, List.pmap_eq_map]
  | _ => rfl

theorem lookupField_eraseFloats (key : String) (fields : List (String × Json)) :
    lookupField key (Json.eraseFloatsFields fields) =
      (lookupField key fields).map Json.eraseFloats := by
  induction fields with
  | nil => rfl
  | cons head fields ih =>
      obtain ⟨key', item⟩ := head
      simp only [Json.eraseFloatsFields, lookupField]
      split
      · rfl
      · exact ih

theorem map_erased_get (v : Value) (key : String) :
    (v.get key).map erased = lookupField key (fieldsOf v.erased) := by
  have hget : (v.get key).map erased = ((v.get key).map tree).map Json.eraseFloats := by
    rw [Option.map_map]
    rfl
  rw [hget, get_map_val]
  obtain ⟨j, hj⟩ := v
  cases j with
  | number n => cases n <;> rfl
  | object fields => exact (lookupField_eraseFloats key fields).symm
  | _ => rfl

variable {v w : Value}

/-- A field that is there on one side is there on the other. -/
theorem exists_get_of_erased (h : w.erased = v.erased) {key : String} {field : Value}
    (hfield : w.get key = some field) :
    ∃ field', v.get key = some field' ∧ field.erased = field'.erased := by
  have hmap := map_erased_get w key
  rw [h, ← map_erased_get, hfield, Option.map_some] at hmap
  obtain ⟨field', hfield', heq⟩ := Option.map_eq_some_iff.mp hmap.symm
  exact ⟨field', hfield', heq.symm⟩

theorem asStr_of_erased (h : w.erased = v.erased) : w.asStr = v.asStr := by
  rw [asStr_eq, asStr_eq, h]

theorem asU64_of_erased (h : w.erased = v.erased) : w.asU64 = v.asU64 := by
  rw [asU64_eq, asU64_eq, h]

theorem map_erased_optValue (field : Option Value) :
    (optValue field).map erased = (field.map erased).bind presentOf := by
  cases field with
  | none => rfl
  | some v =>
      obtain ⟨j, hj⟩ := v
      cases j with
      | number n => cases n <;> rfl
      | _ => rfl

/-- What reads as an object is read by its fields. -/
theorem structFields_of_erased {entries : List (String × Value)} {names : List String}
    (h : w.erased = (object entries).erased) : w.structFields names = some w.get := by
  rw [erased, erased, tree_object] at h
  obtain ⟨j, hj⟩ := w
  cases j with
  | number n => cases n <;> cases h
  | object fields => rfl
  | _ => cases h

end Value

/-- The requests differ in the doubles of their configurations at most, where a
null is no configuration. -/
structure VerifyRequest.SameAs (q' q : VerifyRequest) : Prop where
  authType : q'.authType = q.authType
  payloadHex : q'.payloadHex = q.payloadHex
  idCommitmentHex : q'.idCommitmentHex = q.idCommitmentHex
  rate : q'.rate = q.rate
  config : q'.config.map Value.erased = (Value.optValue q.config).map Value.erased

theorem VerifyRequest.get_entries (q : VerifyRequest) :
    (Value.object q.entries).get "auth_type" = some (.string q.authType) ∧
      (Value.object q.entries).get "payload_hex" = some (.string q.payloadHex) ∧
      (Value.object q.entries).get "id_commitment_hex" = some (.string q.idCommitmentHex) ∧
      (Value.object q.entries).get "rate" = some (.u64 q.rate) ∧
      (Value.object q.entries).get "config" = q.config := by
  cases hconfig : q.config <;>
    simp [entries, optEntry, Value.object, Value.get_insert, hconfig]

/-- A request is read as it was printed, but for its doubles. -/
theorem VerifyRequest.read_of_erased {q q' : VerifyRequest} {w : Value}
    (h : w.erased = (Value.object q.entries).erased)
    (hread : VerifyRequest.read w = some q') : q'.SameAs q := by
  obtain ⟨hauthType, hpayload, hcommitment, hrate, hconfig⟩ := q.get_entries
  obtain ⟨authType, hauthType, hauthTypeEq⟩ := Value.exists_get_of_erased h.symm hauthType
  obtain ⟨payload, hpayload, hpayloadEq⟩ := Value.exists_get_of_erased h.symm hpayload
  obtain ⟨commitment, hcommitment, hcommitmentEq⟩ :=
    Value.exists_get_of_erased h.symm hcommitment
  obtain ⟨rate, hrate, hrateEq⟩ := Value.exists_get_of_erased h.symm hrate
  rw [VerifyRequest.read, Value.structFields_of_erased h] at hread
  simp only [Option.bind_eq_bind, Option.bind_some, hauthType, hpayload, hcommitment, hrate,
    ← Value.asStr_of_erased hauthTypeEq, ← Value.asStr_of_erased hpayloadEq,
    ← Value.asStr_of_erased hcommitmentEq, ← Value.asU64_of_erased hrateEq,
    Value.asStr_string, Value.asU64_u64] at hread
  cases hread
  refine ⟨rfl, rfl, rfl, rfl, ?_⟩
  rw [Value.map_erased_optValue, Value.map_erased_optValue, Value.map_erased_get, h,
    ← Value.map_erased_get, hconfig]

theorem ProduceRequest.get_entries (q : ProduceRequest) :
    (Value.object q.entries).get "auth_type" = some (.string q.authType) ∧
      (Value.object q.entries).get "id_commitment_hex" = some (.string q.idCommitmentHex) := by
  cases hargs : q.args <;>
    simp [entries, optEntry, Value.object, Value.get_insert, hargs]

/-- The type and the commitment of a producer's request have no doubles. -/
theorem ProduceRequest.read_of_erased {q q' : ProduceRequest} {w : Value}
    (h : w.erased = (Value.object q.entries).erased)
    (hread : ProduceRequest.read w = some q') :
    q'.authType = q.authType ∧ q'.idCommitmentHex = q.idCommitmentHex := by
  obtain ⟨hauthType, hcommitment⟩ := q.get_entries
  obtain ⟨authType, hauthType, hauthTypeEq⟩ := Value.exists_get_of_erased h.symm hauthType
  obtain ⟨commitment, hcommitment, hcommitmentEq⟩ :=
    Value.exists_get_of_erased h.symm hcommitment
  rw [ProduceRequest.read, Value.structFields_of_erased h] at hread
  simp only [Option.bind_eq_bind, Option.bind_some, hauthType, hcommitment,
    ← Value.asStr_of_erased hauthTypeEq, ← Value.asStr_of_erased hcommitmentEq,
    Value.asStr_string] at hread
  cases hread
  exact ⟨rfl, rfl⟩

section Dispatch

variable [SerdeJson]

omit [SerdeJson] in
/-- A module with one vector asks it about its own type only. -/
theorem answerOf_singleton {α : Type} (vector : AuthVector) (authType : String)
    (ask : AuthVector → Except String α) :
    answerOf [vector] authType ask =
      if vector.authType = authType then ask vector
      else .error ("unknown auth_type '" ++ authType ++ "' on this module") := by
  rw [answerOf, List.find?_singleton]
  by_cases hown : vector.authType = authType
  · rw [if_pos hown, if_pos (decide_eq_true hown)]
  · rw [if_neg hown, if_neg (by simpa using hown)]

/-- The result of a module with one vector, and what is behind it when it is a
verdict. -/
theorem dispatchVerify_result (vector : AuthVector) (text : String) :
    ∃ result : Except String Verdict,
      dispatchVerify text [vector] = reply (result.map Verdict.entries) ∧
      ∀ verdict, result = .ok verdict → ∃ q,
        fromText "VerifyRequest" VerifyRequest.names VerifyRequest.read text = .ok q ∧
        vector.verify q = .ok verdict := by
  rw [dispatchVerify]
  cases fromText "VerifyRequest" VerifyRequest.names VerifyRequest.read text with
  | error e =>
      refine ⟨.error ("verify_auth args: " ++ e), rfl, ?_⟩
      intro verdict hverdict
      cases hverdict
  | ok q =>
      refine ⟨answerOf [vector] q.authType (AuthVector.verify · q),
        congrArg reply (route_answerOf [vector] q.authType _ _), ?_⟩
      intro verdict hverdict
      rw [answerOf_singleton] at hverdict
      split at hverdict
      · exact ⟨q, rfl, hverdict⟩
      · cases hverdict

/-- What a module with one vector answers a printed request with is what the vector
says of the request, up to its doubles. -/
theorem dispatchVerify_verdict {vector : AuthVector} {q : VerifyRequest} {text : String}
    {replied : Value} {verdict : Verdict} (htext : SerdeJson.structText q.entries = .ok text)
    (hreplied : SerdeJson.fromStr (dispatchVerify text [vector]) = .ok replied)
    (hverdict : parseVerdict replied = .ok verdict) :
    ∃ q', VerifyRequest.SameAs q' q ∧ vector.verify q' = .ok verdict := by
  obtain ⟨result, hdispatch, hresult⟩ := dispatchVerify_result vector text
  rw [hdispatch, fromStr_reply_verdict] at hreplied
  cases hreplied
  rw [parseVerdict_replyValue] at hverdict
  obtain ⟨q', hread, hverify⟩ := hresult verdict hverdict
  refine ⟨q', ?_, hverify⟩
  obtain ⟨text', htext', -, hreads⟩ := SerdeJson.structText_reads q.entries q.nodup_entries
  rw [htext] at htext'
  cases htext'
  rw [fromText] at hread
  split at hread
  · cases hread
  · rename_i w hw
    rw [fromValue] at hread
    split at hread
    · rename_i q'' hq''
      cases hread
      exact VerifyRequest.read_of_erased ((hreads VerifyRequest.names).2 w hw) hq''
    · cases hread

/-- What does not say whether it is `ok` is no verdict. -/
theorem parseVerdict_ne_ok {entries : List (String × Value)} {verdict : Verdict}
    (h : (Value.object entries).get "ok" = none) :
    parseVerdict (.object entries) ≠ .ok verdict := by
  intro hparse
  rw [parseVerdict] at hparse
  split at hparse
  · cases hparse
  · have hread := mapError_eq_ok hparse
    simp only [fromValue, Verdict.read, Value.structFields_object, Option.bind_eq_bind,
      Option.bind_some, h, Option.bind_none] at hread
    cases hread

/-- A text is that of requests of one type. -/
theorem authType_of_text {q q' : VerifyRequest} {text : String}
    (hplain : (Value.object q.entries).tree.plain 127 = true)
    (htext : SerdeJson.structText q.entries = .ok text)
    (htext' : SerdeJson.structText q'.entries = .ok text) : q'.authType = q.authType := by
  have hread : SerdeJson.structFromStr [] text = .ok (.object q.entries) :=
    faithful_of_plain q.nodup_entries hplain text htext
  obtain ⟨found, hfound, -, hreads⟩ := SerdeJson.structText_reads q'.entries q'.nodup_entries
  rw [htext'] at hfound
  cases hfound
  obtain ⟨field, hfield, heq⟩ := Value.exists_get_of_erased
    ((hreads []).2 _ hread) q.get_entries.1
  rw [q'.get_entries.1] at hfield
  cases hfield
  exact Option.some.inj (Value.asStr_of_erased heq).symm

end Dispatch

end RlnGifter
