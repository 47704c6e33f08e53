/-
The plugin contract seen from the caller: a request printed, dispatched to a
module's vectors and read back is answered as the vector itself would answer.
-/
import RlnGifter.AuthVector
import RlnGifter.Platform

namespace RlnGifter

theorem Value.eq_null_of_view {v : Value} (h : v.view = .null) : v = .null := by
  obtain ⟨j, hj⟩ := v
  cases j with
  | null => rfl
  | _ => cases h

/-- An optional value that is not a JSON null reads back. -/
theorem Value.optValue_of_ne_null {v : Option Value} (h : v ≠ some .null) :
    Value.optValue v = v := by
  cases v with
  | none => rfl
  | some v =>
      rw [Value.optValue]
      split
      · rename_i hview
        exact absurd (congrArg some (Value.eq_null_of_view hview)) h
      · rfl

theorem ProduceRequest.nodup_entries (req : ProduceRequest) :
    (req.entries.map Prod.fst).Nodup := by
  cases hargs : req.args <;> simp [entries, optEntry, hargs]

theorem ProduceRequest.read_entries {req : ProduceRequest} (h : req.args ≠ some .null) :
    ProduceRequest.read (.object req.entries) = some req := by
  obtain ⟨authType, idCommitmentHex, args⟩ := req
  have hargs : Value.optValue args = args := Value.optValue_of_ne_null h
  rw [ProduceRequest.read, Value.structFields_object]
  cases args <;>
    simpa [ProduceRequest.entries, optEntry, Value.object, Value.get_insert] using hargs

theorem VerifyRequest.read_entries {req : VerifyRequest} (h : req.config ≠ some .null) :
    VerifyRequest.read (.object req.entries) = some req := by
  obtain ⟨authType, payloadHex, idCommitmentHex, rate, config⟩ := req
  have hconfig : Value.optValue config = config := Value.optValue_of_ne_null h
  rw [VerifyRequest.read, Value.structFields_object]
  cases config <;>
    simpa [VerifyRequest.entries, optEntry, Value.object, Value.get_insert] using hconfig

theorem ProduceReply.read_entries (r : ProduceReply) :
    ProduceReply.read (.object r.entries) = some r := by
  rw [ProduceReply.read, Value.structFields_object]
  simp [ProduceReply.entries, Value.object, Value.get_insert]

theorem ProduceReply.plain_entries (r : ProduceReply) :
    (Value.object r.entries).tree.plain 127 = true := by
  apply Value.plain_object
  simp only [entries, List.forall_mem_cons, List.not_mem_nil, false_implies, implies_true,
    and_true]
  rfl

theorem Verdict.nodup_entries (v : Verdict) : (v.entries.map Prod.fst).Nodup := by
  cases hreason : v.reason <;> cases hnullifier : v.nullifier <;>
    simp [entries, optEntry, hreason, hnullifier]

theorem Verdict.plain_entries (v : Verdict) :
    (Value.object v.entries).tree.plain 127 = true := by
  obtain ⟨ok, reason, nullifier⟩ := v
  apply Value.plain_object
  intro entry hentry
  simp only [entries, List.mem_append, List.mem_singleton] at hentry
  rcases hentry with (rfl | hreason) | hnullifier
  · rfl
  · cases reason with
    | none => cases hreason
    | some text => cases List.mem_singleton.mp hreason; rfl
  · cases nullifier with
    | none => cases hnullifier
    | some text => cases List.mem_singleton.mp hnullifier; rfl

section Dispatch

variable [SerdeJson]

/-- What a dispatched call says, as a value. -/
def replyValue : Except String (List (String × Value)) → Value
  | .ok entries => .object entries
  | .error e => .object [("error", .string e)]

/-- The reply of a dispatched call reads as what it says. -/
theorem fromStr_reply {result : Except String (List (String × Value))}
    (h : ∀ entries, result = .ok entries →
      (entries.map Prod.fst).Nodup ∧ (Value.object entries).tree.plain 127 = true) :
    SerdeJson.fromStr (reply result) = .ok (replyValue result) := by
  cases result with
  | ok entries =>
      obtain ⟨hnodup, hplain⟩ := h entries rfl
      obtain ⟨text, htext, hreads, -⟩ := SerdeJson.structText_reads entries hnodup
      rw [reply, htext]
      exact hreads.1 hplain
  | error e =>
      apply (SerdeJson.toText_reads _).1
      apply Value.plain_object
      simp only [List.forall_mem_cons, List.not_mem_nil, false_implies, implies_true,
        and_true]
      rfl

omit [SerdeJson] in
theorem envelopeError_replyValue (e : String) :
    envelopeError (replyValue (.error e)) = some e := by
  simp [envelopeError, replyValue, Value.object, Value.get_insert]

/-- The verdict that is parsed is the one that was said, and so is the error. -/
theorem parseVerdict_replyValue (result : Except String Verdict) :
    parseVerdict (replyValue (result.map Verdict.entries)) = result := by
  cases result with
  | ok verdict => exact parseVerdict_entries verdict
  | error e =>
      rw [Except.map, parseVerdict, envelopeError_replyValue]

theorem parseProduceReply_replyValue (result : Except String ProduceReply) :
    parseProduceReply (replyValue (result.map ProduceReply.entries)) = result := by
  cases result with
  | ok r =>
      have herror : envelopeError (.object r.entries) = none := by
        simp [envelopeError, ProduceReply.entries, Value.object, Value.get_insert]
      rw [Except.map, replyValue, parseProduceReply, herror, fromValue,
        ProduceReply.read_entries]
      rfl
  | error e =>
      rw [Except.map, parseProduceReply, envelopeError_replyValue]

/-- The printed struct reads back exactly. -/
def Faithful (names : List String) (entries : List (String × Value)) : Prop :=
  ∀ text, SerdeJson.structText entries = .ok text →
    SerdeJson.structFromStr names text = .ok (.object entries)

/-- What the first vector that owns the request's type makes of it. -/
def answerOf {α : Type} (vectors : List AuthVector) (authType : String)
    (ask : AuthVector → Except String α) : Except String α :=
  match vectors.find? fun v => v.authType = authType with
  | some v => ask v
  | none => .error ("unknown auth_type '" ++ authType ++ "' on this module")

omit [SerdeJson] in
/-- Routing a request and printing what its vector says. -/
theorem route_answerOf {α : Type} (vectors : List AuthVector) (authType : String)
    (ask : AuthVector → Except String α) (entries : α → List (String × Value)) :
    (do
      let vector ← route vectors authType
      return entries (← ask vector)) = (answerOf vectors authType ask).map entries := by
  rw [route, answerOf]
  cases vectors.find? fun v => v.authType = authType with
  | none => rfl
  | some vector =>
      change (ask vector >>= fun result => pure (entries result)) = (ask vector).map entries
      cases ask vector <;> rfl

/-- A printed request is dispatched to the vector that owns its type. -/
theorem dispatchVerify_of_faithful {vectors : List AuthVector} {q : VerifyRequest}
    (hconfig : q.config ≠ some .null) (hfaithful : Faithful VerifyRequest.names q.entries)
    {text : String} (htext : SerdeJson.structText q.entries = .ok text) :
    dispatchVerify text vectors =
      reply ((answerOf vectors q.authType (AuthVector.verify · q)).map Verdict.entries) := by
  have hread : fromText "VerifyRequest" VerifyRequest.names VerifyRequest.read text =
      .ok q := by
    simp only [fromText, hfaithful text htext, fromValue,
      VerifyRequest.read_entries hconfig]
  rw [dispatchVerify, hread]
  exact congrArg reply (route_answerOf vectors q.authType _ _)

theorem dispatchProduce_of_faithful {vectors : List AuthVector} {p : ProduceRequest}
    (hargs : p.args ≠ some .null) (hfaithful : Faithful ProduceRequest.names p.entries)
    {text : String} (htext : SerdeJson.structText p.entries = .ok text) :
    dispatchProduce text vectors =
      reply ((answerOf vectors p.authType (AuthVector.produce · p)).map
        ProduceReply.entries) := by
  have hread : fromText "ProduceRequest" ProduceRequest.names ProduceRequest.read text =
      .ok p := by
    simp only [fromText, hfaithful text htext, fromValue,
      ProduceRequest.read_entries hargs]
  rw [dispatchProduce, hread]
  exact congrArg reply (route_answerOf vectors p.authType _ _)

theorem fromStr_reply_verdict (result : Except String Verdict) :
    SerdeJson.fromStr (reply (result.map Verdict.entries)) =
      .ok (replyValue (result.map Verdict.entries)) := by
  apply fromStr_reply
  intro entries hentries
  cases result with
  | error e => cases hentries
  | ok verdict =>
      cases hentries
      exact ⟨verdict.nodup_entries, verdict.plain_entries⟩

theorem fromStr_reply_produceReply (result : Except String ProduceReply) :
    SerdeJson.fromStr (reply (result.map ProduceReply.entries)) =
      .ok (replyValue (result.map ProduceReply.entries)) := by
  apply fromStr_reply
  intro entries hentries
  cases result with
  | error e => cases hentries
  | ok r =>
      cases hentries
      exact ⟨by simp [ProduceReply.entries], r.plain_entries⟩

/-- The contract is transparent: whatever the vectors are, the caller parses what
the first vector of the request's type says, and an error where there is none. -/
theorem contract_transparent (vectors : List AuthVector) {q : VerifyRequest}
    {p : ProduceRequest} (hconfig : q.config ≠ some .null) (hargs : p.args ≠ some .null)
    (hq : Faithful VerifyRequest.names q.entries)
    (hp : Faithful ProduceRequest.names p.entries) :
    (∃ text replied, SerdeJson.structText q.entries = .ok text ∧
      SerdeJson.fromStr (dispatchVerify text vectors) = .ok replied ∧
      parseVerdict replied = answerOf vectors q.authType (AuthVector.verify · q)) ∧
    ∃ text replied, SerdeJson.structText p.entries = .ok text ∧
      SerdeJson.fromStr (dispatchProduce text vectors) = .ok replied ∧
      parseProduceReply replied = answerOf vectors p.authType (AuthVector.produce · p) := by
  constructor
  · obtain ⟨text, htext, -⟩ := SerdeJson.structText_reads q.entries q.nodup_entries
    refine ⟨text, _, htext, ?_, parseVerdict_replyValue _⟩
    rw [dispatchVerify_of_faithful hconfig hq htext]
    exact fromStr_reply_verdict _
  · obtain ⟨text, htext, -⟩ := SerdeJson.structText_reads p.entries p.nodup_entries
    refine ⟨text, _, htext, ?_, parseProduceReply_replyValue _⟩
    rw [dispatchProduce_of_faithful hargs hp htext]
    exact fromStr_reply_produceReply _

/-- What was printed reads back exactly when there is nothing to lose: no doubles
and no deep nesting. -/
theorem faithful_of_plain {names : List String} {entries : List (String × Value)}
    (hnodup : (entries.map Prod.fst).Nodup)
    (hplain : (Value.object entries).tree.plain 127 = true) : Faithful names entries := by
  intro text htext
  obtain ⟨text', htext', -, hreads⟩ := SerdeJson.structText_reads entries hnodup
  rw [htext] at htext'
  obtain rfl := Except.ok.inj htext'
  exact (hreads names).1 hplain

end Dispatch

section Witness

/-- A vector that refuses every request of its type, and makes no payloads. -/
def refusing : AuthVector where
  authType := "voucher"
  verify _ := .ok (.reject "spent")

open Platform in
theorem contract_transparent_refusing :
    let q : VerifyRequest := ⟨"voucher", "00", "11", 20, some (.bool true)⟩
    let p : ProduceRequest := ⟨"voucher", "11", none⟩
    (∃ text replied, SerdeJson.structText q.entries = .ok text ∧
      SerdeJson.fromStr (dispatchVerify text [refusing]) = .ok replied ∧
      parseVerdict replied = .ok ⟨false, some "spent", none⟩) ∧
    ∃ text replied, SerdeJson.structText p.entries = .ok text ∧
      SerdeJson.fromStr (dispatchProduce text [refusing]) = .ok replied ∧
      parseProduceReply replied =
        .error "auth vector 'voucher' has no producer on this module" :=
  contract_transparent [refusing] (fun h => nomatch congrArg (Option.map Value.tree) h)
    (by simp)
    (faithful_of_plain (VerifyRequest.nodup_entries _) rfl)
    (faithful_of_plain (ProduceRequest.nodup_entries _) rfl)

end Witness

end RlnGifter
