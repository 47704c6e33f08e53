/-
The cross-module client: per-target clients that only the owner thread can
open, synchronous calls on that thread and asynchronous ones off it, and the
two reply conventions the gifter meets.
-/
import RlnGifter.World

namespace RlnGifter

/-- `RLN_MODULE`. -/
def rlnModule : String := "liblogos_lez_rln_module"

/-- `LIBP2P_MODULE`. -/
def libp2pModule : String := "libp2p_module"

/-- Standard padded base64.  The decoder reads back what was encoded; on any
other text it may fail with an error of its own. -/
class Base64 where
  encode : List UInt8 → String
  decode : String → Except String (List UInt8)
  decode_encode : ∀ bytes, decode (encode bytes) = .ok bytes

def b64 [Base64] (bytes : List UInt8) : String :=
  Base64.encode bytes

def b64Decode [Base64] (s : String) : Except String (List UInt8) :=
  (Base64.decode s).mapError ("base64 decode: " ++ ·)

@[simp] theorem b64Decode_b64 [Base64] (bytes : List UInt8) :
    b64Decode (b64 bytes) = .ok bytes := by
  rw [b64Decode, b64, Base64.decode_encode]
  rfl

/-- The thread some code runs on: the host's own, or one the module spawned. -/
inductive Caller where
  | owner
  | worker
deriving DecidableEq

/-- Whether `CString::new` refuses a text. -/
def hasNul (s : String) : Bool :=
  s.toList.contains '\x00'

def createClient (target : String) : Prog Bool :=
  if hasNul target then return false
  else perform (.createClient target)

/-- Record the owner thread and open the clients named. -/
def init (targets : List String) : Prog Unit := do
  perform .recordOwner
  targets.forM fun target => do
    let _ ← createClient target

def onOwnerThread (who : Caller) : Prog Bool := do
  let recorded ← perform .readOwner
  return recorded && decide (who = .owner)

def ensureClient (who : Caller) (target : String) : Prog (Except String Unit) := do
  if ← perform (.findClient target) then return .ok ()
  else if !(← onOwnerThread who) then
    return .error ("cannot open lp client for " ++ target ++ " off the owner thread")
  else if ← createClient target then return .ok ()
  else
    return .error
      ("lp_client_create failed for " ++ target ++ " (is the module loaded?)")

/-- Whether there is a client for `target`, opening one where that is allowed. -/
def clientPtr (who : Caller) (target : String) : Prog Bool := do
  let found ← perform (.findClient target)
  if !found then
    if ← onOwnerThread who then
      let _ ← createClient target
  perform (.findClient target)

section Calls

variable [SerdeJson]

theorem hasNul_toText (v : Value) : hasNul (SerdeJson.toText v) = false := by
  simpa [hasNul] using SerdeJson.nul_not_mem_toText v

def errMessage (raw : String) : String :=
  match SerdeJson.fromStr raw with
  | .ok v => ((v.get "message").bind Value.asStr).getD raw
  | .error _ => raw

def parseOk (raw : String) : Value :=
  if raw = "" then .null
  else
    match SerdeJson.fromStr raw with
    | .ok v => v
    | .error _ => .string raw

/-- The result of a synchronous call, from what `lp_invoke` gave. -/
def syncResult (method : String) : SyncOutcome → Except String Value
  | .failed rc errorJson => .error (errorJson.getD (method ++ ": lp error " ++ toString rc))
  | .ok resultJson => .ok (parseOk (resultJson.getD ""))

/-- The result of an asynchronous call, from what the caller saw. -/
def asyncResult (method : String) : Seen → Except String Value
  | .dispatchFailed rc =>
      .error (method ++ ": lp_invoke_async dispatch failed rc=" ++ toString rc)
  | .timedOut => .error (method ++ ": reply channel timed out")
  | .reply ok json =>
      let raw := json.getD ""
      if ok then .ok (parseOk raw) else .error (method ++ ": " ++ errMessage raw)

def callJson (who : Caller) (target method : String) (args : Value)
    (timeoutMs : Int) : Prog (Except String Value) := do
  let argsJson := SerdeJson.toText args
  if ← clientPtr who target then
    if hasNul method || hasNul argsJson then
      return .error (method ++ ": args not CString-safe")
    else if ← onOwnerThread who then
      let outcome ← perform (.invoke target method argsJson timeoutMs)
      return syncResult method outcome
    else
      let outcome : Outcome ←
        perform (.invokeAsync target method argsJson timeoutMs)
      return asyncResult method outcome.seen
  else return .error ("no lp client for " ++ target)

/-- The reply convention of cdylib modules: a string that carries JSON, empty
for a failure; any other value as it is. -/
def unwrapModule (method : String) (v : Value) : Except String Value :=
  match v.view with
  | .string s =>
      if s = "" then .error (method ++ ": empty reply")
      else (SerdeJson.fromStr s).mapError (method ++ ": reply parse: " ++ ·)
  | _ => .ok v

/-- The envelope of a universal module: `success` and `error` are honoured and
the inner `value` returned; what is no envelope is returned as it is. -/
def openEnvelope (method : String) (env : Value) : Except String Value :=
  match env.get "success" with
  | some success =>
      if success.asBool.getD true then .ok ((env.get "value").getD .null)
      else
        let e := (((env.get "error").bind Value.asStr).filter (· ≠ "")).getD
          "libp2p call failed"
        .error (method ++ ": " ++ e)
  | none => .ok env

/-- The reply convention of universal modules, possibly encoded twice. -/
def unwrapLibp2p (method : String) (v : Value) : Except String Value := do
  let env ← match v.view with
    | .string s =>
        if s = "" then .ok v
        else (SerdeJson.fromStr s).mapError (method ++ ": reply parse: " ++ ·)
    | _ => .ok v
  openEnvelope method env

def callLibp2p (who : Caller) (method : String) (args : Value) (timeoutMs : Int) :
    Prog (Except String Value) := do
  let v ← callJson who libp2pModule method args timeoutMs
  return v.bind (unwrapLibp2p method)

def callModuleJson (who : Caller) (target method : String) (args : Value)
    (timeoutMs : Int) : Prog (Except String Value) := do
  let v ← callJson who target method args timeoutMs
  return v.bind (unwrapModule method)

end Calls

end RlnGifter
