/-
The serve worker: it accepts one stream after another from the bridge, reads a
request from it, handles it, writes the response and releases the stream.
-/
import RlnGifter.Server

namespace RlnGifter

/-- `ACCEPT_TIMEOUT_MS`, also part of the arguments of the bridge. -/
def acceptTimeoutMs : UInt64 := 3600000

/-- `READ_TIMEOUT_MS`, also part of the arguments of the bridge. -/
def readTimeoutMs : UInt64 := 60000

def writeTimeoutMs : UInt64 := 30000
def releaseTimeoutMs : Int := 10000
def maxRpcSize : UInt64 := 4096

section Worker

variable [SerdeJson] [CaseTables] [Base64]

/-- The one argument of the bridge's methods, a value as text. -/
def blob (v : Value) : Value :=
  .array [.string (SerdeJson.toText v)]

/-- The bytes of the request that was read from a stream. -/
def requestBytes (read : Value) : Except String (List UInt8) :=
  match (read.get "dataB64").bind Value.asStr with
  | none => .error "streamReadLpJson: no dataB64"
  | some dataB64 => b64Decode dataB64

def readStream (streamId : UInt64) : Prog (Except String Value) :=
  callLibp2p .worker "streamReadLpJson"
    (blob (.object [("streamId", .u64 streamId), ("maxSize", .u64 maxRpcSize),
      ("timeoutMs", .u64 readTimeoutMs)]))
    (readTimeoutMs.toNat + 10000)

def writeStream (streamId : UInt64) (resp : RlnGifterResponse) :
    Prog (Except String Value) :=
  callLibp2p .worker "streamWriteLpJson"
    (blob (.object [("streamId", .u64 streamId), ("dataB64", .string (b64 resp.encode))]))
    (writeTimeoutMs.toNat + 10000)

def releaseStream (streamId : UInt64) : Prog (Except String Value) :=
  callLibp2p .worker "streamReleaseJson" (blob (.object [("streamId", .u64 streamId)]))
    releaseTimeoutMs

/-- A stream is given up with the error when it cannot be read, before the
request is handled. -/
def handleStream (streamId : UInt64) : Prog (Except String Unit) := do
  match ← readStream streamId with
  | .error e => return .error e
  | .ok read =>
      match requestBytes read with
      | .error e => return .error e
      | .ok reqBytes =>
          let resp ← handleRequest reqBytes
          let _ ← writeStream streamId resp
          let _ ← releaseStream streamId
          return .ok ()

def acceptStream : Prog (Except String Value) :=
  callLibp2p .worker "protocolAcceptStream"
    (blob (.object [("proto", .string rlnGifterCodec),
      ("timeoutMs", .u64 acceptTimeoutMs)]))
    acceptTimeoutMs.toNat

/-- The stream an accept returned, if it did. -/
def acceptedStream : Except String Value → Option UInt64
  | .ok v => (v.get "streamId").bind Value.asU64
  | .error _ => none

/-- One turn of `worker_loop`. -/
def workerTurn : Prog Unit := do
  match acceptedStream (← acceptStream) with
  | none => return ()
  | some streamId =>
      let _ ← handleStream streamId

/-- `worker_loop` up to the head of its turn `turns`, counted from zero.  The loop
has no end: what it ever does, it does in so many turns. -/
def workerLoop : Nat → Prog Unit
  | 0 => return ()
  | turns + 1 => do
      workerTurn
      workerLoop turns

end Worker

end RlnGifter
