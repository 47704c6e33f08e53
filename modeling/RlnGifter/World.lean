/-
What the gifter module's code acts on: the statics of its process, the files,
and the calls it makes to other modules.  Every lock boundary and every call is
one operation, so that the owner thread and the workers may interleave there.
-/
import RlnGifter.AuthVector
import RlnGifter.Pool
import RlnGifter.Store
import RlnGifter.Wire

namespace RlnGifter

/-- The configuration `serve` installs.  `authVerifiers` maps an authentication
type to its verifier module and the operator's config for it. -/
structure ServerCfg where
  config : String
  wallet : String
  authVerifiers : List (String × String × Option Value)
  nullifiersPath : String
  maxRateLimit : UInt64

/-- What the caller of an asynchronous call sees: the dispatch failed, no reply
came in time, or the callback fired with its flag and its text, if any. -/
inductive Seen where
  | dispatchFailed (rc : Int)
  | timedOut
  | reply (ok : Bool) (json : Option String)
deriving DecidableEq

/-- The outcome of an asynchronous call: what the caller sees and, hidden from
it, whether the callee submitted a transaction. -/
structure Outcome where
  seen : Seen
  submitted : Bool
deriving DecidableEq

/-- The outcome of a synchronous call. -/
inductive SyncOutcome where
  | failed (rc : Int) (errorJson : Option String)
  | ok (resultJson : Option String)
deriving DecidableEq

/-- The operations of the module's code. -/
inductive Op where
  /-- `lock(&SERVER).clone()` -/
  | lockServer
  /-- `*lock(&SERVER) = Some(cfg)` -/
  | storeServer (cfg : ServerCfg)
  /-- check and insert under the lock of `CONSUMED_NULLIFIERS` -/
  | reserve (nul : String)
  /-- remove under the lock of `CONSUMED_NULLIFIERS` -/
  | release (nul : String)
  /-- load a file and extend the set, under the lock of `CONSUMED_NULLIFIERS` -/
  | merge (path : String)
  /-- append a line to a file -/
  | append (path nul : String)
  /-- look a target up in `CLIENTS` -/
  | findClient (target : String)
  /-- `lp_client_create`, entering the client in `CLIENTS` if there is one -/
  | createClient (target : String)
  /-- whether `OWNER` is set -/
  | readOwner
  /-- set `OWNER` to the current thread -/
  | recordOwner
  /-- `lp_invoke` -/
  | invoke (target method args : String) (timeoutMs : Int)
  /-- `lp_invoke_async` and the wait for its reply -/
  | invokeAsync (target method args : String) (timeoutMs : Int)
  /-- `Instant::now() >= deadline` -/
  | pastDeadline
  /-- `SERVING.swap(true)` -/
  | swapServing
  /-- `SERVING.store(false)` -/
  | clearServing
  /-- `thread::spawn(worker_loop)` -/
  | spawnWorker

/-- What each operation answers. -/
@[reducible]
def Answer : Op → Type
  | .lockServer => Option ServerCfg
  | .reserve _ => Bool
  | .merge _ => Finset String
  | .append _ _ => Bool
  | .findClient _ => Bool
  | .createClient _ => Bool
  | .readOwner => Bool
  | .invoke _ _ _ _ => SyncOutcome
  | .invokeAsync _ _ _ _ => Outcome
  | .pastDeadline => Bool
  | .swapServing => Bool
  | _ => Unit

/-- The choices the environment makes at an operation. -/
structure Env where
  outcome : Outcome := ⟨.timedOut, false⟩
  syncOutcome : SyncOutcome := .ok none
  created : Bool := true
  readable : Bool := true
  opened : Bool := true
  written : Option Nat := none
  elapsed : Bool := false

/-- The statics of the process, and the files. -/
structure Shared where
  server : Option ServerCfg := none
  consumed : Option (Finset String) := none
  serving : Bool := false
  clients : Finset String := ∅
  owner : Bool := false
  workers : Nat := 0
  files : String → Option String := fun _ => none

/-- The part of a text that reached the file when a write stopped early. -/
def writtenPart (text : String) : Option Nat → String
  | none => text
  | some n => String.ofList (text.toList.take n)

/-- The answer of the world to an operation, and what it makes of it. -/
def execOp [CaseTables] (env : Env) (s : Shared) : (op : Op) → Answer op × Shared
  | .lockServer => (s.server, s)
  | .storeServer cfg => ((), { s with server := some cfg })
  | .reserve nul =>
      let r := reserveNullifier s.consumed nul
      (r.1, { s with consumed := r.2 })
  | .release nul => ((), { s with consumed := releaseNullifier s.consumed nul })
  | .merge path =>
      let contents := if env.readable then s.files path else none
      let loaded := loadNullifiers path contents
      (loaded, { s with consumed := mergeNullifiers s.consumed loaded })
  | .append path nul =>
      if env.opened then
        let text := writtenPart (nullifierLine nul) env.written
        let contents := (s.files path).getD "" ++ text
        (decide (text = nullifierLine nul),
          { s with files := Function.update s.files path (some contents) })
      else (false, s)
  | .findClient target => (decide (target ∈ s.clients), s)
  | .createClient target =>
      if env.created then (true, { s with clients := insert target s.clients })
      else (false, s)
  | .readOwner => (s.owner, s)
  | .recordOwner => ((), { s with owner := true })
  | .invoke _ _ _ _ => (env.syncOutcome, s)
  | .invokeAsync _ _ _ _ => (env.outcome, s)
  | .pastDeadline => (env.elapsed, s)
  | .swapServing => (s.serving, { s with serving := true })
  | .clearServing => ((), { s with serving := false })
  | .spawnWorker => ((), { s with workers := s.workers + 1 })

/-- A new process finds the files and nothing else. -/
def reboot (s : Shared) : Shared :=
  { files := s.files }

/-- The programs of the module. -/
abbrev Prog : Type → Type := Program Op Answer

/-- The program that performs one operation of the module. -/
abbrev perform (op : Op) : Prog (Answer op) := Program.perform op

/-- The traces of the module. -/
abbrev Trace : Type := List (Event Answer)

end RlnGifter
