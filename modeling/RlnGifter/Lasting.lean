/-
What clients are told lasts longer than the gifter's process.  Where every `serve` names
one file of nullifiers and storable types, and the file can be read and written, no crash
makes a gifter grant a credential twice: a client is told of its membership only after the
key it was bought with stands in the file.
-/
import RlnGifter.Refinement
import RlnGifter.Restart

namespace RlnGifter

open Program

section Told

variable [CaseTables]

/-- Files are read where an operation reads them, and what it appends arrives whole. -/
def FilesWork (env : Env) (s : Shared) (e : Op) : Prop :=
  (∀ path, e = .merge path → env.readable = true) ∧
    ∀ path key, e = .append path key → (execOp env s (.append path key)).1 = true

/-- An environment in which files can be read and written. -/
def Smoothly (env : Env) : Prop :=
  env.readable = true ∧ env.opened = true ∧ env.written = none

theorem FilesWork.exec {env : Env} {s : Shared} {e : Op} (h : FilesWork env s e) :
    ∃ env', Smoothly env' ∧ execOp env' s e = execOp env s e := by
  refine ⟨{ env with readable := true, opened := true, written := none }, ⟨rfl, rfl, rfl⟩, ?_⟩
  cases e with
  | merge path =>
      have hreadable := h.1 path rfl
      simp only [execOp, hreadable]
  | append path key =>
      have happended := h.2 path key rfl
      simp only [execOp] at happended ⊢
      cases hopened : env.opened with
      | false =>
          simp only [hopened] at happended
          cases happended
      | true =>
          simp only [hopened, ↓reduceIte, decide_eq_true_eq] at happended ⊢
          rw [happended]
          rfl
  | _ => rfl

variable [SerdeJson]

variable [Base64]

omit [Base64] in
/-- A key that one worker appended, no worker of a later process reserves. -/
theorem Refines.fresh {path : String} {P : GifterPool} {net : Network} (hP : Durable path P)
    (h : Refines P net) {k k' : Nat} {trace trace' : Trace} (hk : net.workers[k]? = some trace)
    (hk' : net.workers[k']? = some trace') (hlt : k < k') {key : String} {written : Bool}
    (happended : ⟨.append path key, written⟩ ∈ trace) : ⟨.reserve key, false⟩ ∉ trace' := by
  intro hreserved
  obtain ⟨ids, hwoven⟩ := h.workers hk
  obtain ⟨ids', hwoven'⟩ := h.workers hk'
  rcases hwoven.event happended with hown | ⟨i, thi, hthi, hparti, hmemi⟩
  · exact hown
  rcases hwoven'.event hreserved with hown | ⟨j, thj, hthj, hpartj, hmemj⟩
  · exact hown
  refine hP.fresh i j thi thj key written hthi hthj ?_ hmemi hmemj
  rw [hparti.2, hpartj.2]
  exact hlt

omit [Base64] in
/-- The configurations under which the workers took up requests name the file. -/
theorem Refines.locked {path : String} {P : GifterPool} {net : Network} (hP : Durable path P)
    (h : Refines P net) {k : Nat} {trace : Trace} (hk : net.workers[k]? = some trace)
    {cfg : ServerCfg} (hmem : ⟨.lockServer, some cfg⟩ ∈ trace) : cfg.nullifiersPath = path := by
  obtain ⟨ids, hwoven⟩ := h.workers hk
  rcases hwoven.event hmem with hown | ⟨i, th, hth, -, hmem⟩
  · cases hown
  · exact (hP.locked i th cfg hth hmem).path

end Told

section Vouchers

variable [SerdeJson] [CaseTables] [Base64]

omit [SerdeJson] [Base64] in
theorem filesWork_quiet (s : Shared) (e : Op) : FilesWork quiet s e :=
  ⟨fun _ _ => rfl, fun path key _ => by simp [execOp, writtenPart]⟩

/-- The host goes on while the rest of the network waits. -/
theorem NetRunIn.hosts {texts : String → Prop} {net : Network} {p q : Prog HostResult}
    {s : Shared} {envs : List Env} {trace : Trace} (hcall : net.node.call = some p)
    (h : Does execOp p net.node.shared envs trace q s) (hquiet : ∀ env ∈ envs, env = quiet) :
    NetRunIn texts FilesWork net { net with
      node := { net.node with shared := s, call := some q } } := by
  obtain ⟨⟨shared, call, served, worker⟩, past, clients, streams, told⟩ := net
  change call = _ at hcall
  subst hcall
  change Does execOp p shared envs trace q s at h
  induction h with
  | done p s => exact .refl
  | @act e next s s' env envs trace q _ ih =>
      obtain ⟨rfl, hrest⟩ := List.forall_mem_cons.mp hquiet
      have hidle : ∀ (N : Node) (event : Event Answer), N.worker = worker →
          N.workerTrace ≠ Node.workerTrace ⟨s, some (.op e next), served, worker⟩ ++ [event] := by
        rintro N event rfl heq
        simp [Node.workerTrace] at heq
      refine .head (.acts (.acts (.calling rfl quiet) fun event hevent => ?_)
        (.calling rfl quiet (filesWork_quiet s e)) rfl) (ih hrest)
      exact absurd hevent (hidle _ event rfl)

/-- The host makes a whole call while there is no worker. -/
theorem NetRunIn.call {texts : String → Prop} {net : Network} {call : HostCall}
    {result : HostResult} {s s' : Shared} {flag : Bool} {envs : List Env} {trace : Trace}
    (hnode : net.node = ⟨s, none, flag, none⟩)
    (h : Does execOp (hostBody call) s envs trace (.ret result) s')
    (hquiet : ∀ env ∈ envs, env = quiet)
    (htexts : ∀ argsJson, call = .serve argsJson → texts argsJson) :
    NetRunIn texts FilesWork net { net with
      node := ⟨s', none, flag || result.serves, none⟩ } := by
  obtain ⟨node, past, clients, streams, told⟩ := net
  subst hnode
  refine .head (.acts (.acts (.begins rfl call) fun event hevent => ?_)
    (.begins rfl call htexts) rfl) ?_
  · cases hevent
  · refine .tail (NetRunIn.hosts rfl h hquiet)
      (.acts (.acts (.returns rfl) fun event hevent => ?_) (.returns rfl) rfl)
    cases hevent

end Vouchers

end RlnGifter
