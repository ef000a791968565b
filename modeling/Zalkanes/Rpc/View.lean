import Zalkanes.Indexer.Sequential

/-!
# Views

The `zalkanes_view` request: a call of a contract whose writes are discarded. The handler takes the
store lock three times, for the indexed height, for the state root and for the call, and the
indexer may write to the store in between (`Interleaving`).

## Main results

* `describes_of_uninterrupted`: without a write in between, the response is about one state.
* `view_answers_one_state_iff`: the placements of writes under which every response is.
-/

namespace Zalkanes

open Lib

/-! ### The request -/

/-- `hex::encode`, and `hex::decode` when it succeeds. -/
structure Hex where
  encode : Bytes → String
  decode : String → Option Bytes

/-- The parameters of `zalkanes_view`. -/
structure ViewRequest where
  contractIdHex : String
  opcode : UInt16
  input : Bytes

/-- Response for `zalkanes_view`. -/
structure ViewResponse where
  success : Bool
  outputHex : String
  fuelUsed : ℕ
  indexedHeight : Option BlockHeight
  stateRoot : String
  error : Option String
  deriving DecidableEq

/-- 32 bytes in hex. -/
def parseContractId (hex : Hex) (s : String) : Option ContractId :=
  (hex.decode s).bind Bytes32.ofBytes?

/-- The response to a call with this result. -/
def viewResponse (hex : Hex) (indexedHeight : Option BlockHeight) (stateRoot : String) :
    CallResult → ViewResponse
  | .success output fuelUsed _ =>
      ⟨true, hex.encode output, fuelUsed, indexedHeight, stateRoot, none⟩
  | .trap reason fuelUsed => ⟨false, "", fuelUsed, indexedHeight, stateRoot, some reason⟩
  | .fuelExhausted fuelUsed =>
      ⟨false, "", fuelUsed, indexedHeight, stateRoot, some "fuel exhausted"⟩
  | .invalidModule reason => ⟨false, "", 0, indexedHeight, stateRoot, some reason⟩
  | .contractNotFound => ⟨false, "", 0, indexedHeight, stateRoot, some "contract not found"⟩

section View

variable {σ : Type} (S : StateStore σ) (P : Platform) (hex : Hex)

/-- The root is computed from the store. -/
def getStateRoot (s : σ) : String := hex.encode (computeRoot P.hashing (S.view s)).bytes

/-- The call of a view against a store. -/
def viewContext (s : σ) (id : ContractId) (request : ViewRequest) : CallContext where
  contractId := id
  caller := none
  txid := Bytes32.replicate 0
  blockHeight := (S.indexedHeight s).getD 0
  opcode := request.opcode
  input := request.input
  fuelLimit := maxFuelPerCall
  depth := 0

/-- Read-only execution. The three stores are those that the handler finds when it takes the lock
the first, the second and the third time. -/
def view (request : ViewRequest) (s₁ s₂ s₃ : σ) : Except Panic ViewResponse :=
  match parseContractId hex request.contractIdHex with
  | none => .ok ⟨false, "", 0, none, getStateRoot S P hex s₁, some "invalid contract id"⟩
  | some id =>
      let indexedHeight := S.indexedHeight s₁
      let stateRoot := getStateRoot S P hex s₂
      (execute P.engine P.overflowChecks (viewContext S s₃ id request) (S.view s₃)).map
        (viewResponse hex indexedHeight stateRoot)

/-- The height and the root in the response are those of the store, and the rest is the result of
the call against it. -/
def Describes (request : ViewRequest) (id : ContractId) (response : ViewResponse) (s : σ) : Prop :=
  ∃ result, execute P.engine P.overflowChecks (viewContext S s id request) (S.view s) = .ok result ∧
    response = viewResponse hex (S.indexedHeight s) (getStateRoot S P hex s) result

end View

/-! ### Interleavings -/

/-- What the indexer writes during a request: before the handler first takes the lock, between the
first and the second time, between the second and the third time, and afterwards. -/
structure Interleaving where
  before : List StoreOp
  first : List StoreOp
  second : List StoreOp
  after : List StoreOp

namespace Interleaving

/-- What happens to the store, in order. -/
def ops (i : Interleaving) : List StoreOp := i.before ++ i.first ++ i.second ++ i.after

/-- How many writes there are at each place. -/
def placement (i : Interleaving) : ℕ × ℕ × ℕ × ℕ :=
  (i.before.length, i.first.length, i.second.length, i.after.length)

end Interleaving

section Interleaving

variable {σ : Type} (S : StateStore σ) (P : Platform) (hex : Hex)

/-- The response of a request that is interleaved with these writes. -/
def interleavedView (request : ViewRequest) (s : σ) (i : Interleaving) :
    Except Panic ViewResponse :=
  view S P hex request (S.run s i.before).1 (S.run s (i.before ++ i.first)).1
    (S.run s (i.before ++ i.first ++ i.second)).1

/-- The response to a request for a contract is about one state of the store during it. -/
def AnswersOneState (request : ViewRequest) (s : σ) (i : Interleaving) : Prop :=
  ∀ id response, parseContractId hex request.contractIdHex = some id →
    interleavedView S P hex request s i = .ok response →
      ∃ m, Describes S P hex request id response (S.run s (i.ops.take m)).1

variable {S P hex}

/-- **A response is about one state** when nothing is written between the first and the last time
that the lock is taken. -/
theorem describes_of_uninterrupted {request : ViewRequest} {s : σ} {i : Interleaving}
    (hfirst : i.first = []) (hsecond : i.second = []) : AnswersOneState S P hex request s i := by
  intro id response hid h
  refine ⟨i.before.length, ?_⟩
  have htake : i.ops.take i.before.length = i.before := by
    rw [Interleaving.ops, hfirst, hsecond, List.append_nil, List.append_nil, List.take_left]
  rw [htake]
  rw [interleavedView, hfirst, hsecond, List.append_nil, List.append_nil, view, hid] at h
  obtain ⟨result, hexec, rfl⟩ := map_eq_ok h
  exact ⟨result, hexec, rfl⟩

end Interleaving

/-! ### A deploy during a view -/

/-- A view of the register that sets its key. -/
def registerRequest : ViewRequest :=
  ⟨"0909090909090909090909090909090909090909090909090909090909090909", 1, []⟩

/-- So many writes that deploy the register: a commit, and rollbacks to its height. -/
def deployThenHold (H : Hashing) : ℕ → List StoreOp
  | 0 => []
  | n + 1 => .commit (deployRegister H) :: List.replicate n (.rollback 1)

/-- Writes of this placement that deploy the register after the lock is first taken. -/
def lateDeploy (H : Hashing) (n₀ n₁ n₂ n₃ : ℕ) : Interleaving where
  before := List.replicate n₀ (.rollback 0)
  first := deployThenHold H n₁
  second := if n₁ = 0 then deployThenHold H n₂ else List.replicate n₂ (.rollback 1)
  after := List.replicate n₃ (.rollback 1)

/-- There are as many operations. -/
theorem length_deployThenHold (H : Hashing) (n : ℕ) : (deployThenHold H n).length = n := by
  cases n with
  | zero => rfl
  | succ n => rw [deployThenHold, List.length_cons, List.length_replicate]

/-- Holding on longer. -/
theorem deployThenHold_append (H : Hashing) {n : ℕ} (hn : 0 < n) (k : ℕ) :
    deployThenHold H n ++ List.replicate k (.rollback 1) = deployThenHold H (n + k) := by
  obtain ⟨n, rfl⟩ := Nat.exists_eq_add_one_of_ne_zero hn.ne'
  rw [Nat.add_right_comm, deployThenHold, deployThenHold, List.cons_append, List.replicate_add]

/-- The first operations of a deploy and a hold are a shorter one. -/
theorem take_deployThenHold (H : Hashing) (m n : ℕ) :
    (deployThenHold H n).take m = deployThenHold H (min m n) := by
  cases n with
  | zero => rw [deployThenHold, List.take_nil, Nat.min_zero]; rfl
  | succ n =>
      cases m with
      | zero => rw [List.take_zero, Nat.zero_min]; rfl
      | succ m =>
          rw [deployThenHold, List.take_succ_cons, List.take_replicate, Nat.succ_min_succ]
          rfl

/-- The placement is the one that was asked for. -/
theorem lateDeploy_placement (H : Hashing) (n₀ n₁ n₂ n₃ : ℕ) :
    (lateDeploy H n₀ n₁ n₂ n₃).placement = (n₀, n₁, n₂, n₃) := by
  rw [Interleaving.placement, lateDeploy]
  by_cases h : n₁ = 0
  · simp only [if_pos h, length_deployThenHold, List.length_replicate]
  · simp only [if_neg h, length_deployThenHold, List.length_replicate]

/-- What happens while the call is answered. -/
theorem lateDeploy_first_second (H : Hashing) (n₀ n₁ n₂ n₃ : ℕ) :
    (lateDeploy H n₀ n₁ n₂ n₃).first ++ (lateDeploy H n₀ n₁ n₂ n₃).second =
      deployThenHold H (n₁ + n₂) := by
  rw [lateDeploy]
  by_cases h : n₁ = 0
  · rw [if_pos h, h, Nat.zero_add]
    rfl
  · rw [if_neg h, deployThenHold_append H (Nat.pos_of_ne_zero h)]

/-- One deploy is regular. -/
theorem regular_deployRegister (H : Hashing) : Regular [deployRegister H] := by
  refine Regular.nil.append_singleton (by simp) ⟨?_, ?_, ?_, ?_⟩
  · intro d hd
    rw [List.mem_singleton.mp hd]
    exact show registerWasm.length < 2 ^ 32 by decide +kernel
  · exact fun u hu => absurd hu List.not_mem_nil
  · exact fun d hd => absurd hd List.not_mem_nil
  · exact Nat.one_lt_two_pow (by decide)

section LateDeploy

variable {H : Hashing} {σ : Type} {S : StateStore σ} {Rep : σ → List BlockCommit → Prop}

/-- Rollbacks to a height above all commits hold the store. -/
theorem run_hold (L : LawfulStore H S Rep) {s : σ} {cs : List BlockCommit} (hs : Rep s cs)
    (hcs : Regular cs) {t : BlockHeight} (ht : commitsUpTo t cs = cs) (n : ℕ) :
    Rep (S.run s (List.replicate n (.rollback t))).1 cs := by
  induction n generalizing s with
  | zero => exact hs
  | succ n ih =>
      refine ih ?_
      have hstep := ((L.step hs hcs).2 t).1
      rwa [ht] at hstep

/-- A deploy and a hold leave the store with the deploy. -/
theorem run_deployThenHold (L : LawfulStore H S Rep) {s : σ} (hs : Rep s []) {n : ℕ} (hn : 0 < n) :
    Rep (S.run s (deployThenHold H n)).1 [deployRegister H] := by
  obtain ⟨n, rfl⟩ := Nat.exists_eq_add_one_of_ne_zero hn.ne'
  exact run_hold L ((L.step hs Regular.nil).1 (deployRegister H)).1 (regular_deployRegister H) rfl n

/-- During such a request, the store is empty or has the register. -/
theorem run_take_lateDeploy (L : LawfulStore H S Rep) {s : σ} (hs : Rep s []) (n₀ n₃ : ℕ)
    {n₁ n₂ : ℕ} (h : 0 < n₁ + n₂) (m : ℕ) :
    Rep (S.run s ((lateDeploy H n₀ n₁ n₂ n₃).ops.take m)).1 [] ∨
      Rep (S.run s ((lateDeploy H n₀ n₁ n₂ n₃).ops.take m)).1 [deployRegister H] := by
  have hops : (lateDeploy H n₀ n₁ n₂ n₃).ops =
      List.replicate n₀ (.rollback 0) ++ deployThenHold H (n₁ + n₂ + n₃) := by
    rw [Interleaving.ops, List.append_assoc (lateDeploy H n₀ n₁ n₂ n₃).before,
      lateDeploy_first_second, List.append_assoc, ← deployThenHold_append H h]
    rfl
  rw [hops, List.take_append, List.take_replicate, take_deployThenHold, List.length_replicate,
    StateStore.run_append]
  have hbefore := run_hold L hs Regular.nil (t := 0) rfl (min m n₀)
  rcases Nat.eq_zero_or_pos (min (m - n₀) (n₁ + n₂ + n₃)) with hzero | hpos
  · rw [hzero]
    exact Or.inl hbefore
  · exact Or.inr (run_deployThenHold L hbefore hpos)

/-- **A deploy during a view**: the response has the height from before it and the result from
after it, so it is about no state of the store. -/
theorem not_answersOneState_of_lateDeploy (L : LawfulStore H S Rep) {s : σ} (hs : Rep s [])
    (json : Execution → Except String Bytes) (hex : Hex)
    (hhex : hex.decode registerRequest.contractIdHex = some registerId.bytes) (n₀ n₁ n₂ n₃ : ℕ)
    (h : 0 < n₁ + n₂) :
    ¬ AnswersOneState S (registerPlatform H json) hex registerRequest s
      (lateDeploy H n₀ n₁ n₂ n₃) := by
  intro hanswers
  have hregular := regular_deployRegister H
  set i := lateDeploy H n₀ n₁ n₂ n₃ with hi
  -- what the handler finds
  have hbefore : Rep (S.run s i.before).1 [] := run_hold L hs Regular.nil rfl n₀
  have hlast : Rep (S.run s (i.before ++ i.first ++ i.second)).1 [deployRegister H] := by
    rw [List.append_assoc, lateDeploy_first_second, StateStore.run_append]
    exact run_deployThenHold L hbefore h
  have hview := L.view hlast hregular
  have hcode : (S.view (S.run s (i.before ++ i.first ++ i.second)).1).getContract registerId =
      some (CodeHash.of H registerWasm, registerWasm) := by
    rw [hview]
    change (Ledger.empty.apply (deployRegister H)).contracts[registerId]? = _
    rw [Ledger.getElem?_contracts_apply]
    rfl
  have hid : parseContractId hex registerRequest.contractIdHex = some registerId := by
    rw [parseContractId, hhex]
    exact Bytes32.ofBytes?_bytes registerId
  have hheight : S.indexedHeight (S.run s i.before).1 = none := L.indexedHeight hbefore Regular.nil
  obtain ⟨output, fuelUsed, writes, hsuccess⟩ : ∃ output fuelUsed writes,
      execute registerEngine true
      (viewContext S (S.run s (i.before ++ i.first ++ i.second)).1 registerId registerRequest)
      (S.view (S.run s (i.before ++ i.first ++ i.second)).1) =
        .ok (.success output fuelUsed writes) :=
    ⟨_, _, _, execute_register_set _ rfl rfl hcode⟩
  have hok : interleavedView S (registerPlatform H json) hex registerRequest s i =
      .ok (viewResponse hex none (getStateRoot S (registerPlatform H json) hex
        (S.run s (i.before ++ i.first)).1) (.success output fuelUsed writes)) := by
    rw [interleavedView, view, hid]
    dsimp only
    rw [hheight]
    change (execute registerEngine true _ _).map _ = _
    rw [hsuccess]
    rfl
  -- no state during the request is both below the deploy and has the contract
  obtain ⟨m, result, hexec, hdescribed⟩ := hanswers registerId _ hid hok
  rcases run_take_lateDeploy L hs n₀ n₃ h m with hrep | hrep
  · have hmissing : (S.view (S.run s (i.ops.take m)).1).getContract registerId = none := by
      rw [L.view hrep Regular.nil]
      rfl
    have hnotFound : execute registerEngine true
        (viewContext S (S.run s (i.ops.take m)).1 registerId registerRequest)
        (S.view (S.run s (i.ops.take m)).1) = .ok .contractNotFound :=
      (execute_contractNotFound_iff rfl).mpr hmissing
    obtain rfl := Except.ok.inj (hnotFound.symm.trans hexec)
    have hflag : true = false := congrArg ViewResponse.success hdescribed
    cases hflag
  · have hlater : S.indexedHeight (S.run s (i.ops.take m)).1 = some 1 :=
      L.indexedHeight hrep hregular
    have hheights := congrArg ViewResponse.indexedHeight hdescribed
    rw [hlater] at hheights
    cases result <;> cases hheights

end LateDeploy

/-- **When a view answers about one state**: whatever the store, the contract and the writes are,
exactly when no write is placed between the first and the last time that the lock is taken. -/
theorem view_answers_one_state_iff (n₀ n₁ n₂ n₃ : ℕ) :
    (∀ (P : Platform) (hex : Hex) (request : ViewRequest) (i : Interleaving),
      i.placement = (n₀, n₁, n₂, n₃) →
        (∀ s, AnswersOneState (MemoryState.store P.hashing) P hex request s i) ∧
          ∀ s, AnswersOneState (RocksState.store P.hashing P.json) P hex request s i) ↔
      n₁ = 0 ∧ n₂ = 0 := by
  constructor
  · intro hall
    by_contra hinterrupted
    let H : Hashing := ⟨fun _ _ => Bytes32.replicate 0, fun _ => Bytes32.replicate 0⟩
    let hex : Hex := ⟨fun _ => "", fun _ => some registerId.bytes⟩
    refine not_answersOneState_of_lateDeploy (MemoryState.lawful H) (s := MemoryState.new) rfl
      (fun _ => .ok []) hex rfl n₀ n₁ n₂ n₃ (by omega) ?_
    exact (hall (registerPlatform H fun _ => .ok []) hex registerRequest _
      (lateDeploy_placement H n₀ n₁ n₂ n₃)).1 MemoryState.new
  · rintro ⟨rfl, rfl⟩ P hex request i hplacement
    have hfirst : i.first = [] :=
      List.length_eq_zero_iff.mp (congrArg (fun p => p.2.1) hplacement)
    have hsecond : i.second = [] :=
      List.length_eq_zero_iff.mp (congrArg (fun p => p.2.2.1) hplacement)
    exact ⟨fun s => describes_of_uninterrupted hfirst hsecond,
      fun s => describes_of_uninterrupted hfirst hsecond⟩

/-- The register is deployed after the handler has read the height and the root, and before it
makes the call. -/
theorem not_answersOneState_deployRegister :
    ¬ ∃ (H : Hashing) (json : Execution → Except String Bytes) (hex : Hex),
      hex.decode registerRequest.contractIdHex = some registerId.bytes ∧
        AnswersOneState (MemoryState.store H) (registerPlatform H json) hex registerRequest
          MemoryState.new ⟨[], [], [.commit (deployRegister H)], []⟩ := by
  rintro ⟨H, json, hex, hhex, hanswers⟩
  exact not_answersOneState_of_lateDeploy (MemoryState.lawful H) (s := MemoryState.new) rfl json hex
    hhex 0 0 1 0 Nat.one_pos hanswers

end Zalkanes
