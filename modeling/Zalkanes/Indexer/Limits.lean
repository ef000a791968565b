import Zalkanes.Indexer.Block
import Zalkanes.State.RocksBuild

/-!
# The Size of a Block's Commit

The lengths of what a block writes: code within the code limit, keys and values within the storage
limits, and at most one deploy for every byte of code that is counted against the cap.

## Main results

* `reconstruct_eq_ok`: what holds of reconstructed bytes.
* `processTransactions_invariant`: the invariant rule of the accumulator.
* `withinLimits_processTransactions`, `length_deploys_processTransactions`: the commit of a block.
-/

namespace Zalkanes

open Lib

/-- What holds of reconstructed bytes: they have the declared length, which is within the code
limit, and the declared hash. -/
theorem reconstruct_eq_ok {H : Hashing} {chunks : List Chunk} {chunkCount : UInt8}
    {expectedLength : UInt32} {expectedHash : CodeHash} {wasm : Bytes}
    (h : reconstruct H chunks chunkCount expectedLength expectedHash = .ok wasm) :
    0 < expectedLength ∧ expectedLength ≤ maxCodeBytes ∧ wasm.length = expectedLength.toNat ∧
      CodeHash.of H wasm = expectedHash := by
  unfold reconstruct at h
  split at h
  · cases h
  rename_i hlength
  split at h
  · cases h
  obtain ⟨indexed, -, h⟩ := bind_eq_ok h
  obtain ⟨bytes, -, h⟩ := bind_eq_ok h
  split at h
  · cases h
  rename_i hlen
  dsimp only at h
  split at h
  · cases h
  rename_i hhash
  obtain rfl := Except.ok.inj h
  rw [not_or, gt_iff_lt, UInt32.not_lt] at hlength
  exact ⟨UInt32.pos_iff_ne_zero.mpr hlength.1, hlength.2, not_not.mp hlen, not_not.mp hhash⟩

/-- The bytes of a well-formed deploy or carrier call have the declared length. -/
theorem length_of_reconstruct {H : Hashing} {chunks : List Chunk} {chunkCount : UInt8}
    {expectedLength : UInt32} {expectedHash : CodeHash} {wasm : Bytes}
    (h : reconstruct H chunks chunkCount expectedLength expectedHash = .ok wasm) :
    wasm.length = expectedLength.toNat :=
  (reconstruct_eq_ok h).2.2.1

section Sizes

variable {P : Platform} {config : IndexerConfig} {store : StateView}

/-- The code of a commit is within the code limit, its keys and values within the storage limits. -/
structure BlockCommit.WithinLimits (c : BlockCommit) : Prop where
  deploys : ∀ d ∈ c.deploys, d.2.2.length ≤ maxCodeBytes.toNat
  upserts : ∀ u ∈ c.upserts, u.2.1.length ≤ maxStorageKeyBytes.toNat ∧
    u.2.2.length ≤ maxStorageValueBytes.toNat
  deletes : ∀ d ∈ c.deletes, d.2.length ≤ maxStorageKeyBytes.toNat

/-- An empty commit is within the limits. -/
theorem BlockCommit.withinLimits_empty (h : BlockHeight) (b : BlockHash) :
    (BlockCommit.empty h b).WithinLimits :=
  ⟨by simp [BlockCommit.empty], by simp [BlockCommit.empty], by simp [BlockCommit.empty]⟩

/-- Writes within the storage limits keep a commit within them. -/
theorem BlockCommit.WithinLimits.foldl {c : BlockCommit} (hc : c.WithinLimits)
    {writes : List StorageWrite} (hw : ∀ w ∈ writes, w.WithinLimits) :
    (writes.foldl applyStorageWrite c).WithinLimits := by
  induction writes generalizing c with
  | nil => exact hc
  | cons w writes ih =>
      refine ih ?_ fun w' hw' => hw w' (by simp [hw'])
      have hlim := hw w (by simp)
      cases w with
      | set cid key value =>
          refine ⟨hc.deploys, fun u hu => ?_, hc.deletes⟩
          rcases List.mem_append.mp hu with hu | hu
          · exact hc.upserts u hu
          · rw [List.mem_singleton.mp hu]
            exact hlim
      | delete cid key =>
          refine ⟨hc.deploys, hc.upserts, fun d hd => ?_⟩
          rcases List.mem_append.mp hd with hd | hd
          · exact hc.deletes d hd
          · rw [List.mem_singleton.mp hd]
            exact hlim

/-- The pending commit of a block is within the limits all along. -/
theorem BlockAcc.Effects.withinLimits {txs : List ParsedTransaction} {acc acc' : BlockAcc}
    (h : BlockAcc.Effects P config store txs acc acc') (hacc : acc.commit.WithinLimits) :
    acc'.commit.WithinLimits := by
  refine h.invariant (I := fun acc => acc.commit.WithinLimits) ?_ hacc
  rintro tx - acc acc' heff hI
  cases heff with
  | limits => exact hI
  | deploy _ deploy =>
      rcases handleDeploy_cases P config store acc tx deploy with heq | ⟨wasm, hrec, -, -, heq⟩
      · rw [heq]
        exact hI
      · rw [heq]
        refine ⟨fun d hd => ?_, hI.upserts, hI.deletes⟩
        rcases List.mem_append.mp hd with hd | hd
        · exact hI.deploys d hd
        · rw [List.mem_singleton.mp hd]
          obtain ⟨-, hle, hlength, -⟩ := reconstruct_eq_ok hrec
          exact hlength ▸ UInt32.le_iff_toNat_le.mp hle
  | call acc contractId opcode input result hexec =>
      rw [recordCall_commit]
      exact hI.foldl (writes_within_limits hexec).2

/-- The transactions of a block stay within the limits. -/
theorem withinLimits_processTransactions {parsed : ParsedBlock} {acc : BlockAcc}
    (h : processTransactions P config store parsed = .ok acc) : acc.commit.WithinLimits :=
  (processTransactions_effects h).withinLimits (BlockCommit.withinLimits_empty _ _)

/-! ### The accumulator -/

variable (P config store) in
/-- A deploy counts nothing. -/
theorem limits_handleDeploy (acc : BlockAcc) (tx : ParsedTransaction) (deploy : DeployMessage) :
    (handleDeploy P config store acc tx deploy).limits = acc.limits := by
  rcases handleDeploy_cases P config store acc tx deploy with heq | ⟨wasm, -, -, -, heq⟩ <;>
    rw [heq]

/-- Handling a message leaves the message counter of the block. -/
theorem blockMessages_handleMessage {acc acc' : TxAcc} {tx : ParsedTransaction} {outIdx : UInt16}
    {message : Message} (h : handleMessage P config store acc tx outIdx message = .ok acc') :
    acc'.block.limits.messages = acc.block.limits.messages := by
  have hcall : ∀ {acc acc' : TxAcc} {contractId : ContractId} {opcode : UInt16} {input : Bytes},
      executeCall P store acc tx contractId opcode input = .ok acc' →
      acc'.block.limits.messages = acc.block.limits.messages := by
    intro acc acc' contractId opcode input h
    unfold executeCall at h
    split at h
    · rw [Except.ok.inj h]
    · obtain ⟨result, hexec, rfl⟩ := map_eq_ok h
      rfl
  cases message with
  | deploy deploy =>
      simp only [handleMessage] at h
      split at h
      · rw [Except.ok.inj h]
      split at h
      · rw [← Except.ok.inj h]
        rfl
      · rw [← Except.ok.inj h]
        exact (congrArg BlockLimits.messages (limits_handleDeploy P config store _ tx deploy)).trans
          rfl
  | call call => exact hcall h
  | callCarrier call =>
      simp only [handleMessage] at h
      split at h
      · rw [← Except.ok.inj h]
        rfl
      · unfold handleCallCarrier at h
        split at h
        · rw [← Except.ok.inj h]
          rfl
        · have hsame := hcall h
          exact hsame

/-- **The invariant rule of the accumulator**: what counting a message and handling a message
preserve, processing a block preserves. -/
theorem processTransactions_invariant {I : BlockAcc → Prop}
    (hcount : ∀ (acc : BlockAcc) (messages : UInt32), I acc →
      I { acc with limits := { acc.limits with messages := messages } })
    (hhandle : ∀ (acc acc' : TxAcc) (tx : ParsedTransaction) (outIdx : UInt16) (message : Message),
      handleMessage P config store acc tx outIdx message = .ok acc' → I acc.block → I acc'.block)
    {parsed : ParsedBlock} {acc : BlockAcc}
    (h : processTransactions P config store parsed = .ok acc)
    (hI : I (BlockAcc.init parsed.height parsed.hash)) : I acc := by
  have houtputs : ∀ (tx : ParsedTransaction) (outputs : List (UInt16 × Bytes)) (acc : TxAcc)
      (acc' : BlockAcc), processOutputs P config store tx outputs acc = .ok acc' → I acc.block →
        I acc' := by
    intro tx outputs
    induction outputs with
    | nil =>
        intro acc acc' h hI
        rwa [← Except.ok.inj h]
    | cons output outputs ih =>
        intro acc acc' h hI
        unfold processOutputs at h
        split at h
        · exact ih acc acc' h hI
        · obtain ⟨txMessages, -, h⟩ := bind_eq_ok h
          obtain ⟨messages, -, h⟩ := bind_eq_ok h
          have hcounted := hcount acc.block messages hI
          dsimp only at h
          split at h
          · rw [← Except.ok.inj h]
            exact hcounted
          · obtain ⟨acc₁, hacc₁, h⟩ := bind_eq_ok h
            exact ih acc₁ acc' h (hhandle _ _ _ _ _ hacc₁ hcounted)
  have hfold : ∀ (txs : List ParsedTransaction) (acc acc' : BlockAcc),
      txs.foldlM (processTransaction P config store) acc = .ok acc' → I acc → I acc' := by
    intro txs
    induction txs with
    | nil =>
        intro acc acc' h hI
        rwa [← Except.ok.inj h]
    | cons tx txs ih =>
        intro acc acc' h hI
        rw [List.foldlM_cons] at h
        obtain ⟨acc₁, htx, h⟩ := bind_eq_ok h
        exact ih acc₁ acc' h (houtputs tx tx.outputs ⟨acc, 0, 0⟩ acc₁ htx hI)
  exact hfold parsed.transactions _ acc h hI

/-- A block deploys at most one contract for every byte of code that it may deploy. -/
theorem length_deploys_processTransactions {parsed : ParsedBlock} {acc : BlockAcc}
    (h : processTransactions P config store parsed = .ok acc) :
    acc.commit.deploys.length ≤ maxDeployBytesPerBlock := by
  refine le_trans (processTransactions_invariant (I := fun acc => acc.commit.deploys.length ≤
    min acc.limits.deployBytes maxDeployBytesPerBlock) (fun acc messages hI => hI) ?_ h
    (Nat.zero_le _)) (min_le_right _ _)
  intro acc acc' tx outIdx message h hI
  have hcap : maxDeployBytesPerBlock = 4194304 := rfl
  have hcall : ∀ {acc acc' : TxAcc} {contractId : ContractId} {opcode : UInt16} {input : Bytes},
      executeCall P store acc tx contractId opcode input = .ok acc' →
      acc'.block.commit.deploys = acc.block.commit.deploys ∧
        acc'.block.limits.deployBytes = acc.block.limits.deployBytes := by
    intro acc acc' contractId opcode input h
    unfold executeCall at h
    split at h
    · rw [Except.ok.inj h]
      exact ⟨rfl, rfl⟩
    · obtain ⟨result, hexec, rfl⟩ := map_eq_ok h
      rw [recordCall_commit, foldl_applyStorageWrite]
      exact ⟨rfl, rfl⟩
  cases message with
  | deploy deploy =>
      simp only [handleMessage] at h
      split at h
      · rwa [← Except.ok.inj h]
      split at h
      · rw [← Except.ok.inj h]
        simp only [TxAcc.setLimits, saturatingAdd]
        omega
      · rename_i hcaps
        rw [← Except.ok.inj h]
        rw [not_or, not_lt, not_lt, saturatingAdd, saturatingAdd] at hcaps
        dsimp only
        rw [limits_handleDeploy]
        rcases handleDeploy_cases P config store (acc.setLimits _).block tx deploy with heq |
          ⟨wasm, hwasm, -, -, heq⟩
        · rw [heq]
          simp only [TxAcc.setLimits, saturatingAdd]
          omega
        · have hpos := UInt32.lt_iff_toNat_lt.mp (reconstruct_eq_ok hwasm).1
          have hzero : (0 : UInt32).toNat = 0 := rfl
          rw [heq]
          simp only [TxAcc.setLimits, saturatingAdd, List.length_append, List.length_singleton]
          omega
  | call call =>
      obtain ⟨hdeploys, hbytes⟩ := hcall h
      rwa [hdeploys, hbytes]
  | callCarrier call =>
      simp only [handleMessage] at h
      split at h
      · rwa [← Except.ok.inj h]
      · unfold handleCallCarrier at h
        split at h
        · rwa [← Except.ok.inj h]
        · obtain ⟨hdeploys, hbytes⟩ := hcall h
          rwa [hdeploys, hbytes]

end Sizes

end Zalkanes
