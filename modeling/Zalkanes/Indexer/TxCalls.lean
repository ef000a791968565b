import Zalkanes.Indexer.Calls
import Zalkanes.Transaction

/-!
# The Calls of a Transaction

A transaction that only calls, in a block with room, makes its calls as if the caps of the block
were not there (`txCalls`). What they are then depends on the store through the code and the
storage of the called contracts alone.

## Main results

* `results_processOutputs`: a transaction with room makes the calls of `txCalls`.
* `blockCalls_eq`: the calls of a block of at most three transactions that only call.
* `txCalls_congr`: the calls of a transaction over another store.
* `txCalls_of_request`: the call that the first output asks for is the only one of its transaction.
-/

namespace Zalkanes

open Lib

section TxCalls

variable (P : Platform) (store : StateView) (height : BlockHeight) (tx : ParsedTransaction)

/-- The calls of a transaction without the caps of the block: after so much fuel and so many
messages of the transaction, go through these outputs. -/
def txCalls : List (UInt16 × Bytes) → (fuelUsed messages : ℕ) →
    Except Panic (List (CallContext × CallResult))
  | [], _, _ => .ok []
  | (_, scriptPubkey) :: outputs, fuelUsed, messages =>
      match outputMessage scriptPubkey with
      | none => txCalls outputs fuelUsed messages
      | some message =>
          if messages + 1 > maxZalkMessagesPerTx.toNat then .ok []
          else
            match message.request? P.hashing tx with
            | none => txCalls outputs fuelUsed (messages + 1)
            | some request =>
                let fuelLimit := min maxFuelPerCall (maxFuelPerZcashTx - fuelUsed)
                if fuelLimit = 0 then txCalls outputs fuelUsed (messages + 1)
                else do
                  let ctx := request.context height fuelLimit
                  let result ← execute P.engine P.overflowChecks ctx store
                  let rest ← txCalls outputs (fuelUsed + result.fuelUsed) (messages + 1)
                  return (ctx, result) :: rest

end TxCalls

/-- The outputs carry no deploys. -/
def CallsOnly (outputs : List (UInt16 × Bytes)) : Prop :=
  ∀ output ∈ outputs, ∀ deploy, outputMessage output.2 ≠ some (.deploy deploy)

/-- The caps of the block have room, as they have after `k` transactions that only call. -/
structure BlockLimits.Room (k : ℕ) (limits : BlockLimits) : Prop where
  fuelUsed : limits.fuelUsed ≤ k * maxFuelPerZcashTx
  messages : limits.messages.toNat ≤ k * (maxZalkMessagesPerTx.toNat + 1)
  carrierBytes : limits.carrierBytes ≤
    k * (maxZalkMessagesPerTx.toNat + 1) * maxCallInputBytes.toNat

/-- The same inside the transaction after them. -/
structure TxAcc.Room (k : ℕ) (acc : TxAcc) : Prop where
  txFuelUsed : acc.fuelUsed ≤ maxFuelPerZcashTx
  txMessages : acc.messages ≤ maxZalkMessagesPerTx
  fuelUsed : acc.block.limits.fuelUsed ≤ k * maxFuelPerZcashTx + acc.fuelUsed
  messages : acc.block.limits.messages.toNat ≤
    k * (maxZalkMessagesPerTx.toNat + 1) + acc.messages.toNat
  carrierBytes : acc.block.limits.carrierBytes ≤
    (k * (maxZalkMessagesPerTx.toNat + 1) + acc.messages.toNat) * maxCallInputBytes.toNat

/-- The declared input of a carrier call is within its cap. -/
theorem inputLength_le_of_parseOpReturn {payload : Bytes} {m : CallCarrierMessage}
    (h : parseOpReturn payload = .ok (some (.callCarrier m))) :
    m.inputLength ≤ maxCallInputBytes := by
  have hmap : ∀ {α : Type} {f : α → Message} {x : Except ParseError α},
      (x.map fun a => some (f a)) = .ok (some (.callCarrier m)) →
      ∃ a, x = .ok a ∧ f a = .callCarrier m := by
    intro α f x hx
    cases x with
    | error e => cases hx
    | ok a => exact ⟨a, rfl, Option.some.inj (Except.ok.inj hx)⟩
  unfold parseOpReturn at h
  split at h
  · cases h
  split at h
  · split at h <;> cases h
  split at h
  · cases h
  dsimp only at h
  split at h
  · cases h
  split at h
  · obtain ⟨a, -, ha⟩ := hmap h
    cases ha
  split at h
  · obtain ⟨a, -, ha⟩ := hmap h
    cases ha
  split at h
  · obtain ⟨a, hparse, ha⟩ := hmap h
    obtain rfl := Message.callCarrier.inj ha
    unfold parseCallCarrier at hparse
    split at hparse
    · cases hparse
    split at hparse
    · cases hparse
    simp only [bind, Except.bind] at hparse
    split at hparse
    · cases hparse
    split at hparse
    · cases hparse
    split at hparse
    · cases hparse
    rename_i hlen
    split at hparse
    · cases hparse
    · obtain rfl := Except.ok.inj hparse
      exact UInt32.not_lt.mp fun hlt => hlen (Or.inr hlt)
  · cases h

/-- A carrier input has at most its maximum. -/
theorem inputLength_le_of_outputMessage {scriptPubkey : Bytes} {m : CallCarrierMessage}
    (h : outputMessage scriptPubkey = some (.callCarrier m)) :
    m.inputLength ≤ maxCallInputBytes := by
  unfold outputMessage at h
  split at h
  · cases h
  · split at h
    · rename_i message hparse
      subst h
      exact inputLength_le_of_parseOpReturn hparse
    · cases h

section Room

variable {P : Platform} {config : IndexerConfig} {store : StateView} {k : ℕ}

/-- A transaction starts with the room of the block. -/
theorem BlockLimits.Room.start {acc : BlockAcc} (h : acc.limits.Room k) :
    (TxAcc.mk acc 0 0).Room k where
  txFuelUsed := Nat.zero_le _
  txMessages := show (0 : UInt32) ≤ maxZalkMessagesPerTx by decide
  fuelUsed := h.fuelUsed.trans (Nat.le_add_right _ _)
  messages := h.messages.trans (Nat.le_add_right _ _)
  carrierBytes := h.carrierBytes.trans (Nat.mul_le_mul_right _ (Nat.le_add_right _ _))

/-- A transaction takes at most the room of one more. -/
theorem TxAcc.Room.finish {acc : TxAcc} (h : acc.Room k) : acc.block.limits.Room (k + 1) where
  fuelUsed := by
    have := h.fuelUsed
    have := h.txFuelUsed
    rw [Nat.add_mul, Nat.one_mul]
    omega
  messages := by
    have := h.messages
    have := UInt32.le_iff_toNat_le.mp h.txMessages
    rw [Nat.add_mul, Nat.one_mul]
    omega
  carrierBytes := by
    have := UInt32.le_iff_toNat_le.mp h.txMessages
    refine h.carrierBytes.trans (Nat.mul_le_mul_right _ ?_)
    rw [Nat.add_mul, Nat.one_mul]
    omega

/-- With room, the caps of the block do not bind the fuel of a call. -/
theorem TxAcc.Room.fuelLimit_eq {acc : TxAcc} (hk : k ≤ 2) (h : acc.Room k) :
    fuelLimit acc = min maxFuelPerCall (maxFuelPerZcashTx - acc.fuelUsed) := by
  have hused := h.fuelUsed
  have htx := h.txFuelUsed
  have hblock : k * maxFuelPerZcashTx ≤ 2 * maxFuelPerZcashTx := Nat.mul_le_mul_right _ hk
  simp only [fuelLimit, maxFuelPerZcashTx, maxFuelPerZcashBlock, maxFuelPerCall] at *
  omega

/-- With room, the counters of messages do not overflow and the cap of the block is not hit. -/
theorem TxAcc.Room.count {acc : TxAcc} (hk : k ≤ 2) (h : acc.Room k) :
    plainAdd32 P.overflowChecks acc.messages 1 = .ok (acc.messages + 1) ∧
      plainAdd32 P.overflowChecks acc.block.limits.messages 1 =
        .ok (acc.block.limits.messages + 1) ∧
      (acc.messages + 1).toNat = acc.messages.toNat + 1 ∧
      (acc.block.limits.messages + 1).toNat = acc.block.limits.messages.toNat + 1 ∧
      acc.block.limits.messages + 1 ≤ maxZalkMessagesPerBlock := by
  have hmessages := h.messages
  have htx := UInt32.le_iff_toNat_le.mp h.txMessages
  have hone : (1 : UInt32).toNat = 1 := rfl
  have hcap : maxZalkMessagesPerTx.toNat = 16 := rfl
  have hblock : k * (maxZalkMessagesPerTx.toNat + 1) ≤ 2 * (maxZalkMessagesPerTx.toNat + 1) :=
    Nat.mul_le_mul_right _ hk
  obtain ⟨htxOk, htxEq⟩ := plainAdd32_eq_ok P.overflowChecks (a := acc.messages) (b := 1)
    (by omega)
  obtain ⟨hok, heq⟩ := plainAdd32_eq_ok P.overflowChecks (a := acc.block.limits.messages) (b := 1)
    (by omega)
  refine ⟨htxOk, hok, htxEq, heq, UInt32.le_iff_toNat_le.mpr ?_⟩
  have hcap' : maxZalkMessagesPerBlock.toNat = 4096 := rfl
  omega

/-- The accumulator after a message is counted. -/
def TxAcc.counted (acc : TxAcc) : TxAcc :=
  { acc.setLimits { acc.block.limits with messages := acc.block.limits.messages + 1 } with
    messages := acc.messages + 1 }

/-- Count the bytes that a message declares. -/
def TxAcc.withCarrierBytes (acc : TxAcc) (carrierBytes : ℕ) : TxAcc :=
  acc.setLimits { acc.block.limits with carrierBytes := carrierBytes }

variable (P store) in
/-- Make the call a message asks for, if it asks for one. -/
def executeCallRequest (acc : TxAcc) (tx : ParsedTransaction) :
    Option CallRequest → Except Panic TxAcc
  | none => .ok acc
  | some request => executeCall P store acc tx request.contractId request.opcode request.input

/-- With room, a message that is not a deploy makes the call it asks for. -/
theorem TxAcc.Room.handleMessage_eq {acc : TxAcc} (hk : k ≤ 2) (h : acc.Room k)
    (hcap : acc.messages.toNat + 1 ≤ maxZalkMessagesPerTx.toNat) (tx : ParsedTransaction)
    {outIdx : UInt16} {scriptPubkey : Bytes} {message : Message}
    (hmessage : outputMessage scriptPubkey = some message)
    (hdeploy : ∀ deploy, message ≠ .deploy deploy) :
    ∃ carrierBytes, (acc.counted.withCarrierBytes carrierBytes).Room k ∧
      handleMessage P config store acc.counted tx outIdx message =
        executeCallRequest P store (acc.counted.withCarrierBytes carrierBytes) tx
          (message.request? P.hashing tx) := by
  obtain ⟨-, -, htx, hblock, -⟩ := h.count (P := P) hk
  have hroom : ∀ carrierBytes,
      carrierBytes ≤ acc.block.limits.carrierBytes + maxCallInputBytes.toNat →
      (acc.counted.withCarrierBytes carrierBytes).Room k := by
    intro carrierBytes hle
    refine ⟨h.txFuelUsed, UInt32.le_iff_toNat_le.mpr ?_, h.fuelUsed, ?_, ?_⟩
    · simp only [withCarrierBytes, counted, setLimits, htx]
      exact hcap
    · have := h.messages
      simp only [withCarrierBytes, counted, setLimits, htx, hblock]
      omega
    · simp only [withCarrierBytes, counted, setLimits, htx]
      calc carrierBytes
          ≤ acc.block.limits.carrierBytes + maxCallInputBytes.toNat := hle
        _ ≤ (k * (maxZalkMessagesPerTx.toNat + 1) + acc.messages.toNat) *
              maxCallInputBytes.toNat + maxCallInputBytes.toNat :=
            Nat.add_le_add_right h.carrierBytes _
        _ = (k * (maxZalkMessagesPerTx.toNat + 1) + (acc.messages.toNat + 1)) *
              maxCallInputBytes.toNat := by ring
  cases message with
  | deploy deploy => exact absurd rfl (hdeploy deploy)
  | call m => exact ⟨acc.block.limits.carrierBytes, hroom _ (Nat.le_add_right _ _), rfl⟩
  | callCarrier m =>
      have hlength := UInt32.le_iff_toNat_le.mp (inputLength_le_of_outputMessage hmessage)
      have hle : saturatingAdd acc.block.limits.carrierBytes m.inputLength.toNat ≤
          acc.block.limits.carrierBytes + maxCallInputBytes.toNat := by
        rw [saturatingAdd]
        omega
      refine ⟨_, hroom _ hle, ?_⟩
      have hbytes := (hroom _ hle).carrierBytes
      have hfit : ¬ saturatingAdd acc.block.limits.carrierBytes m.inputLength.toNat >
          maxCarrierBytesPerBlock := by
        have hprod : (k * (maxZalkMessagesPerTx.toNat + 1) + (acc.messages.toNat + 1)) *
            maxCallInputBytes.toNat ≤ (2 * 17 + 16) * 65536 :=
          Nat.mul_le_mul_right _ (Nat.add_le_add (Nat.mul_le_mul_right _ hk) hcap)
        simp only [withCarrierBytes, counted, setLimits, htx] at hbytes
        simp only [maxCarrierBytesPerBlock]
        omega
      have hunfold : handleMessage P config store acc.counted tx outIdx (.callCarrier m) =
          handleCallCarrier P store (acc.counted.withCarrierBytes
            (saturatingAdd acc.block.limits.carrierBytes m.inputLength.toNat)) tx m := by
        simp only [handleMessage]
        exact if_neg hfit
      rw [hunfold, handleCallCarrier, Message.request?]
      cases reconstruct P.hashing (carrierChunks tx) m.carrierCount m.inputLength m.inputHash with
      | error e => rfl
      | ok calldata => rfl

variable (store) in
/-- Recording a call keeps the room. -/
theorem TxAcc.Room.record {acc : TxAcc} (hk : k ≤ 2) (h : acc.Room k) (ctx : CallContext)
    {result : CallResult} (hused : result.fuelUsed ≤ fuelLimit acc) :
    (recordCall P store acc ctx result).Room k ∧
      (recordCall P store acc ctx result).fuelUsed = acc.fuelUsed + result.fuelUsed := by
  rw [h.fuelLimit_eq hk] at hused
  have htx := h.txFuelUsed
  have hblock := h.fuelUsed
  have hbound : k * maxFuelPerZcashTx ≤ 2 * maxFuelPerZcashTx := Nat.mul_le_mul_right _ hk
  have hfuel : saturatingAdd acc.fuelUsed result.fuelUsed = acc.fuelUsed + result.fuelUsed := by
    simp only [saturatingAdd, maxFuelPerZcashTx] at *
    omega
  have hfuel' : saturatingAdd acc.block.limits.fuelUsed result.fuelUsed =
      acc.block.limits.fuelUsed + result.fuelUsed := by
    simp only [saturatingAdd, maxFuelPerZcashTx] at *
    omega
  refine ⟨⟨?_, h.txMessages, ?_, h.messages, h.carrierBytes⟩, hfuel⟩
  · change saturatingAdd acc.fuelUsed result.fuelUsed ≤ _
    rw [hfuel]
    omega
  · change saturatingAdd acc.block.limits.fuelUsed result.fuelUsed ≤
      _ + saturatingAdd acc.fuelUsed result.fuelUsed
    rw [hfuel, hfuel']
    omega

/-! ### The outputs of a transaction -/

/-- The accumulator after a call message is counted: only the counters changed. -/
structure TxAcc.Counted (k : ℕ) (acc acc₁ : TxAcc) : Prop where
  room : acc₁.Room k
  fuelUsed : acc₁.fuelUsed = acc.fuelUsed
  messages : acc₁.messages.toNat = acc.messages.toNat + 1
  commit : acc₁.block.commit = acc.block.commit
  results : acc₁.block.results = acc.block.results

variable (config store) in
/-- With room, going through an output with a call message: past the cap of the transaction the
rest is skipped, else the call it asks for is made. -/
theorem TxAcc.Room.processOutputs_cons {acc : TxAcc} (hk : k ≤ 2) (h : acc.Room k)
    (tx : ParsedTransaction) (outIdx : UInt16) {scriptPubkey : Bytes}
    (outputs : List (UInt16 × Bytes)) {message : Message}
    (hmessage : outputMessage scriptPubkey = some message)
    (hdeploy : ∀ deploy, message ≠ .deploy deploy) :
    (acc.messages.toNat + 1 > maxZalkMessagesPerTx.toNat ∧
      processOutputs P config store tx ((outIdx, scriptPubkey) :: outputs) acc =
        .ok acc.counted.block) ∨
    (acc.messages.toNat + 1 ≤ maxZalkMessagesPerTx.toNat ∧
      ∃ acc₁, acc.Counted k acc₁ ∧
        processOutputs P config store tx ((outIdx, scriptPubkey) :: outputs) acc =
          executeCallRequest P store acc₁ tx (message.request? P.hashing tx) >>=
            processOutputs P config store tx outputs) := by
  obtain ⟨htxOk, hok, htx, -, hblock⟩ := h.count (P := P) hk
  have hunfold : processOutputs P config store tx ((outIdx, scriptPubkey) :: outputs) acc =
      if acc.messages + 1 > maxZalkMessagesPerTx ∨
          acc.block.limits.messages + 1 > maxZalkMessagesPerBlock then .ok acc.counted.block
      else handleMessage P config store acc.counted tx outIdx message >>=
        processOutputs P config store tx outputs := by
    rw [processOutputs, hmessage]
    simp only [htxOk, hok]
    rfl
  by_cases hcap : acc.messages.toNat + 1 ≤ maxZalkMessagesPerTx.toNat
  · refine Or.inr ⟨hcap, ?_⟩
    obtain ⟨carrierBytes, hroom, heq⟩ :=
      h.handleMessage_eq (P := P) hk hcap tx hmessage hdeploy
    refine ⟨acc.counted.withCarrierBytes carrierBytes, ⟨hroom, rfl, htx, rfl, rfl⟩, ?_⟩
    rw [hunfold, if_neg, heq]
    rw [not_or, UInt32.not_lt, UInt32.not_lt, UInt32.le_iff_toNat_le, htx]
    exact ⟨hcap, hblock⟩
  · refine Or.inl ⟨by omega, ?_⟩
    rw [hunfold, if_pos]
    refine Or.inl (UInt32.lt_iff_toNat_lt.mpr ?_)
    rw [htx]
    omega

/-- A message asks for a call of its transaction. -/
theorem txid_of_request? {H : Hashing} {tx : ParsedTransaction} {message : Message}
    {request : CallRequest} (h : message.request? H tx = some request) :
    request.txid = tx.txid := by
  cases message with
  | deploy m => cases h
  | call m => exact (congrArg CallRequest.txid (Option.some.inj h)).symm
  | callCarrier m =>
      simp only [Message.request?] at h
      split at h
      · cases h
      · exact (congrArg CallRequest.txid (Option.some.inj h)).symm

/-- The requests of a transaction carry its id. -/
theorem txid_of_mem_requests {H : Hashing} {tx : ParsedTransaction} {request : CallRequest}
    (h : request ∈ tx.requests H) : request.txid = tx.txid := by
  obtain ⟨output, -, h⟩ := List.mem_filterMap.mp h
  obtain ⟨message, -, h⟩ := Option.bind_eq_some_iff.mp h
  exact txid_of_request? h

/-- With room, a requested call is executed if the transaction has fuel left. -/
theorem TxAcc.Room.executeCallRequest_some {acc : TxAcc} (hk : k ≤ 2) (h : acc.Room k)
    {tx : ParsedTransaction} {message : Message} {request : CallRequest}
    (hrequest : message.request? P.hashing tx = some request) :
    executeCallRequest P store acc tx (some request) =
      let fuelLimit := min maxFuelPerCall (maxFuelPerZcashTx - acc.fuelUsed)
      let ctx := request.context acc.block.commit.height fuelLimit
      if fuelLimit = 0 then .ok acc
      else (execute P.engine P.overflowChecks ctx store).map (recordCall P store acc ctx) := by
  have hctx : callContext acc tx request.contractId request.opcode request.input =
      request.context acc.block.commit.height (fuelLimit acc) := by
    rw [callContext, CallRequest.context, txid_of_request? hrequest]
  rw [executeCallRequest, executeCall, hctx, h.fuelLimit_eq hk]

/-- **A transaction with room makes its calls as if the caps of the block were not there.** -/
theorem results_processOutputs (hk : k ≤ 2) {tx : ParsedTransaction}
    {outputs : List (UInt16 × Bytes)} (hcalls : CallsOnly outputs) {acc : TxAcc}
    (hroom : acc.Room k) :
    (processOutputs P config store tx outputs acc).map BlockAcc.results =
      (txCalls P store acc.block.commit.height tx outputs acc.fuelUsed acc.messages.toNat).map
        fun calls => acc.block.results ++ calls := by
  induction outputs generalizing acc with
  | nil => exact congrArg Except.ok (List.append_nil _).symm
  | cons output outputs ih =>
      obtain ⟨outIdx, scriptPubkey⟩ := output
      have hrest : CallsOnly outputs := fun output houtput => hcalls output (by simp [houtput])
      cases hmessage : outputMessage scriptPubkey with
      | none =>
          rw [processOutputs, txCalls, hmessage]
          exact ih hrest hroom
      | some message =>
          have hdeploy : ∀ deploy, message ≠ .deploy deploy := fun deploy heq =>
            hcalls (outIdx, scriptPubkey) (by simp) deploy (by rw [hmessage, heq])
          rw [txCalls, hmessage]
          dsimp only
          rcases hroom.processOutputs_cons (P := P) config store hk tx
            outIdx outputs hmessage hdeploy with ⟨hcap, heq⟩ | ⟨hcap, acc₁, hcount, heq⟩
          · rw [heq, if_pos hcap]
            exact congrArg Except.ok (List.append_nil _).symm
          have hih := ih hrest hcount.room
          rw [heq, if_neg (by omega), ← hcount.fuelUsed, ← hcount.messages, ← hcount.commit,
            ← hcount.results]
          cases hrequest : message.request? P.hashing tx with
          | none => exact hih
          | some request =>
              rw [hcount.room.executeCallRequest_some hk hrequest]
              dsimp only
              -- the last fuel of the transaction is spent: the call is skipped
              split
              · exact hih
              · rename_i hfuel
                cases hexec : execute P.engine P.overflowChecks (request.context
                  acc₁.block.commit.height
                  (min maxFuelPerCall (maxFuelPerZcashTx - acc₁.fuelUsed))) store with
                | error p => rfl
                | ok result =>
                    have hused : result.fuelUsed ≤ fuelLimit acc₁ := by
                      rw [hcount.room.fuelLimit_eq hk]
                      exact fuelUsed_le hexec
                    obtain ⟨hroom₂, hfuel₂⟩ := hcount.room.record (P := P) store hk
                      (request.context acc₁.block.commit.height
                        (min maxFuelPerCall (maxFuelPerZcashTx - acc₁.fuelUsed))) hused
                    have hih₂ := ih hrest hroom₂
                    have hheight : (recordCall P store acc₁ (request.context
                        acc₁.block.commit.height (min maxFuelPerCall
                          (maxFuelPerZcashTx - acc₁.fuelUsed))) result).block.commit.height =
                        acc₁.block.commit.height := by
                      rw [recordCall_commit, foldl_applyStorageWrite]
                    rw [hfuel₂, hheight, recordCall_results] at hih₂
                    refine hih₂.trans ?_
                    change Except.map _ (txCalls P store acc₁.block.commit.height tx outputs
                      (acc₁.fuelUsed + result.fuelUsed) acc₁.messages.toNat) = _
                    simp only [bind, Except.bind]
                    cases txCalls P store acc₁.block.commit.height tx outputs
                      (acc₁.fuelUsed + result.fuelUsed) acc₁.messages.toNat with
                    | error p => rfl
                    | ok rest => exact congrArg Except.ok (List.append_assoc _ _ _)

/-- What a transaction with room leaves: room for the others, and the height of the commit. -/
theorem room_processOutputs (hk : k ≤ 2) {tx : ParsedTransaction} {outputs : List (UInt16 × Bytes)}
    (hcalls : CallsOnly outputs) {acc : TxAcc} (hroom : acc.Room k) {acc' : BlockAcc}
    (h : processOutputs P config store tx outputs acc = .ok acc') :
    acc'.limits.Room (k + 1) ∧ acc'.commit.height = acc.block.commit.height := by
  induction outputs generalizing acc with
  | nil =>
      rw [← Except.ok.inj h]
      exact ⟨hroom.finish, rfl⟩
  | cons output outputs ih =>
      obtain ⟨outIdx, scriptPubkey⟩ := output
      have hrest : CallsOnly outputs := fun output houtput => hcalls output (by simp [houtput])
      cases hmessage : outputMessage scriptPubkey with
      | none =>
          rw [processOutputs, hmessage] at h
          exact ih hrest hroom h
      | some message =>
          have hdeploy : ∀ deploy, message ≠ .deploy deploy := fun deploy heq =>
            hcalls (outIdx, scriptPubkey) (by simp) deploy (by rw [hmessage, heq])
          rcases hroom.processOutputs_cons (P := P) config store hk tx
            outIdx outputs hmessage hdeploy with ⟨hcap, heq⟩ | ⟨hcap, acc₁, hcount, heq⟩
          · rw [heq] at h
            obtain rfl := Except.ok.inj h
            -- the message past the cap of the transaction is counted in the block
            refine ⟨⟨hroom.finish.fuelUsed, ?_, hroom.finish.carrierBytes⟩, rfl⟩
            have hmessages := hroom.messages
            have htx := UInt32.le_iff_toNat_le.mp hroom.txMessages
            change (acc.block.limits.messages + 1).toNat ≤ _
            rw [(hroom.count (P := P) hk).2.2.2.1, Nat.add_mul, Nat.one_mul]
            omega
          rw [heq] at h
          rw [← hcount.commit]
          obtain ⟨acc₂, hacc₂, h⟩ := bind_eq_ok h
          cases hrequest : message.request? P.hashing tx with
          | none =>
              rw [hrequest] at hacc₂
              obtain rfl := Except.ok.inj hacc₂
              exact ih hrest hcount.room h
          | some request =>
              rw [hrequest, hcount.room.executeCallRequest_some hk hrequest] at hacc₂
              dsimp only at hacc₂
              split at hacc₂
              · obtain rfl := Except.ok.inj hacc₂
                exact ih hrest hcount.room h
              · obtain ⟨result, hexec, rfl⟩ := map_eq_ok hacc₂
                have hused : result.fuelUsed ≤ fuelLimit acc₁ := by
                  rw [hcount.room.fuelLimit_eq hk]
                  exact fuelUsed_le hexec
                obtain ⟨hroom₂, -⟩ := hcount.room.record (P := P) store hk
                  (request.context acc₁.block.commit.height
                    (min maxFuelPerCall (maxFuelPerZcashTx - acc₁.fuelUsed))) hused
                obtain ⟨hlimits, hheight⟩ := ih hrest hroom₂ h
                refine ⟨hlimits, hheight.trans ?_⟩
                rw [recordCall_commit, foldl_applyStorageWrite]

variable (config store) in
/-- The results of a transaction of calls are its calls. -/
theorem results_processTransaction (hk : k ≤ 2) {tx : ParsedTransaction}
    (hcalls : CallsOnly tx.outputs) {acc : BlockAcc} (hroom : acc.limits.Room k) :
    (processTransaction P config store acc tx).map BlockAcc.results =
      (txCalls P store acc.commit.height tx tx.outputs 0 0).map fun calls => acc.results ++ calls :=
  results_processOutputs hk hcalls hroom.start

variable (config) in
/-- **Transactions that only call, in a block with room**, make the calls of each. -/
theorem results_foldlM_processTransaction {txs : List ParsedTransaction}
    (hcalls : ∀ tx ∈ txs, CallsOnly tx.outputs) (hk : k + txs.length ≤ 3) {acc : BlockAcc}
    (hroom : acc.limits.Room k) :
    (txs.foldlM (processTransaction P config store) acc).map BlockAcc.results =
      (txs.mapM fun tx => txCalls P store acc.commit.height tx tx.outputs 0 0).map
        fun calls => acc.results ++ calls.flatten := by
  induction txs generalizing k acc with
  | nil => exact congrArg Except.ok (List.append_nil _).symm
  | cons tx txs ih =>
      rw [List.length_cons] at hk
      have hk₁ : k ≤ 2 := by omega
      have htxCalls : CallsOnly tx.outputs := hcalls tx (by simp)
      have htx := results_processTransaction (P := P) config store hk₁
        htxCalls hroom
      rw [List.foldlM_cons, List.mapM_cons]
      cases hacc₁ : processTransaction P config store acc tx with
      | error p =>
          rw [hacc₁] at htx
          cases hmine : txCalls P store acc.commit.height tx tx.outputs 0 0 with
          | error p' =>
              rw [hmine] at htx
              exact congrArg Except.error (Except.error.inj htx)
          | ok calls =>
              rw [hmine] at htx
              cases htx
      | ok acc₁ =>
          rw [hacc₁] at htx
          obtain ⟨hroom₁, hheight₁⟩ := room_processOutputs hk₁ htxCalls hroom.start hacc₁
          have hih := ih (fun t ht => hcalls t (by simp [ht])) (k := k + 1) (by omega) hroom₁
          cases hmine : txCalls P store acc.commit.height tx tx.outputs 0 0 with
          | error p' =>
              rw [hmine] at htx
              cases htx
          | ok calls =>
              rw [hmine] at htx
              have hresults : acc₁.results = acc.results ++ calls := Except.ok.inj htx
              rw [hheight₁, hresults] at hih
              refine hih.trans ?_
              simp only [bind, Except.bind]
              cases txs.mapM fun tx => txCalls P store acc.commit.height tx tx.outputs 0 0 with
              | error p => rfl
              | ok rest => exact congrArg Except.ok (List.append_assoc _ _ _)

end Room

/-! ### Blocks -/

section Blocks

variable {P : Platform} {config : IndexerConfig} {store store' : StateView}

/-- The calls of a block of at most three transactions that only call. -/
theorem blockCalls_eq {parsed : ParsedBlock} {activation : BlockHeight}
    (hact : config.activationHeight = some activation) (hge : activation ≤ parsed.height)
    (hlength : parsed.transactions.length ≤ 3)
    (hcalls : ∀ tx ∈ parsed.transactions, CallsOnly tx.outputs) :
    blockCalls P config store parsed =
      (parsed.transactions.mapM fun tx =>
        txCalls P store parsed.height tx tx.outputs 0 0).map List.flatten := by
  have hroom : (BlockAcc.init parsed.height parsed.hash).limits.Room 0 :=
    ⟨Nat.zero_le _, Nat.zero_le _, Nat.zero_le _⟩
  unfold blockCalls
  rw [hact]
  dsimp only
  rw [if_neg (UInt32.not_lt.mpr hge)]
  exact (results_foldlM_processTransaction config hcalls (by omega) hroom).trans rfl

/-- A call, at another height. -/
def atHeight (height : BlockHeight) (r : CallContext × CallResult) : CallContext × CallResult :=
  ({ r.1 with blockHeight := height }, r.2)

/-- The heights of calls do not matter for what they write. -/
theorem writeLog_map_atHeight (height : BlockHeight) (calls : List (CallContext × CallResult)) :
    writeLog (calls.map (atHeight height)) = writeLog calls := by
  rw [writeLog, List.flatMap_map]
  rfl

/-- **The calls of a transaction over another store** that agrees on the called contracts, at
another height that their code does not ask for. -/
theorem txCalls_congr (store : StateView) (height : BlockHeight) {store' : StateView}
    {height' : BlockHeight} {tx : ParsedTransaction}
    {outputs : List (UInt16 × Bytes)}
    (hagree : ∀ request ∈ outputRequests P.hashing tx outputs,
      store.AgreeOn request.contractId store')
    (hheight : height' = height ∨ ∀ request ∈ outputRequests P.hashing tx outputs,
      ∀ codeHash wasm, store.getContract request.contractId = some (codeHash, wasm) →
        P.engine.IgnoresHeight wasm) (fuelUsed messages : ℕ) :
    txCalls P store' height' tx outputs fuelUsed messages =
      (txCalls P store height tx outputs fuelUsed messages).map (List.map (atHeight height')) := by
  induction outputs generalizing fuelUsed messages with
  | nil => rfl
  | cons output outputs ih =>
      obtain ⟨outIdx, scriptPubkey⟩ := output
      have hmem : ∀ request ∈ outputRequests P.hashing tx outputs,
          request ∈ outputRequests P.hashing tx ((outIdx, scriptPubkey) :: outputs) := by
        intro request hrequest
        rw [outputRequests, List.filterMap_cons]
        split
        · exact hrequest
        · exact List.mem_cons_of_mem _ hrequest
      have hih := ih (fun request hrequest => hagree request (hmem request hrequest))
        (hheight.imp_right fun h request hrequest => h request (hmem request hrequest))
      rw [txCalls, txCalls]
      cases hmessage : outputMessage scriptPubkey with
      | none => exact hih fuelUsed messages
      | some message =>
          dsimp only
          split
          · rfl
          cases hrequest : message.request? P.hashing tx with
          | none => exact hih fuelUsed (messages + 1)
          | some request =>
              dsimp only
              split
              · exact hih fuelUsed (messages + 1)
              · have hhere : request ∈
                    outputRequests P.hashing tx ((outIdx, scriptPubkey) :: outputs) := by
                  rw [outputRequests, List.filterMap_cons_some (b := request)]
                  · exact List.mem_cons_self
                  · rw [hmessage]
                    exact hrequest
                have hexec : execute P.engine P.overflowChecks (request.context height'
                      (min maxFuelPerCall (maxFuelPerZcashTx - fuelUsed))) store' =
                    execute P.engine P.overflowChecks (request.context height
                      (min maxFuelPerCall (maxFuelPerZcashTx - fuelUsed))) store :=
                  execute_congr P.engine P.overflowChecks (request.context height
                      (min maxFuelPerCall (maxFuelPerZcashTx - fuelUsed)))
                    (hagree request hhere) (hheight.imp id fun h => h request hhere)
                rw [hexec]
                cases execute P.engine P.overflowChecks (request.context height
                    (min maxFuelPerCall (maxFuelPerZcashTx - fuelUsed))) store with
                | error p => rfl
                | ok result =>
                    simp only [bind, Except.bind]
                    rw [hih (fuelUsed + result.fuelUsed) (messages + 1)]
                    cases txCalls P store height tx outputs (fuelUsed + result.fuelUsed)
                      (messages + 1) <;> rfl

end Blocks

/-! ### Transactions that make one call -/

section OneCall

variable {P : Platform} {config : IndexerConfig} {store : StateView} {tx : ParsedTransaction}

/-- An inline CALL fits a standard OP_RETURN. -/
theorem length_encodeCall_le {msg : CallMessage} (h : msg.InRange) :
    (encodeCall msg).length ≤ 80 := by
  have hlength : (encodeCall msg).length = 42 + msg.input.length := by
    simp [encodeCall, header, protocolMagic]
    omega
  have hinput : msg.input.length ≤ 38 := h
  omega

/-- Every message fits a standard OP_RETURN. -/
theorem length_encode_le {message : Message} (h : message.InRange) :
    message.encode.length ≤ 80 := by
  cases message with
  | deploy m => simp [Message.encode, encodeDeploy, header, protocolMagic]
  | call m => exact length_encodeCall_le h
  | callCarrier m => simp [Message.encode, encodeCallCarrier, header, protocolMagic]

/-- A message is read back from its output. -/
theorem outputMessage_encode {message : Message} (h : message.InRange) :
    outputMessage (opReturnScript message.encode) = some message := by
  have hlength := length_encode_le h
  have hparse := (parseOpReturn_eq_some_iff message.encode message).mpr ⟨h, rfl⟩
  rw [outputMessage, extractOpReturnData_opReturnScript (by omega)]
  dsimp only
  rw [hparse]

/-- The call that the indexer is to execute. -/
def CallMessage.request (msg : CallMessage) (txid : TxId) : CallRequest :=
  ⟨txid, msg.contractId, msg.opcode, msg.input⟩

/-- Outputs without a message make no calls. -/
theorem txCalls_of_no_message {height : BlockHeight} {outputs : List (UInt16 × Bytes)}
    (h : ∀ output ∈ outputs, outputMessage output.2 = none) (fuelUsed messages : ℕ) :
    txCalls P store height tx outputs fuelUsed messages = .ok [] := by
  induction outputs with
  | nil => rfl
  | cons output outputs ih =>
      rw [List.forall_mem_cons] at h
      rw [txCalls, h.1]
      exact ih h.2

/-- The call that the first output asks for is the only one of its transaction. -/
theorem txCalls_of_request {height : BlockHeight} {outIdx : UInt16} {script : Bytes}
    {message : Message} (hmessage : outputMessage script = some message) {request : CallRequest}
    (hrequest : message.request? P.hashing tx = some request)
    {others : List (UInt16 × Bytes)} (hothers : ∀ output ∈ others, outputMessage output.2 = none) :
    txCalls P store height tx ((outIdx, script) :: others) 0 0 =
      (execute P.engine P.overflowChecks (request.context height maxFuelPerCall) store).map
        fun result => [(request.context height maxFuelPerCall, result)] := by
  have hfuel : min maxFuelPerCall (maxFuelPerZcashTx - 0) = maxFuelPerCall := rfl
  rw [txCalls, hmessage]
  dsimp only
  rw [if_neg (by decide), hrequest]
  dsimp only
  rw [hfuel, if_neg (by decide)]
  simp only [txCalls_of_no_message hothers]
  rfl

variable (P store) in
/-- The call of a block with one transaction of one message. -/
theorem blockCalls_of_request {activation height : BlockHeight} {hash : BlockHash}
    {outIdx : UInt16} {message : Message} {request : CallRequest}
    (hactivation : config.activationHeight = some activation) (hge : activation ≤ height)
    (hrange : message.InRange) (houtputs : tx.outputs = [(outIdx, opReturnScript message.encode)])
    (hrequest : message.request? P.hashing tx = some request) :
    CallsOnly tx.outputs ∧ blockCalls P config store ⟨height, hash, [tx]⟩ =
      (execute P.engine P.overflowChecks (request.context height maxFuelPerCall) store).map
        fun result => [(request.context height maxFuelPerCall, result)] := by
  have honly : CallsOnly tx.outputs := by
    intro output houtput deploy heq
    rw [houtputs] at houtput
    rw [List.mem_singleton.mp houtput, outputMessage_encode hrange] at heq
    obtain rfl := Option.some.inj heq
    cases hrequest
  refine ⟨honly, ?_⟩
  rw [blockCalls_eq hactivation hge (by simp) ?_]
  · simp only [List.mapM_cons, List.mapM_nil]
    rw [houtputs, txCalls_of_request (outputMessage_encode hrange) hrequest (by simp)]
    cases execute P.engine P.overflowChecks (request.context height maxFuelPerCall) store <;> rfl
  · exact fun tx' htx' => List.mem_singleton.mp htx' ▸ honly

end OneCall

end Zalkanes
