import Zalkanes.Indexer.Limits
import Zalkanes.Indexer.Sequential

/-!
# Resource Budgets

What handling the messages of a block may cost. The messages that are acted on are listed with the
accumulators before and after each (`handledTransactions`); a budget is kept because a counter of
the block, cut off at its cap, grows by at least what is charged to it (`Pays`).

## Main results

* `Pays.outputs`, `Pays.transactions`: the rule of budgets.
* `withinBudgets`: fuel, messages and reconstructed bytes of a block stay within their caps.
-/

namespace Zalkanes

open Lib

/-! ### The messages acted on -/

/-- A message that is acted on: the accumulator it is handled with, and what handling it gives. -/
structure Handled where
  tx : ParsedTransaction
  outIdx : UInt16
  message : Message
  before : TxAcc
  after : Except Panic TxAcc

/-- The calls made for the message. -/
def Handled.calls (h : Handled) : List (CallContext × CallResult) :=
  match h.after with
  | .ok after => after.block.results.drop h.before.block.results.length
  | .error _ => []

/-- The calls of a message are the new results. -/
theorem Handled.calls_of_ok {h : Handled} {after : TxAcc} (hafter : h.after = .ok after) :
    h.calls = after.block.results.drop h.before.block.results.length := by
  rw [calls, hafter]

/-- A message that panics has none. -/
theorem Handled.calls_of_error {h : Handled} {p : Panic} (hafter : h.after = .error p) :
    h.calls = [] := by
  rw [calls, hafter]

/-- The fuel charged for the message. -/
def Handled.fuel (h : Handled) : ℕ := (h.calls.map fun r => r.2.fuelUsed).sum

section Handled

variable (P : Platform) (config : IndexerConfig) (store : StateView)

/-- The bytes reconstructed for the message: a deploy in its output, or a carrier call, within the
byte caps of the block, whose carrier data reconstructs. -/
def Handled.reconstructed (h : Handled) : Option Bytes :=
  let limits := h.before.block.limits
  match h.message with
  | .deploy deploy =>
      let length := deploy.codeLength.toNat
      if deploy.outputIndex ≠ h.outIdx then none
      else if saturatingAdd limits.carrierBytes length > maxCarrierBytesPerBlock ∨
          saturatingAdd limits.deployBytes length > maxDeployBytesPerBlock then none
      else (reconstruct P.hashing (carrierChunks h.tx) deploy.chunkCount deploy.codeLength
        deploy.codeHash).toOption
  | .call _ => none
  | .callCarrier call =>
      if saturatingAdd limits.carrierBytes call.inputLength.toNat > maxCarrierBytesPerBlock then
        none
      else (reconstruct P.hashing (carrierChunks h.tx) call.carrierCount call.inputLength
        call.inputHash).toOption

/-- How many bytes are reconstructed for the message. -/
def Handled.carrierBytes (h : Handled) : ℕ := ((h.reconstructed P).map List.length).getD 0

/-- How many bytes of code are reconstructed for the message. -/
def Handled.deployBytes (h : Handled) : ℕ :=
  match h.message with
  | .deploy _ => h.carrierBytes P
  | _ => 0

/-- The messages acted on while going through outputs of a transaction. -/
def handledOutputs (tx : ParsedTransaction) : List (UInt16 × Bytes) → TxAcc → List Handled
  | [], _ => []
  | (outIdx, scriptPubkey) :: outputs, acc =>
      match outputMessage scriptPubkey with
      | none => handledOutputs tx outputs acc
      | some message =>
          match plainAdd32 P.overflowChecks acc.messages 1,
            plainAdd32 P.overflowChecks acc.block.limits.messages 1 with
          | .ok txMessages, .ok messages =>
              let acc := { acc.setLimits { acc.block.limits with messages := messages } with
                messages := txMessages }
              if txMessages > maxZalkMessagesPerTx ∨ messages > maxZalkMessagesPerBlock then []
              else
                let after := handleMessage P config store acc tx outIdx message
                ⟨tx, outIdx, message, acc, after⟩ :: match after with
                  | .ok acc => handledOutputs tx outputs acc
                  | .error _ => []
          | _, _ => []

/-- The messages acted on in a block, one list for each transaction. -/
def handledTransactions : List ParsedTransaction → BlockAcc → List (List Handled)
  | [], _ => []
  | tx :: txs, acc => handledOutputs P config store tx tx.outputs ⟨acc, 0, 0⟩ ::
      match processTransaction P config store acc tx with
      | .ok acc => handledTransactions txs acc
      | .error _ => []

end Handled

/-! ### The rule of budgets -/

/-- A potential pays for a charge: counting a message leaves it, and handling a message raises it by
at least what is charged. It is never above its cap. -/
structure Pays (P : Platform) (config : IndexerConfig) (store : StateView) (cap : ℕ)
    (potential : TxAcc → ℕ) (charge : Handled → ℕ) : Prop where
  le_cap : ∀ acc, potential acc ≤ cap
  counted : ∀ acc messages txMessages,
    potential { acc.setLimits { acc.block.limits with messages := messages } with
      messages := txMessages } = potential acc
  handled : ∀ h : Handled,
    h.after = handleMessage P config store h.before h.tx h.outIdx h.message →
    potential h.before + charge h ≤ match h.after with
      | .ok after => potential after
      | .error _ => cap

section Pays

variable {P : Platform} {config : IndexerConfig} {store : StateView} {cap : ℕ}
  {potential : TxAcc → ℕ} {charge : Handled → ℕ}

/-- Going through outputs raises the potential by what the messages acted on are charged. -/
theorem Pays.outputs (hpays : Pays P config store cap potential charge) (tx : ParsedTransaction)
    (outputs : List (UInt16 × Bytes)) (acc : TxAcc) :
    potential acc + ((handledOutputs P config store tx outputs acc).map charge).sum ≤ cap ∧
      ∀ acc', processOutputs P config store tx outputs acc = .ok acc' → ∃ final : TxAcc,
        final.block = acc' ∧ potential acc +
          ((handledOutputs P config store tx outputs acc).map charge).sum ≤ potential final := by
  induction outputs generalizing acc with
  | nil =>
      refine ⟨hpays.le_cap acc, fun acc' h => ⟨acc, Except.ok.inj h, le_rfl⟩⟩
  | cons output outputs ih =>
      obtain ⟨outIdx, scriptPubkey⟩ := output
      rw [handledOutputs, processOutputs]
      cases hmessage : outputMessage scriptPubkey with
      | none => exact ih acc
      | some message =>
          dsimp only
          cases plainAdd32 P.overflowChecks acc.messages 1 with
          | error p => exact ⟨hpays.le_cap acc, fun acc' h => by cases h⟩
          | ok txMessages =>
              cases plainAdd32 P.overflowChecks acc.block.limits.messages 1 with
              | error p => exact ⟨hpays.le_cap acc, fun acc' h => by cases h⟩
              | ok messages =>
                  simp only [bind, Except.bind]
                  have hcounted := hpays.counted acc messages txMessages
                  split
                  · refine ⟨hpays.le_cap acc, fun acc' h =>
                      ⟨{ acc.setLimits { acc.block.limits with messages := messages } with
                        messages := txMessages }, Except.ok.inj h, ?_⟩⟩
                    exact (Nat.add_zero _).trans_le hcounted.ge
                  · have hhandled := hpays.handled ⟨tx, outIdx, message, _,
                      handleMessage P config store
                        { acc.setLimits { acc.block.limits with messages := messages } with
                          messages := txMessages } tx outIdx message⟩ rfl
                    rw [hcounted] at hhandled
                    rw [List.map_cons, List.sum_cons]
                    cases hafter : handleMessage P config store
                      { acc.setLimits { acc.block.limits with messages := messages } with
                        messages := txMessages } tx outIdx message with
                    | error p =>
                        rw [hafter] at hhandled
                        exact ⟨hhandled, fun acc' h => by cases h⟩
                    | ok after =>
                        rw [hafter] at hhandled
                        dsimp only at hhandled ⊢
                        obtain ⟨hcap, hfinal⟩ := ih after
                        refine ⟨by omega, fun acc' h => ?_⟩
                        obtain ⟨final, hblock, hle⟩ := hfinal acc' h
                        exact ⟨final, hblock, by omega⟩

/-- A potential of the block pays for the messages acted on in all transactions. -/
theorem Pays.transactions (blockPotential : BlockAcc → ℕ)
    (hpays : Pays P config store cap (fun acc => blockPotential acc.block) charge)
    (txs : List ParsedTransaction) (acc : BlockAcc) :
    blockPotential acc +
      ((handledTransactions P config store txs acc).flatten.map charge).sum ≤ cap := by
  induction txs generalizing acc with
  | nil => exact hpays.le_cap ⟨acc, 0, 0⟩
  | cons tx txs ih =>
      obtain ⟨hcap, hfinal⟩ := hpays.outputs tx tx.outputs ⟨acc, 0, 0⟩
      rw [handledTransactions, List.flatten_cons, List.map_append, List.sum_append]
      cases hacc' : processTransaction P config store acc tx with
      | error p => simpa using hcap
      | ok acc' =>
          obtain ⟨final, rfl, hle⟩ := hfinal acc' hacc'
          have := ih final.block
          dsimp only at hle ⊢
          omega

end Pays

/-! ### The four budgets -/

section Budgets

variable {P : Platform} {config : IndexerConfig} {store : StateView}

/-- A call gets no more than the fuel of one call. -/
theorem fuelLimit_le (acc : TxAcc) : fuelLimit acc ≤ maxFuelPerCall :=
  (min_le_left _ _).trans (min_le_left _ _)

/-- What a call does to the counters: nothing when there is no fuel left, else it is charged what
it used, which is at most the fuel it gets. -/
theorem executeCall_cases {acc acc' : TxAcc} {tx : ParsedTransaction} {contractId : ContractId}
    {opcode : UInt16} {input : Bytes}
    (h : executeCall P store acc tx contractId opcode input = .ok acc') :
    acc' = acc ∨ ∃ ctx result, result.fuelUsed ≤ fuelLimit acc ∧
      acc'.block.results = acc.block.results ++ [(ctx, result)] ∧
      acc'.fuelUsed = saturatingAdd acc.fuelUsed result.fuelUsed ∧
      acc'.block.limits = { acc.block.limits with
        fuelUsed := saturatingAdd acc.block.limits.fuelUsed result.fuelUsed } := by
  unfold executeCall at h
  split at h
  · exact Or.inl (Except.ok.inj h).symm
  · obtain ⟨result, hexec, rfl⟩ := map_eq_ok h
    exact Or.inr ⟨_, result, fuelUsed_le hexec, rfl, rfl, rfl⟩

/-- What handling a message does to fuel and calls. -/
theorem handleMessage_fuel {acc acc' : TxAcc} {tx : ParsedTransaction} {outIdx : UInt16}
    {message : Message} (h : handleMessage P config store acc tx outIdx message = .ok acc') :
    (acc'.block.results = acc.block.results ∧ acc'.fuelUsed = acc.fuelUsed ∧
      acc'.block.limits.fuelUsed = acc.block.limits.fuelUsed) ∨
    ∃ ctx result, result.fuelUsed ≤ fuelLimit acc ∧
      acc'.block.results = acc.block.results ++ [(ctx, result)] ∧
      acc'.fuelUsed = saturatingAdd acc.fuelUsed result.fuelUsed ∧
      acc'.block.limits.fuelUsed =
        saturatingAdd acc.block.limits.fuelUsed result.fuelUsed := by
  have hcall : ∀ {acc : TxAcc} {contractId : ContractId} {opcode : UInt16} {input : Bytes},
      executeCall P store acc tx contractId opcode input = .ok acc' →
      (acc'.block.results = acc.block.results ∧ acc'.fuelUsed = acc.fuelUsed ∧
        acc'.block.limits.fuelUsed = acc.block.limits.fuelUsed) ∨
      ∃ ctx result, result.fuelUsed ≤ fuelLimit acc ∧
        acc'.block.results = acc.block.results ++ [(ctx, result)] ∧
        acc'.fuelUsed = saturatingAdd acc.fuelUsed result.fuelUsed ∧
        acc'.block.limits.fuelUsed =
          saturatingAdd acc.block.limits.fuelUsed result.fuelUsed := by
    intro acc contractId opcode input h
    rcases executeCall_cases h with rfl | ⟨ctx, result, hused, hresults, htx, hlimits⟩
    · exact Or.inl ⟨rfl, rfl, rfl⟩
    · exact Or.inr ⟨ctx, result, hused, hresults, htx, by rw [hlimits]⟩
  cases message with
  | deploy deploy =>
      refine Or.inl ?_
      simp only [handleMessage] at h
      split at h
      · obtain rfl := Except.ok.inj h
        exact ⟨rfl, rfl, rfl⟩
      split at h
      · rw [← Except.ok.inj h]
        exact ⟨rfl, rfl, rfl⟩
      · rw [← Except.ok.inj h]
        refine ⟨results_handleDeploy _ tx deploy, rfl, ?_⟩
        exact (congrArg BlockLimits.fuelUsed
          (limits_handleDeploy P config store _ tx deploy)).trans rfl
  | call call => exact hcall h
  | callCarrier call =>
      simp only [handleMessage] at h
      split at h
      · rw [← Except.ok.inj h]
        exact Or.inl ⟨rfl, rfl, rfl⟩
      · unfold handleCallCarrier at h
        split at h
        · rw [← Except.ok.inj h]
          exact Or.inl ⟨rfl, rfl, rfl⟩
        · have hcounts := hcall h
          exact hcounts

/-- The calls of a handled message: none, or one within the fuel left. -/
theorem Handled.calls_cases {h : Handled}
    (hafter : h.after = handleMessage P config store h.before h.tx h.outIdx h.message) :
    h.calls = [] ∨ ∃ ctx result after, h.calls = [(ctx, result)] ∧ h.after = .ok after ∧
      result.fuelUsed ≤ fuelLimit h.before := by
  cases hres : h.after with
  | error p => exact Or.inl (Handled.calls_of_error hres)
  | ok after =>
      rcases handleMessage_fuel (hafter.symm.trans hres) with ⟨hresults, -, -⟩ |
        ⟨ctx, result, hused, hresults, -, -⟩
      · exact Or.inl (by rw [Handled.calls_of_ok hres, hresults, List.drop_length])
      · refine Or.inr ⟨ctx, result, after, ?_, rfl, hused⟩
        rw [Handled.calls_of_ok hres, hresults, List.drop_left]

/-- A fuel counter, cut off at its budget, pays for the fuel of the calls. -/
theorem pays_fuel {budget : ℕ} (hbudget : budget < 2 ^ 64) {counter : TxAcc → ℕ}
    (hcounted : ∀ acc messages txMessages,
      counter { acc.setLimits { acc.block.limits with messages := messages } with
        messages := txMessages } = counter acc)
    (hlimit : ∀ acc, fuelLimit acc ≤ budget - counter acc)
    (hcharge : ∀ {acc acc' : TxAcc} {tx : ParsedTransaction} {outIdx : UInt16} {message : Message},
      handleMessage P config store acc tx outIdx message = .ok acc' →
      (acc'.block.results = acc.block.results ∧ counter acc' = counter acc) ∨
        ∃ ctx result, result.fuelUsed ≤ fuelLimit acc ∧
          acc'.block.results = acc.block.results ++ [(ctx, result)] ∧
          counter acc' = saturatingAdd (counter acc) result.fuelUsed) :
    Pays P config store budget (fun acc => min (counter acc) budget) Handled.fuel where
  le_cap acc := min_le_right _ _
  counted acc messages txMessages := by rw [hcounted]
  handled h hafter := by
    cases hres : h.after with
    | error p =>
        have hnone : h.fuel = 0 := by
          rw [Handled.fuel, Handled.calls_of_error hres]
          rfl
        rw [hnone]
        exact min_le_right _ _
    | ok after =>
        dsimp only
        rcases hcharge (hafter.symm.trans hres) with ⟨hresults, hcounter⟩ |
          ⟨ctx, result, hused, hresults, hcounter⟩
        · have hnone : h.fuel = 0 := by
            rw [Handled.fuel, Handled.calls_of_ok hres, hresults, List.drop_length]
            rfl
          rw [hnone, hcounter]
          rfl
        · have hone : h.fuel = result.fuelUsed := by
            rw [Handled.fuel, Handled.calls_of_ok hres, hresults, List.drop_left]
            simp
          have hleft := hlimit h.before
          rw [hone, hcounter, saturatingAdd]
          omega

/-- The fuel of a transaction pays for its calls. -/
theorem pays_txFuel : Pays P config store maxFuelPerZcashTx
    (fun acc => min acc.fuelUsed maxFuelPerZcashTx) Handled.fuel :=
  pays_fuel (by decide) (fun _ _ _ => rfl)
    (fun acc => (min_le_left _ _).trans (min_le_right _ _)) fun h => by
      rcases handleMessage_fuel h with ⟨hresults, htx, -⟩ | ⟨ctx, result, hused, hresults, htx, -⟩
      · exact Or.inl ⟨hresults, htx⟩
      · exact Or.inr ⟨ctx, result, hused, hresults, htx⟩

/-- The fuel of a block pays for its calls. -/
theorem pays_blockFuel : Pays P config store maxFuelPerZcashBlock
    (fun acc => min acc.block.limits.fuelUsed maxFuelPerZcashBlock) Handled.fuel :=
  pays_fuel (by decide) (fun _ _ _ => rfl) (fun acc => min_le_right _ _) fun h => by
    rcases handleMessage_fuel h with ⟨hresults, -, hblock⟩ |
      ⟨ctx, result, hused, hresults, -, hblock⟩
    · exact Or.inl ⟨hresults, hblock⟩
    · exact Or.inr ⟨ctx, result, hused, hresults, hblock⟩

/-! ### Bytes -/

/-- The bytes a message declares in an output: those of a deploy in its own output, or of a carrier
call. -/
def Message.declaredBytes (outIdx : UInt16) : Message → ℕ
  | .deploy m => if m.outputIndex ≠ outIdx then 0 else m.codeLength.toNat
  | .call _ => 0
  | .callCarrier m => m.inputLength.toNat

/-- The bytes of code a message declares. -/
def Message.declaredCode (outIdx : UInt16) : Message → ℕ
  | .deploy m => if m.outputIndex ≠ outIdx then 0 else m.codeLength.toNat
  | _ => 0

/-- What handling a message does to the byte counters. -/
theorem handleMessage_bytes {acc acc' : TxAcc} {tx : ParsedTransaction} {outIdx : UInt16}
    {message : Message} (h : handleMessage P config store acc tx outIdx message = .ok acc') :
    (acc'.block.limits.carrierBytes = acc.block.limits.carrierBytes ∧
        message.declaredBytes outIdx = 0 ∨
      acc'.block.limits.carrierBytes =
        saturatingAdd acc.block.limits.carrierBytes (message.declaredBytes outIdx)) ∧
    (acc'.block.limits.deployBytes = acc.block.limits.deployBytes ∧
        message.declaredCode outIdx = 0 ∨
      acc'.block.limits.deployBytes =
        saturatingAdd acc.block.limits.deployBytes (message.declaredCode outIdx)) := by
  have hcall : ∀ {acc : TxAcc} {contractId : ContractId} {opcode : UInt16} {input : Bytes},
      executeCall P store acc tx contractId opcode input = .ok acc' →
      acc'.block.limits.carrierBytes = acc.block.limits.carrierBytes ∧
        acc'.block.limits.deployBytes = acc.block.limits.deployBytes := by
    intro acc contractId opcode input h
    rcases executeCall_cases h with rfl | ⟨ctx, result, -, -, -, hlimits⟩
    · exact ⟨rfl, rfl⟩
    · exact ⟨by rw [hlimits], by rw [hlimits]⟩
  cases message with
  | deploy deploy =>
      simp only [handleMessage] at h
      simp only [Message.declaredBytes, Message.declaredCode]
      split at h
      · rename_i hindex
        obtain rfl := Except.ok.inj h
        rw [if_pos hindex]
        exact ⟨Or.inl ⟨rfl, rfl⟩, Or.inl ⟨rfl, rfl⟩⟩
      rename_i hindex
      rw [if_neg hindex]
      split at h
      · rw [← Except.ok.inj h]
        exact ⟨Or.inr rfl, Or.inr rfl⟩
      · rw [← Except.ok.inj h]
        dsimp only
        rw [limits_handleDeploy]
        exact ⟨Or.inr rfl, Or.inr rfl⟩
  | call call =>
      obtain ⟨hcarrier, hdeploy⟩ := hcall h
      exact ⟨Or.inl ⟨hcarrier, rfl⟩, Or.inl ⟨hdeploy, rfl⟩⟩
  | callCarrier call =>
      simp only [handleMessage] at h
      split at h
      · rw [← Except.ok.inj h]
        exact ⟨Or.inr rfl, Or.inl ⟨rfl, rfl⟩⟩
      · unfold handleCallCarrier at h
        split at h
        · rw [← Except.ok.inj h]
          exact ⟨Or.inr rfl, Or.inl ⟨rfl, rfl⟩⟩
        · obtain ⟨hcarrier, hdeploy⟩ := hcall h
          exact ⟨Or.inr hcarrier, Or.inl ⟨hdeploy, rfl⟩⟩

/-- Bytes are reconstructed for a message only within the caps, and only as many as it declares. -/
theorem Handled.length_of_reconstructed {h : Handled} {bytes : Bytes}
    (hbytes : h.reconstructed P = some bytes) :
    bytes.length = h.message.declaredBytes h.outIdx ∧
      saturatingAdd h.before.block.limits.carrierBytes (h.message.declaredBytes h.outIdx) ≤
        maxCarrierBytesPerBlock ∧
      ∀ m, h.message = .deploy m → bytes.length = h.message.declaredCode h.outIdx ∧
        saturatingAdd h.before.block.limits.deployBytes (h.message.declaredCode h.outIdx) ≤
          maxDeployBytesPerBlock := by
  have hok : ∀ {x : Except CarrierError Bytes}, x.toOption = some bytes → x = .ok bytes := by
    intro x hx
    cases x with
    | error e => cases hx
    | ok b => exact congrArg Except.ok (Option.some.inj hx)
  obtain ⟨tx, outIdx, message, before, after⟩ := h
  cases message with
  | deploy deploy =>
      simp only [Handled.reconstructed] at hbytes
      split at hbytes
      · cases hbytes
      rename_i hindex
      split at hbytes
      · cases hbytes
      rename_i hcaps
      rw [not_or, not_lt, not_lt] at hcaps
      have hlength := length_of_reconstruct (hok hbytes)
      simp only [Message.declaredBytes, Message.declaredCode, if_neg hindex]
      exact ⟨hlength, hcaps.1, fun m _ => ⟨hlength, hcaps.2⟩⟩
  | call call => cases hbytes
  | callCarrier call =>
      simp only [Handled.reconstructed] at hbytes
      split at hbytes
      · cases hbytes
      rename_i hcap
      exact ⟨length_of_reconstruct (hok hbytes), not_lt.mp hcap, fun m hm => by cases hm⟩

/-- A counter of declared bytes, cut off at its cap, pays for the bytes reconstructed under it. -/
theorem pays_bytes {cap : ℕ} {counter : TxAcc → ℕ} {charge : Handled → ℕ}
    (declared : Handled → ℕ) (hcap : cap < 2 ^ 64 - 1)
    (hcounted : ∀ acc messages txMessages,
      counter { acc.setLimits { acc.block.limits with messages := messages } with
        messages := txMessages } = counter acc)
    (hcharge : ∀ h, charge h = 0 ∨
      charge h = declared h ∧ saturatingAdd (counter h.before) (declared h) ≤ cap)
    (hcounter : ∀ (h : Handled) (acc' : TxAcc),
      handleMessage P config store h.before h.tx h.outIdx h.message = .ok acc' →
      counter acc' = counter h.before ∧ declared h = 0 ∨
        counter acc' = saturatingAdd (counter h.before) (declared h)) :
    Pays P config store cap (fun acc => min (counter acc) cap) charge where
  le_cap acc := min_le_right _ _
  counted acc messages txMessages := by rw [hcounted]
  handled h hafter := by
    have hcharge := hcharge h
    simp only [saturatingAdd] at hcharge
    cases hres : h.after with
    | error p =>
        dsimp only
        omega
    | ok after =>
        have hcounter := hcounter h after (hafter.symm.trans hres)
        simp only [saturatingAdd] at hcounter
        dsimp only
        omega

/-- The carrier bytes of a block pay for what comes by carrier. -/
theorem pays_carrierBytes : Pays P config store maxCarrierBytesPerBlock
    (fun acc => min acc.block.limits.carrierBytes maxCarrierBytesPerBlock)
    (Handled.carrierBytes P) := by
  refine pays_bytes (fun h => h.message.declaredBytes h.outIdx) (by decide)
    (fun _ _ _ => rfl) (fun h => ?_) fun h acc' hres => (handleMessage_bytes hres).1
  rw [Handled.carrierBytes]
  cases hbytes : h.reconstructed P with
  | none => exact Or.inl rfl
  | some bytes =>
      obtain ⟨hlength, hcap, -⟩ := Handled.length_of_reconstructed hbytes
      exact Or.inr ⟨hlength, hcap⟩

/-- The deploy bytes of a block pay for its deploys. -/
theorem pays_deployBytes : Pays P config store maxDeployBytesPerBlock
    (fun acc => min acc.block.limits.deployBytes maxDeployBytesPerBlock)
    (Handled.deployBytes P) := by
  refine pays_bytes (fun h => h.message.declaredCode h.outIdx) (by decide)
    (fun _ _ _ => rfl) (fun h => ?_) fun h acc' hres => (handleMessage_bytes hres).2
  cases hmessage : h.message with
  | deploy m =>
      rw [Handled.deployBytes, hmessage]
      dsimp only
      rw [Handled.carrierBytes]
      cases hbytes : h.reconstructed P with
      | none => exact Or.inl rfl
      | some bytes =>
          obtain ⟨-, -, hcode⟩ := Handled.length_of_reconstructed hbytes
          obtain ⟨hlength, hcap⟩ := hcode m hmessage
          rw [hmessage] at hlength hcap
          exact Or.inr ⟨hlength, hcap⟩
  | call m => exact Or.inl (by rw [Handled.deployBytes, hmessage])
  | callCarrier m => exact Or.inl (by rw [Handled.deployBytes, hmessage])

end Budgets

/-! ### Messages -/

section Messages

variable {P : Platform} {config : IndexerConfig} {store : StateView}

/-- Handling a message does not count messages. -/
theorem handleMessage_messages {acc acc' : TxAcc} {tx : ParsedTransaction} {outIdx : UInt16}
    {message : Message} (h : handleMessage P config store acc tx outIdx message = .ok acc') :
    acc'.messages = acc.messages := by
  have hcall : ∀ {acc : TxAcc} {contractId : ContractId} {opcode : UInt16} {input : Bytes},
      executeCall P store acc tx contractId opcode input = .ok acc' →
      acc'.messages = acc.messages := by
    intro acc contractId opcode input h
    unfold executeCall at h
    split at h
    · rw [Except.ok.inj h]
    · obtain ⟨result, -, rfl⟩ := map_eq_ok h
      rfl
  cases message with
  | deploy deploy =>
      simp only [handleMessage] at h
      split at h
      · rw [Except.ok.inj h]
      split at h <;> rw [← Except.ok.inj h] <;> rfl
  | call call => exact hcall h
  | callCarrier call =>
      simp only [handleMessage] at h
      split at h
      · rw [← Except.ok.inj h]
        rfl
      · unfold handleCallCarrier at h
        split at h
        · rw [← Except.ok.inj h]
          rfl
        · exact (hcall h).trans rfl

variable (P config store) in
/-- A transaction acts on at most as many messages as its cap leaves. -/
theorem length_handledOutputs (tx : ParsedTransaction) (outputs : List (UInt16 × Bytes))
    (acc : TxAcc) (hmessages : acc.messages ≤ maxZalkMessagesPerTx) :
    acc.messages.toNat + (handledOutputs P config store tx outputs acc).length ≤
      maxZalkMessagesPerTx.toNat := by
  induction outputs generalizing acc with
  | nil => exact UInt32.le_iff_toNat_le.mp hmessages
  | cons output outputs ih =>
      obtain ⟨outIdx, scriptPubkey⟩ := output
      have hle := UInt32.le_iff_toNat_le.mp hmessages
      have hcap : maxZalkMessagesPerTx.toNat = 16 := rfl
      have hone : (1 : UInt32).toNat = 1 := rfl
      obtain ⟨hok, hnext⟩ := plainAdd32_eq_ok P.overflowChecks (a := acc.messages) (b := 1)
        (by omega)
      rw [handledOutputs]
      cases outputMessage scriptPubkey with
      | none => exact ih acc hmessages
      | some message =>
          rw [hok]
          cases plainAdd32 P.overflowChecks acc.block.limits.messages 1 with
          | error p => exact hle
          | ok messages =>
              dsimp only
              split
              · exact hle
              · rename_i hcaps
                rw [not_or, UInt32.not_lt] at hcaps
                rw [List.length_cons]
                cases hafter : handleMessage P config store
                  { acc.setLimits { acc.block.limits with messages := messages } with
                    messages := acc.messages + 1 } tx outIdx message with
                | error p =>
                    have := UInt32.le_iff_toNat_le.mp hcaps.1
                    dsimp only [List.length_nil]
                    omega
                | ok after =>
                    have hsame := handleMessage_messages hafter
                    dsimp only at hsame
                    have hrest := ih after (by rw [hsame]; exact hcaps.1)
                    rw [hsame] at hrest
                    dsimp only
                    omega

variable (P config store) in
/-- The messages that a transaction acts on count against the cap of the block. -/
theorem blockMessages_handledOutputs (tx : ParsedTransaction) (outputs : List (UInt16 × Bytes))
    {n : ℕ} (hn : maxZalkMessagesPerBlock.toNat + n + 1 < 2 ^ 32) (acc : TxAcc)
    (hmessages : acc.block.limits.messages.toNat ≤ maxZalkMessagesPerBlock.toNat + n) :
    min acc.block.limits.messages.toNat maxZalkMessagesPerBlock.toNat +
        (handledOutputs P config store tx outputs acc).length ≤ maxZalkMessagesPerBlock.toNat ∧
      ∀ acc', processOutputs P config store tx outputs acc = .ok acc' →
        acc'.limits.messages.toNat ≤ maxZalkMessagesPerBlock.toNat + n + 1 ∧
        min acc.block.limits.messages.toNat maxZalkMessagesPerBlock.toNat +
          (handledOutputs P config store tx outputs acc).length ≤
            min acc'.limits.messages.toNat maxZalkMessagesPerBlock.toNat := by
  induction outputs generalizing acc with
  | nil =>
      refine ⟨min_le_right _ _, fun acc' h => ?_⟩
      rw [← Except.ok.inj h]
      exact ⟨by omega, le_rfl⟩
  | cons output outputs ih =>
      obtain ⟨outIdx, scriptPubkey⟩ := output
      have hone : (1 : UInt32).toNat = 1 := rfl
      obtain ⟨hok, hnext⟩ := plainAdd32_eq_ok P.overflowChecks (a := acc.block.limits.messages)
        (b := 1) (by omega)
      rw [handledOutputs, processOutputs]
      cases outputMessage scriptPubkey with
      | none => exact ih acc hmessages
      | some message =>
          rw [hok]
          cases plainAdd32 P.overflowChecks acc.messages 1 with
          | error p => exact ⟨min_le_right _ _, fun acc' h => by cases h⟩
          | ok txMessages =>
              simp only [bind, Except.bind]
              split
              · refine ⟨min_le_right _ _, fun acc' h => ?_⟩
                rw [← Except.ok.inj h]
                simp only [TxAcc.setLimits, List.length_nil]
                omega
              · rename_i hcaps
                rw [not_or, UInt32.not_lt, UInt32.not_lt] at hcaps
                have hcap := UInt32.le_iff_toNat_le.mp hcaps.2
                rw [List.length_cons]
                cases hafter : handleMessage P config store
                  { acc.setLimits { acc.block.limits with
                      messages := acc.block.limits.messages + 1 } with
                    messages := txMessages } tx outIdx message with
                | error p =>
                    refine ⟨?_, fun acc' h => by cases h⟩
                    simp only [List.length_nil]
                    omega
                | ok after =>
                    have hsame := blockMessages_handleMessage hafter
                    simp only [TxAcc.setLimits] at hsame
                    obtain ⟨hle, hfinal⟩ := ih after (by rw [hsame]; omega)
                    rw [hsame] at hle hfinal
                    dsimp only
                    refine ⟨by omega, fun acc' h => ?_⟩
                    obtain ⟨hbound, hgrow⟩ := hfinal acc' h
                    exact ⟨hbound, by omega⟩

/-- The messages that are handled are within the cap of the block. -/
theorem blockMessages_handledTransactions {txs : List ParsedTransaction} {n : ℕ}
    (hn : maxZalkMessagesPerBlock.toNat + n + txs.length < 2 ^ 32) (acc : BlockAcc)
    (hmessages : acc.limits.messages.toNat ≤ maxZalkMessagesPerBlock.toNat + n) :
    min acc.limits.messages.toNat maxZalkMessagesPerBlock.toNat +
      (handledTransactions P config store txs acc).flatten.length ≤
        maxZalkMessagesPerBlock.toNat := by
  induction txs generalizing n acc with
  | nil => exact min_le_right _ _
  | cons tx txs ih =>
      rw [List.length_cons] at hn
      obtain ⟨hle, hfinal⟩ := blockMessages_handledOutputs P config store tx tx.outputs
        (n := n) (by omega) ⟨acc, 0, 0⟩ hmessages
      rw [handledTransactions, List.flatten_cons, List.length_append]
      cases hacc' : processTransaction P config store acc tx with
      | error p => simpa using hle
      | ok acc' =>
          obtain ⟨hbound, hgrow⟩ := hfinal acc' hacc'
          have := ih (n := n + 1) (by omega) acc' (by omega)
          dsimp only at hgrow ⊢
          omega

/-- Each transaction is handled from nothing. -/
theorem mem_handledTransactions {txs : List ParsedTransaction} {acc : BlockAcc}
    {hs : List Handled} (h : hs ∈ handledTransactions P config store txs acc) :
    ∃ tx ∈ txs, ∃ acc : BlockAcc, hs = handledOutputs P config store tx tx.outputs ⟨acc, 0, 0⟩ := by
  induction txs generalizing acc with
  | nil => cases h
  | cons tx txs ih =>
      rw [handledTransactions] at h
      rcases List.mem_cons.mp h with rfl | h
      · exact ⟨tx, by simp, acc, rfl⟩
      · split at h
        · obtain ⟨t, ht, acc', rfl⟩ := ih h
          exact ⟨t, by simp [ht], acc', rfl⟩
        · cases h

/-- A handled message is handled. -/
theorem after_of_mem_handledOutputs {tx : ParsedTransaction} {outputs : List (UInt16 × Bytes)}
    {acc : TxAcc} {h : Handled} (hmem : h ∈ handledOutputs P config store tx outputs acc) :
    h.after = handleMessage P config store h.before h.tx h.outIdx h.message := by
  induction outputs generalizing acc with
  | nil => cases hmem
  | cons output outputs ih =>
      obtain ⟨outIdx, scriptPubkey⟩ := output
      rw [handledOutputs] at hmem
      split at hmem
      · exact ih hmem
      split at hmem
      · dsimp only at hmem
        split at hmem
        · cases hmem
        · rcases List.mem_cons.mp hmem with rfl | hmem
          · rfl
          · split at hmem
            · exact ih hmem
            · cases hmem
      · cases hmem

/-- The calls of a transaction are those made for the messages it acts on. -/
theorem results_eq_handledOutputs {tx : ParsedTransaction} {outputs : List (UInt16 × Bytes)}
    {acc : TxAcc} {acc' : BlockAcc} (h : processOutputs P config store tx outputs acc = .ok acc') :
    acc'.results = acc.block.results ++
      (handledOutputs P config store tx outputs acc).flatMap Handled.calls := by
  induction outputs generalizing acc with
  | nil =>
      rw [← Except.ok.inj h]
      exact (List.append_nil _).symm
  | cons output outputs ih =>
      obtain ⟨outIdx, scriptPubkey⟩ := output
      cases hmessage : outputMessage scriptPubkey with
      | none =>
          rw [processOutputs, hmessage] at h
          rw [handledOutputs, hmessage]
          exact ih h
      | some message =>
          rw [processOutputs, hmessage] at h
          rw [handledOutputs, hmessage]
          obtain ⟨txMessages, htxMessages, h⟩ := bind_eq_ok h
          obtain ⟨messages, hmessages, h⟩ := bind_eq_ok h
          rw [htxMessages, hmessages]
          dsimp only at h ⊢
          split at h
          · rename_i hcaps
            rw [if_pos hcaps, ← Except.ok.inj h]
            exact (List.append_nil _).symm
          · rename_i hcaps
            obtain ⟨after, hafter, h⟩ := bind_eq_ok h
            have hcalls : after.block.results = acc.block.results ++
                (Handled.mk tx outIdx message { acc.setLimits { acc.block.limits with
                  messages := messages } with messages := txMessages } (.ok after)).calls := by
              rw [Handled.calls_of_ok rfl]
              rcases handleMessage_fuel hafter with ⟨hresults, -, -⟩ |
                ⟨ctx, result, -, hresults, -, -⟩
              · rw [hresults, List.drop_length]
                exact (List.append_nil _).symm
              · rw [hresults, List.drop_left]
                rfl
            rw [if_neg hcaps, hafter, ih h, hcalls, List.flatMap_cons, List.append_assoc]

/-- The results of a block are the calls of its messages. -/
theorem results_eq_handledTransactions {txs : List ParsedTransaction} {acc acc' : BlockAcc}
    (h : txs.foldlM (processTransaction P config store) acc = .ok acc') :
    acc'.results = acc.results ++
      (handledTransactions P config store txs acc).flatten.flatMap Handled.calls := by
  induction txs generalizing acc with
  | nil =>
      rw [← Except.ok.inj h]
      exact (List.append_nil _).symm
  | cons tx txs ih =>
      rw [List.foldlM_cons] at h
      obtain ⟨acc₁, htx, h⟩ := bind_eq_ok h
      rw [handledTransactions, htx, List.flatten_cons, List.flatMap_append, ← List.append_assoc,
        ih h, results_eq_handledOutputs htx]

end Messages

/-! ### The budgets of a block -/

/-- The messages acted on in a block, one list for each transaction, are within the budgets. -/
structure WithinBudgets (P : Platform) (handled : List (List Handled)) : Prop where
  callFuel : ∀ hs ∈ handled, ∀ h ∈ hs, ∀ r ∈ h.calls, r.2.fuelUsed ≤ maxFuelPerCall
  txFuel : ∀ hs ∈ handled, (hs.map Handled.fuel).sum ≤ maxFuelPerZcashTx
  blockFuel : (handled.flatten.map Handled.fuel).sum ≤ maxFuelPerZcashBlock
  txMessages : ∀ hs ∈ handled, hs.length ≤ maxZalkMessagesPerTx.toNat
  blockMessages : handled.flatten.length ≤ maxZalkMessagesPerBlock.toNat
  deployBytes : (handled.flatten.map (Handled.deployBytes P)).sum ≤ maxDeployBytesPerBlock
  carrierBytes : (handled.flatten.map (Handled.carrierBytes P)).sum ≤ maxCarrierBytesPerBlock

/-- The messages acted on in a block. -/
def ParsedBlock.handled (P : Platform) (config : IndexerConfig) (store : StateView)
    (parsed : ParsedBlock) : List (List Handled) :=
  handledTransactions P config store parsed.transactions (BlockAcc.init parsed.height parsed.hash)

/-- **What handling a block may cost**, from any store, also when processing panics on the way:
the messages acted on are within all budgets. The calls of the block are the calls made for them. -/
theorem withinBudgets (P : Platform) (config : IndexerConfig) (store : StateView)
    {parsed : ParsedBlock}
    (hlength : maxZalkMessagesPerBlock.toNat + parsed.transactions.length < 2 ^ 32) :
    WithinBudgets P (parsed.handled P config store) ∧
      ∀ acc, processTransactions P config store parsed = .ok acc →
        acc.results = (parsed.handled P config store).flatten.flatMap Handled.calls := by
  refine ⟨⟨?_, ?_, ?_, ?_, ?_, ?_, ?_⟩, fun acc h => results_eq_handledTransactions h⟩
  · intro hs hhs h hh r hr
    obtain ⟨tx, -, acc, rfl⟩ := mem_handledTransactions hhs
    rcases Handled.calls_cases (after_of_mem_handledOutputs hh) with hnone |
      ⟨ctx, result, after, hone, -, hused⟩
    · rw [hnone] at hr
      cases hr
    · rw [hone, List.mem_singleton] at hr
      rw [hr]
      exact hused.trans (fuelLimit_le _)
  · intro hs hhs
    obtain ⟨tx, -, acc, rfl⟩ := mem_handledTransactions hhs
    exact (Nat.le_add_left _ _).trans (pays_txFuel.outputs tx tx.outputs ⟨acc, 0, 0⟩).1
  · exact (Nat.le_add_left _ _).trans (Pays.transactions
      (fun acc => min acc.limits.fuelUsed maxFuelPerZcashBlock) pays_blockFuel _ _)
  · intro hs hhs
    obtain ⟨tx, -, acc, rfl⟩ := mem_handledTransactions hhs
    exact (Nat.le_add_left _ _).trans (length_handledOutputs P config store tx tx.outputs
      ⟨acc, 0, 0⟩ (show (0 : UInt32) ≤ maxZalkMessagesPerTx by decide))
  · exact (Nat.le_add_left _ _).trans (blockMessages_handledTransactions (n := 0) (by omega)
      _ (Nat.zero_le _))
  · exact (Nat.le_add_left _ _).trans (Pays.transactions
      (fun acc => min acc.limits.deployBytes maxDeployBytesPerBlock)
      pays_deployBytes _ _)
  · exact (Nat.le_add_left _ _).trans (Pays.transactions
      (fun acc => min acc.limits.carrierBytes maxCarrierBytesPerBlock)
      pays_carrierBytes _ _)

/-- A block with two deploys and a call, on every store. -/
theorem withinBudgets_registerBlock :
    maxZalkMessagesPerBlock.toNat + (registerBlock 0 1).transactions.length < 2 ^ 32 ∧
      ∀ (P : Platform) (config : IndexerConfig) (store : StateView),
        WithinBudgets P ((registerBlock 0 1).handled P config store) :=
  have hlength : maxZalkMessagesPerBlock.toNat + (registerBlock 0 1).transactions.length < 2 ^ 32 :=
    by decide
  ⟨hlength, fun P config store => (withinBudgets P config store hlength).1⟩

/-! ### The counter of a flooded block -/

section Flood

variable {P : Platform} {store : StateView}

/-- Transactions are handled one after the other. -/
theorem handledTransactions_append {config : IndexerConfig} {txs rest : List ParsedTransaction}
    {acc acc' : BlockAcc}
    (h : txs.foldlM (processTransaction P config store) acc = .ok acc') :
    handledTransactions P config store (txs ++ rest) acc =
      handledTransactions P config store txs acc ++
        handledTransactions P config store rest acc' := by
  induction txs generalizing acc with
  | nil =>
      rw [Except.ok.inj h]
      rfl
  | cons tx txs ih =>
      rw [List.foldlM_cons] at h
      obtain ⟨acc₁, htx, h⟩ := bind_eq_ok h
      rw [List.cons_append, handledTransactions, handledTransactions, htx]
      exact congrArg _ (ih h)

/-- A call of a register that is not there, in a build that does not check overflows: the block
counter is incremented, modulo `2 ^ 32`, and the call is made if it is within the cap then. -/
theorem processTransaction_registerTx (config : IndexerConfig) (hchecks : P.overflowChecks = false)
    (hcontract : store.getContract registerId = none) (acc : BlockAcc) :
    ∃ acc', processTransaction P config store acc (registerTx 1 0) = .ok acc' ∧
      acc'.limits.messages = acc.limits.messages + 1 ∧
      (acc.limits.messages + 1 ≤ maxZalkMessagesPerBlock →
        (handledOutputs P config store (registerTx 1 0) (registerTx 1 0).outputs
          ⟨acc, 0, 0⟩).length = 1) := by
  have hmessage : outputMessage (registerScript 0) = some (.call ⟨registerId, 0, []⟩) := rfl
  have hplain : ∀ a : UInt32, plainAdd32 P.overflowChecks a 1 = .ok (a + 1) := by
    intro a
    rw [plainAdd32, hchecks, if_neg Bool.false_ne_true, ite_self]
  have hcall : ∀ acc : TxAcc, ∃ acc', handleMessage P config store acc (registerTx 1 0) 0
      (.call ⟨registerId, 0, []⟩) = .ok acc' := by
    intro acc
    rw [handleMessage, handleCall, executeCall]
    split
    · exact ⟨_, rfl⟩
    · have hexec : execute P.engine P.overflowChecks
          (callContext acc (registerTx 1 0) registerId 0 []) store = .ok .contractNotFound :=
        (execute_contractNotFound_iff rfl).mpr hcontract
      dsimp only
      rw [hexec]
      exact ⟨_, rfl⟩
  rw [processTransaction]
  simp only [registerTx, processOutputs, handledOutputs, hmessage, hplain, bind, Except.bind]
  split
  · rename_i hcaps
    refine ⟨_, rfl, rfl, fun hle => ?_⟩
    rcases hcaps with htx | hblock
    · exact absurd htx (by decide)
    · exact absurd hblock (UInt32.not_lt.mpr hle)
  · obtain ⟨acc', hacc'⟩ := hcall { (TxAcc.mk acc 0 0).setLimits { acc.limits with
      messages := acc.limits.messages + 1 } with messages := 0 + 1 }
    have hsame := blockMessages_handleMessage hacc'
    rw [registerTx] at hacc'
    rw [hacc']
    exact ⟨acc'.block, rfl, hsame, fun _ => rfl⟩

/-- Repeating the transaction moves the counter on; within the cap, all messages are acted on. -/
theorem foldlM_replicate_registerTx (config : IndexerConfig) (hchecks : P.overflowChecks = false)
    (hcontract : store.getContract registerId = none) (n : ℕ) (acc : BlockAcc) :
    ∃ acc', (List.replicate n (registerTx 1 0)).foldlM (processTransaction P config store) acc =
        .ok acc' ∧
      acc'.limits.messages = acc.limits.messages + UInt32.ofNat n ∧
      (acc.limits.messages.toNat + n ≤ maxZalkMessagesPerBlock.toNat →
        (handledTransactions P config store (List.replicate n (registerTx 1 0)) acc).flatten.length
          = n) := by
  induction n generalizing acc with
  | zero => exact ⟨acc, rfl, (UInt32.add_zero _).symm, fun _ => rfl⟩
  | succ n ih =>
      obtain ⟨acc₁, hacc₁, hmessages₁, hlength₁⟩ :=
        processTransaction_registerTx config hchecks hcontract acc
      obtain ⟨acc', hacc', hmessages, hlength⟩ := ih acc₁
      refine ⟨acc', ?_, ?_, fun hle => ?_⟩
      · rw [List.replicate_succ, List.foldlM_cons, hacc₁]
        exact hacc'
      · rw [hmessages, hmessages₁, UInt32.add_assoc, UInt32.ofNat_add, UInt32.add_comm 1]
        rfl
      · have hcap : maxZalkMessagesPerBlock.toNat = 4096 := rfl
        have hone : (1 : UInt32).toNat = 1 := rfl
        have hstep : (acc.limits.messages + 1).toNat = acc.limits.messages.toNat + 1 := by
          rw [UInt32.toNat_add]
          omega
        have hfirst := hlength₁ (UInt32.le_iff_toNat_le.mpr (by omega))
        have hrest := hlength (by rw [hmessages₁]; omega)
        rw [List.replicate_succ, handledTransactions, hacc₁, List.flatten_cons, List.length_append,
          hfirst]
        dsimp only
        omega

end Flood

/-- A block of `2 ^ 32` transactions that call the register. -/
def floodBlock : ParsedBlock := ⟨2, Bytes32.replicate 2, List.replicate (2 ^ 32) (registerTx 1 0)⟩

/-- **The counter of the block wraps**: in a build that does not check overflows, one message more
than the cap of a flooded block is acted on, whatever the hash functions are. -/
theorem not_withinBudgets_floodBlock :
    ¬ ∃ (H : Hashing) (json : Execution → Except String Bytes),
      let P := { registerPlatform H json with overflowChecks := false }
      WithinBudgets P (floodBlock.handled P regtestConfig Ledger.empty.view) := by
  rintro ⟨H, json, hwithin⟩
  have hle := hwithin.blockMessages
  set P := { registerPlatform H json with overflowChecks := false } with hP
  have hchecks : P.overflowChecks = false := rfl
  have hcontract : Ledger.empty.view.getContract registerId = none := rfl
  have hcap : maxZalkMessagesPerBlock.toNat = 4096 := rfl
  obtain ⟨acc₁, hacc₁, hmessages₁, hlength₁⟩ := foldlM_replicate_registerTx
    regtestConfig hchecks hcontract 4096 (BlockAcc.init 2 (Bytes32.replicate 2))
  obtain ⟨acc₂, hacc₂, hmessages₂, -⟩ := foldlM_replicate_registerTx
    regtestConfig hchecks hcontract (2 ^ 32 - 4097) acc₁
  obtain ⟨acc₃, hacc₃, -, hlength₃⟩ :=
    processTransaction_registerTx regtestConfig hchecks hcontract acc₂
  have hfirst := hlength₁ (by decide)
  have hwrapped : acc₂.limits.messages + 1 = 0 := by
    rw [hmessages₂, hmessages₁]
    decide
  have hlast := hlength₃ (by rw [hwrapped]; decide)
  rw [ParsedBlock.handled, floodBlock,
    show 2 ^ 32 = 4096 + ((2 ^ 32 - 4097) + 1) by norm_num, List.replicate_add, List.replicate_add,
    handledTransactions_append hacc₁, handledTransactions_append hacc₂, List.flatten_append,
    List.flatten_append, List.length_append, List.length_append, hfirst, List.replicate_one,
    handledTransactions, List.flatten_cons, List.length_append, hlast] at hle
  omega

end Zalkanes
