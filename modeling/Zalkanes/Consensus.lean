import Mathlib

/-!
# Consensus Constants

The constants of protocol v0 that the modelled functions read. Byte limits that the code compares
with `u32` values are `UInt32`; budgets that it counts in `u64` are natural numbers, and every
addition on them in the code saturates.
-/

namespace Zalkanes

/-! ### WASM module limits -/

/-- The most bytes of code that a contract may have, 256 KiB. -/
def maxCodeBytes : UInt32 := 262144

/-- The most carrier chunks of one contract: `262144 / 1400`, rounded up. -/
def maxChunks : UInt8 := 188

/-- The most pages of 64 KiB of linear memory. -/
def maxLinearMemoryPages : UInt32 := 256

/-- The most elements of a table. -/
def maxTableElements : UInt32 := 16384

/-- The most globals of a module. -/
def maxGlobals : UInt32 := 512

/-- The most functions of a module. -/
def maxFunctions : UInt32 := 4096

/-- The most imports of a module. -/
def maxImports : UInt32 := 64

/-- The most exports of a module. -/
def maxExports : UInt32 := 64

/-! ### Execution limits -/

/-- The fuel of one call. -/
def maxFuelPerCall : ℕ := 10000000

/-- The fuel of all calls of a transaction together. -/
def maxFuelPerZcashTx : ℕ := 100000000

/-- The fuel of all calls of a block together. -/
def maxFuelPerZcashBlock : ℕ := 1000000000

/-- The depth to which contracts may call each other. -/
def maxCallDepth : UInt32 := 16

/-- The most messages that count in a transaction. -/
def maxZalkMessagesPerTx : UInt32 := 16

/-- The most messages that count in a block. -/
def maxZalkMessagesPerBlock : UInt32 := 4096

/-- The most bytes that come by carrier in a block, code and inputs together. -/
def maxCarrierBytesPerBlock : ℕ := 4 * 1024 * 1024

/-- The most bytes of code that are deployed in a block. -/
def maxDeployBytesPerBlock : ℕ := 4 * 1024 * 1024

/-! ### Storage and I/O limits -/

/-- The most bytes of a storage key. -/
def maxStorageKeyBytes : UInt32 := 256

/-- The most bytes of a storage value. -/
def maxStorageValueBytes : UInt32 := 65536

/-- The most keys that a call may write. -/
def maxStorageWritesPerCall : UInt32 := 256

/-- The most bytes of input that fit in the OP_RETURN output of a CALL. -/
def maxCallInlineBytes : UInt32 := 38

/-- The most bytes of input that come by carrier. -/
def maxCallInputBytes : UInt32 := 65536

/-- The most carrier chunks of one call: `65536 / 1400`, rounded up. -/
def maxCallCarrierChunks : UInt8 := 47

/-- The most bytes that a call returns. -/
def maxReturnDataBytes : UInt32 := 65536

/-! ### Protocol wire format -/

/-- Magic bytes identifying a protocol message in OP_RETURN: `ZALK`. -/
def protocolMagic : List UInt8 := [0x5A, 0x41, 0x4C, 0x4B]

/-- The version byte of protocol v0. -/
def protocolV0 : UInt8 := 0x00

/-- The type byte of a DEPLOY. -/
def msgDeploy : UInt8 := 0x01

/-- The type byte of a CALL with its input inline. -/
def msgCall : UInt8 := 0x02

/-- The type byte of a CALL whose input comes by carrier. -/
def msgCallCarrier : UInt8 := 0x03

/-! ### Activation heights -/

/-- Mainnet activation height: never, before the external audit. -/
def mainnetActivationHeight : Option UInt32 := none

/-- The test network has a height of its own. -/
def testnetActivationHeight : Option UInt32 := some 4346500

/-- Regtest starts at its first block. -/
def regtestActivationHeight : Option UInt32 := some 1

/-! ### Blake2b personalization strings -/

/-- Personalization for contract ids: `ZalkContractId0` and a blank. -/
def contractIdPersonalization : List UInt8 :=
  [0x5A, 0x61, 0x6C, 0x6B, 0x43, 0x6F, 0x6E, 0x74, 0x72, 0x61, 0x63, 0x74, 0x49, 0x64, 0x30, 0x20]

/-- Personalization for state leaves: `ZalkStateLeaf0` and two blanks. -/
def stateLeafPersonalization : List UInt8 :=
  [0x5A, 0x61, 0x6C, 0x6B, 0x53, 0x74, 0x61, 0x74, 0x65, 0x4C, 0x65, 0x61, 0x66, 0x30, 0x20, 0x20]

/-- Personalization for the state root: `ZalkStateRoot0` and two blanks. -/
def stateRootPersonalization : List UInt8 :=
  [0x5A, 0x61, 0x6C, 0x6B, 0x53, 0x74, 0x61, 0x74, 0x65, 0x52, 0x6F, 0x6F, 0x74, 0x30, 0x20, 0x20]

end Zalkanes
