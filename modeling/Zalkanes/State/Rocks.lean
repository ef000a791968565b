import Zalkanes.State.UndoCodec

/-!
# The RocksDB Backend

RocksDB is modelled as an ordered map from byte strings to byte strings, on which a write batch
acts at once. Keys are written through `DbKey`, one constructor for each key function of the
source; what a database holds is arbitrary bytes, and every reader makes the checks of the
source. Execution records are saved as the text that `serde_json` makes of them.

## Main results

* `DbKey.bytes_injective`: the keyspaces do not overlap.
* `RocksState.get_write`: what a batch leaves at a key.
* `RocksState.rollbackTo_eq_getLast_trace`: a rollback ends in the last state of its trace.
-/

namespace Zalkanes

open Lib

/-! ### Execution records as JSON -/

/-- A JSON array, without spaces. -/
def jsonArray (items : List String) : String := "[" ++ String.intercalate "," items ++ "]"

/-- Bytes are arrays of numbers. -/
def jsonBytes (bs : Bytes) : String := jsonArray (bs.map fun b => toString b.toNat)

/-- A character inside a JSON string: quotes, backslashes and control characters are escaped. -/
def jsonChar (c : Char) : String :=
  match c.toNat with
  | 0x22 => "\\\""
  | 0x5C => "\\\\"
  | 0x08 => "\\b"
  | 0x09 => "\\t"
  | 0x0A => "\\n"
  | 0x0C => "\\f"
  | 0x0D => "\\r"
  | n =>
      if n < 0x20 then
        "\\u00" ++ String.ofList [Nat.digitChar (n / 16), Nat.digitChar (n % 16)]
      else c.toString

/-- A JSON string. -/
def jsonString (s : String) : String := "\"" ++ String.join (s.toList.map jsonChar) ++ "\""

/-- A JSON boolean. -/
def jsonBool (b : Bool) : String := if b then "true" else "false"

/-- A field of a JSON object. -/
def jsonField (name value : String) : String := jsonString name ++ ":" ++ value

/-- `serde_json::to_vec` on an execution record: fields in the order of the structure. -/
def Execution.json (e : Execution) : Bytes :=
  let fields := [
    jsonField "txid" (jsonBytes e.txid.bytes),
    jsonField "contract_id" (jsonBytes e.contractId.bytes),
    jsonField "opcode" (toString e.opcode.toNat),
    jsonField "success" (jsonBool e.success),
    jsonField "fuel_used" (toString e.fuelUsed),
    jsonField "return_data" (jsonBytes e.returnData),
    jsonField "error" ((e.error.map jsonString).getD "null"),
    jsonField "state_root_before" (jsonBytes e.stateRootBefore.bytes),
    jsonField "state_root_after" (jsonBytes e.stateRootAfter.bytes),
    jsonField "block_height" (toString e.blockHeight.toNat),
    jsonField "block_hash" (jsonBytes e.blockHash.bytes)]
  ("\x7b" ++ String.intercalate "," fields ++ "\x7d").toUTF8.toList

/-! ### Keys -/

/-- The key of a storage entry, under `s`. -/
def storageDbKey (contract : ContractId) (key : Bytes) : Bytes :=
  0x73 :: (contract.bytes ++ key)

/-- The key of a contract, under `c`. -/
def contractDbKey (contract : ContractId) : Bytes := 0x63 :: contract.bytes

/-- The key of the record of a height, under `h`. -/
def heightDbKey (height : BlockHeight) : Bytes := 0x68 :: be32 height

/-- The key of the journal of a height, under `u`. -/
def undoDbKey (height : BlockHeight) : Bytes := 0x75 :: be32 height

/-- The key of the execution record of a transaction, under `e`. -/
def execDbKey (txid : TxId) : Bytes := 0x65 :: txid.bytes

/-- The key of the list of the executions of a height, under `x`. -/
def execHeightDbKey (height : BlockHeight) : Bytes := 0x78 :: be32 height

/-- The keys the backend writes. The last three are `m:h`, `m:b` and `m:r`. -/
inductive DbKey where
  | contract (id : ContractId)
  | storage (id : ContractId) (key : Bytes)
  | height (h : BlockHeight)
  | undo (h : BlockHeight)
  | exec (txid : TxId)
  | execHeight (h : BlockHeight)
  | metaHeight
  | metaHash
  | metaRoot
  deriving DecidableEq

/-- The bytes of a key. -/
def DbKey.bytes : DbKey → Bytes
  | contract id => contractDbKey id
  | storage id key => storageDbKey id key
  | height h => heightDbKey h
  | undo h => undoDbKey h
  | exec txid => execDbKey txid
  | execHeight h => execHeightDbKey h
  | metaHeight => [0x6D, 0x3A, 0x68]
  | metaHash => [0x6D, 0x3A, 0x62]
  | metaRoot => [0x6D, 0x3A, 0x72]

/-- **The keyspaces do not overlap**, and within one the key determines its parts. -/
theorem DbKey.bytes_injective : Function.Injective DbKey.bytes := by
  intro a b h
  cases a <;> cases b <;>
    simp_all [DbKey.bytes, contractDbKey, storageDbKey, heightDbKey, undoDbKey, execDbKey,
      execHeightDbKey, Bytes32.ext_iff, be32_injective.eq_iff]
  case storage.storage => exact List.append_inj h (by simp)

/-! ### The database -/

/-- An ordered byte-string map. -/
abbrev Db := OrdMap Bytes Bytes

/-- Writes that RocksDB applies at once, in order. -/
abbrev WriteBatch := List (Write DbKey Bytes)

/-- A persistent state store. -/
structure RocksState where
  db : Db
  deriving DecidableEq

namespace RocksState

/-- A store with an empty database. -/
def fresh : RocksState := ⟨∅⟩

/-- What the database holds at a key. -/
def get (s : RocksState) (k : DbKey) : Option Bytes := s.db[k.bytes]?

/-- Apply a batch. -/
def write (s : RocksState) (batch : WriteBatch) : RocksState :=
  ⟨applyAll s.db (batch.map (Write.map DbKey.bytes id))⟩

/-- What a batch leaves at a key. -/
theorem get_write (s : RocksState) (batch : WriteBatch) (k : DbKey) :
    (s.write batch).get k = (lastWrite batch k).getD (s.get k) := by
  rw [get, write, getElem?_applyAll, lastWrite_map DbKey.bytes_injective]
  cases lastWrite batch k <;> simp [get]

/-- A batch leaves alone what is not a key of the backend. -/
theorem getElem?_write_of_forall_ne (s : RocksState) (batch : WriteBatch) {k : Bytes}
    (hk : ∀ dk : DbKey, dk.bytes ≠ k) : (s.write batch).db[k]? = s.db[k]? := by
  rw [write, getElem?_applyAll, lastWrite_eq_none_iff.mpr, Option.getD_none]
  intro w hw
  obtain ⟨v, -, rfl⟩ := List.mem_map.mp hw
  rw [Write.key_map]
  exact hk v.key

/-! ### Readers -/

/-- The value under a contract's key: code hash, then WASM. -/
def contractValue (contract : CodeHash × Bytes) : Bytes := contract.1.bytes ++ contract.2

/-- The value under a height's key: block hash, then state root. -/
def recordValue (rec : HeightRecord) : Bytes := rec.zcashBlockHash.bytes ++ rec.stateRoot.bytes

/-- The contract loop keeps a 33-byte key under `c` with a value of at least 32 bytes. -/
def visitContract : Bytes × Bytes → Option (ContractId × CodeHash × Bytes)
  | ([], _) => none
  | (tag :: rest, value) =>
      if tag = 0x63 then do
        let cid ← Bytes32.ofBytes? rest
        let (codeHash, wasm) ← readBytes32 value
        return (cid, codeHash, wasm)
      else none

/-- The storage loop keeps a key under `s` of at least 33 bytes. -/
def visitStorage : Bytes × Bytes → Option (ContractId × Bytes × Bytes)
  | ([], _) => none
  | (tag :: rest, value) =>
      if tag = 0x73 then (readBytes32 rest).map fun (cid, key) => (cid, key, value)
      else none

/-- The history loop keeps a 5-byte key under `h` with a 64-byte value. -/
def visitHeight : Bytes × Bytes → Option HeightRecord
  | ([], _) => none
  | (tag :: rest, value) =>
      if tag = 0x68 ∧ rest.length = 4 then do
        let (hash, value) ← readBytes32 value
        let root ← Bytes32.ofBytes? value
        return ⟨ofBe32 rest, hash, root⟩
      else none

/-- A contract, if its value has a code hash in front. -/
def getContract (s : RocksState) (id : ContractId) : Option (CodeHash × Bytes) :=
  (s.get (.contract id)).bind readBytes32

/-- A storage entry. -/
def storageGet (s : RocksState) (contract : ContractId) (key : Bytes) : Option Bytes :=
  s.get (.storage contract key)

/-- What the indexer reads: the keys, and the scans of the two prefixes. -/
def view (s : RocksState) : StateView where
  hasContract id := (s.get (.contract id)).isSome
  getContract := s.getContract
  storageGet := s.storageGet
  contracts := s.db.scanFrom [0x63] visitContract
  storage := s.db.scanFrom [0x73] visitStorage

/-- The indexed height, if it has four bytes. -/
def indexedHeight (s : RocksState) : Option BlockHeight :=
  (s.get .metaHeight).bind fun v => if v.length = 4 then some (ofBe32 v) else none

/-- The hash of the indexed block, if it has 32 bytes. -/
def indexedBlockHash (s : RocksState) : Option BlockHash :=
  (s.get .metaHash).bind Bytes32.ofBytes?

/-- The root that was written with the last block, if it has 32 bytes. -/
def persistedStateRoot (s : RocksState) : Option StateRoot :=
  (s.get .metaRoot).bind Bytes32.ofBytes?

/-- The records of all heights, in the order of their keys. -/
def heightHistory (s : RocksState) : List HeightRecord :=
  s.db.scanFrom [0x68] visitHeight

/-! ### Commit -/

/-- The last value a commit upserts at each key. -/
def upserted (commit : BlockCommit) : OrdMap (ContractId × Bytes) Bytes :=
  commit.upserts.foldl (fun m (cid, key, value) => m.insert (cid, key) value) ∅

/-- The value a delete effectively removes: the commit's own upsert, else the stored value. -/
def effective (s : RocksState) (commit : BlockCommit) (cid : ContractId) (key : Bytes) :
    Option Bytes :=
  (upserted commit)[(cid, key)]?.or (s.storageGet cid key)

/-- The data writes of a commit: every deploy, every upsert, and the deletes that remove
something. -/
def dataBatch (s : RocksState) (commit : BlockCommit) : WriteBatch :=
  commit.deploys.map (fun (id, codeHash, wasm) =>
      .put (.contract id) (contractValue (codeHash, wasm))) ++
    commit.upserts.map (fun (cid, key, value) => .put (.storage cid key) value) ++
    commit.deletes.filterMap fun (cid, key) =>
      (s.effective commit cid key).map fun _ => .del (.storage cid key)

/-- The journal entries of the deploys, with the contracts they replace. -/
def deployOps (s : RocksState) (commit : BlockCommit) : List UndoOp :=
  commit.deploys.map fun (id, _, _) => .deploy id (s.getContract id)

/-- The journal entries of the upserts, with the values stored before the commit. -/
def setOps (s : RocksState) (commit : BlockCommit) : List UndoOp :=
  commit.upserts.map fun (cid, key, _) => .set cid key (s.storageGet cid key)

/-- The journal entries of the deletes that remove something, with what they remove. -/
def deleteOps (s : RocksState) (commit : BlockCommit) : List UndoOp :=
  commit.deletes.filterMap fun (cid, key) =>
    (s.effective commit cid key).map fun prev => .delete cid key prev

/-- The journal of a commit, read from the store before it. -/
def journal (s : RocksState) (commit : BlockCommit) : List UndoOp :=
  s.deployOps commit ++ s.setOps commit ++ s.deleteOps commit

/-- The journal, metadata and height record that go into the same batch. -/
def recordBatch (commit : BlockCommit) (undo : List UndoOp) (root : StateRoot) : WriteBatch :=
  [.put (.undo commit.height) (encodeUndo undo),
    .put .metaHeight (be32 commit.height),
    .put .metaHash commit.zcashBlockHash.bytes,
    .put (.height commit.height)
      (recordValue ⟨commit.height, commit.zcashBlockHash, root⟩),
    .put .metaRoot root.bytes]

/-- Two lowercase hexadecimal digits. -/
def hexByte (b : UInt8) : String :=
  String.ofList [Nat.digitChar (b.toNat / 16), Nat.digitChar (b.toNat % 16)]

/-- Lower-case hex. -/
def asHex (a : Bytes32) : String := String.join (a.bytes.map hexByte)

/-- One batch for the data, the journal and the metadata, checked against the root of the result. -/
def commitBlock (H : Hashing) (s : RocksState) (commit : BlockCommit) :
    RocksState × Except String StateRoot :=
  let undo := s.journal commit
  let root := projectedRoot H s.view commit
  let s := s.write (s.dataBatch commit ++ recordBatch commit undo root)
  let applied := computeRoot H s.view
  if applied ≠ root then
    (s, .error ("post-commit state root mismatch at height " ++ toString commit.height ++
      ": projected " ++ asHex root ++ " != applied " ++ asHex applied))
  else (s, .ok root)

/-! ### Rollback -/

/-- What undoing one journal entry writes. -/
def undoWrite : UndoOp → Write DbKey Bytes
  | .set contract key (some v) => .put (.storage contract key) v
  | .set contract key none => .del (.storage contract key)
  | .delete contract key prev => .put (.storage contract key) prev
  | .deploy contract (some (codeHash, wasm)) =>
      .put (.contract contract) (contractValue (codeHash, wasm))
  | .deploy contract none => .del (.contract contract)

/-- The batch that undoes a height. -/
def undoBatch (h : BlockHeight) (ops : List UndoOp) : WriteBatch :=
  ops.reverse.map undoWrite ++ [.del (.height h), .del (.undo h)]

/-- Undo one height; a height without a journal is skipped. -/
def undoHeight (s : RocksState) (h : BlockHeight) : RocksState :=
  match s.get (.undo h) with
  | some ops => s.write (undoBatch h (decodeUndo ops))
  | none => s

/-- The three writes that restore the metadata, each atomic on its own. -/
def metadataWrites (s : RocksState) : List WriteBatch :=
  match s.heightHistory.getLast? with
  | some rec =>
      [[.put .metaHeight (be32 rec.height)], [.put .metaHash rec.zcashBlockHash.bytes],
        [.put .metaRoot rec.stateRoot.bytes]]
  | none => [[.del .metaHeight], [.del .metaHash], [.del .metaRoot]]

/-- The recorded heights above the target, in descending order. -/
def heightsAbove (s : RocksState) (target : BlockHeight) : List BlockHeight :=
  ((s.heightHistory.map HeightRecord.height).filter fun h => h > target).insertionSort (· ≥ ·)

/-- One batch for each height above the target, and then the metadata. -/
def rollbackTo (s : RocksState) (target : BlockHeight) : RocksState × Except String Unit :=
  let s := (s.heightsAbove target).foldl undoHeight s
  (s.metadataWrites.foldl write s, .ok ())

/-- The durable states of a rollback, from the one it starts in: the database is in one of them
when the process dies between two of its writes. -/
def rollbackTrace (s : RocksState) (target : BlockHeight) : List RocksState :=
  let undone := (s.heightsAbove target).foldl undoHeight s
  (s.heightsAbove target).scanl undoHeight s ++
    (undone.metadataWrites.scanl write undone).tail

/-! ### Executions -/

/-- The records are encoded before any of them is written. -/
def saveExecutions (json : Execution → Except String Bytes) (s : RocksState)
    (executions : List Execution) : RocksState × Except String Unit :=
  match executions.mapM fun e => (json e).map fun bytes => (e, bytes) with
  | .error e => (s, .error e)
  | .ok encoded =>
      (s.write (encoded.flatMap fun (e, bytes) =>
        [.put (.exec e.txid) bytes, .put (.execHeight e.blockHeight) []]), .ok ())

/-- Records that encode are saved. -/
theorem saveExecutions_ok {json : Execution → Except String Bytes}
    (hjson : ∀ execution, ∃ bytes, json execution = .ok bytes) (s : RocksState)
    (executions : List Execution) : (s.saveExecutions json executions).2 = .ok () := by
  have hencode : ∀ es : List Execution,
      ∃ encoded, (es.mapM fun e => (json e).map fun bytes => (e, bytes)) = .ok encoded := by
    intro es
    induction es with
    | nil => exact ⟨[], rfl⟩
    | cons e es ih =>
        obtain ⟨bytes, hbytes⟩ := hjson e
        obtain ⟨encoded, hencoded⟩ := ih
        refine ⟨(e, bytes) :: encoded, ?_⟩
        rw [List.mapM_cons, hbytes, hencoded]
        rfl
  obtain ⟨encoded, hencoded⟩ := hencode executions
  rw [saveExecutions, hencoded]

/-- The backend as a state store. -/
def store (H : Hashing) (json : Execution → Except String Bytes) : StateStore RocksState where
  view := view
  indexedHeight := indexedHeight
  indexedBlockHash := indexedBlockHash
  persistedStateRoot := persistedStateRoot
  heightHistory := heightHistory
  commitBlock := commitBlock H
  rollbackTo := rollbackTo
  saveExecutions := saveExecutions json

/-- **A rollback ends in the last state of its trace.** -/
theorem rollbackTo_eq_getLast_trace (s : RocksState) (target : BlockHeight) :
    (s.rollbackTrace target).getLast? = some (s.rollbackTo target).1 := by
  have hscan : ∀ {β : Type} (f : RocksState → β → RocksState) (l : List β) (s : RocksState),
      (l.scanl f s).getLast? = some (l.foldl f s) := by
    intro β f l s
    induction l generalizing s with
    | nil => rfl
    | cons b l ih =>
        rw [List.scanl_cons, List.foldl_cons, List.getLast?_cons, ih, Option.getD_some]
  rw [rollbackTrace, rollbackTo]
  have htail := hscan write
    ((s.heightsAbove target).foldl undoHeight s).metadataWrites
    ((s.heightsAbove target).foldl undoHeight s)
  generalize hundone : (s.heightsAbove target).foldl undoHeight s = undone at htail ⊢
  have hne : undone.metadataWrites ≠ [] := by
    rw [metadataWrites]
    cases undone.heightHistory.getLast? <;> simp
  obtain ⟨batch, batches, hbatches⟩ := List.exists_cons_of_ne_nil hne
  rw [hbatches, List.scanl_cons] at htail ⊢
  rw [List.tail_cons, List.getLast?_append]
  rw [List.getLast?_cons] at htail
  rw [← htail]
  cases hlast : (List.scanl write (undone.write batch) batches).getLast? with
  | some r => simp
  | none => simp [List.getLast?_eq_none_iff] at hlast

end RocksState

end Zalkanes
