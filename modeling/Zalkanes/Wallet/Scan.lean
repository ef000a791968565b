import Zalkanes.Indexer.Sync
import Zalkanes.Wallet.Outside

/-!
# The Wallet Scan

`scan_to_tip` stores the blocks from the wallet's birthday up to the tip of an upstream node, and
rewinds what a reorg has replaced. It asks the node for one thing at a time, each by its height, and
is suspended until the answer comes (`ScanAwait`); in between the node may replace its chain. The
wallet database and the block decoder are left open, as functions under the laws they are documented
to have (`ScanDb.Lawful`, `ScanSetting`).

After it has stored a block, and after a rewind, the scan does not keep the hash that the wallet
holds: it asks the node for the hash at that height again. So the blocks are linked as long as the
node still has the same block there.

## Main definitions

* `ScanAwait.resume`: what a scan does from the answer to one call up to its next call.
* `ScanSetting.RereadsStored`: the condition on the answers after a put and after a rewind.
* `ScanSetting.Integrity`: below a canonical scanned tip, every stored block is canonical.
-/

namespace Zalkanes

open Lib

/-! ### The node -/

/-- The state of the note commitment trees at the end of a block, as far as it names the block. -/
structure ChainState where
  height : BlockHeight
  hash : BlockHash
  deriving DecidableEq

/-- What the scan reads of a block. -/
structure BlockHeader where
  hash : BlockHash
  prevBlock : BlockHash
  deriving DecidableEq

/-- What the calls of a scan return at some moment. -/
structure CanonicalChainSource where
  canonicalTip : Except String CanonicalTip
  blockHash : BlockHeight → Except String BlockHash
  /-- `getblock`, raw. -/
  getBlock : BlockHeight → Except String Bytes
  treeState : BlockHeight → Except String ChainState

/-- What the node answers when this chain is canonical. -/
def Chain.canonicalSource (chain : Chain) : CanonicalChainSource where
  canonicalTip := .ok chain.tip
  blockHash := chain.source.blockHash
  getBlock height :=
    match chain.blocks[height.toNat]? with
    | some block => .ok block.raw
    | none => .error "block height not in best chain"
  treeState height := (chain.source.blockHash height).map fun hash => ⟨height, hash⟩

/-- The node cannot be reached. -/
def CanonicalChainSource.unreachable (e : String) : CanonicalChainSource where
  canonicalTip := .error e
  blockHash _ := .error e
  getBlock _ := .error e
  treeState _ := .error e

/-- Every block of the chain names the one before it. -/
def Chain.LinkedBy (parent : BlockHash → BlockHash) (chain : Chain) : Prop :=
  ∀ i block block', chain.blocks[i]? = some block → chain.blocks[i + 1]? = some block' →
    block.hash = parent block'.hash

/-! ### The wallet database -/

/-- The wallet database and the scanner, with their keys, nullifiers and scanned blocks. -/
structure ScanDb (σ K N B : Type) where
  unifiedFullViewingKeys : σ → Except String K
  unspentNullifiers : σ → Except String N
  accountBirthday : σ → Except String BlockHeight
  blockFullyScanned : σ → Except String (Option BlockRef)
  getBlockHash : σ → BlockHeight → Except String (Option BlockHash)
  /-- `decrypt_block` and `scan_block`. -/
  scanBlock : K → N → ChainState → BlockHeight → BlockHeader → Except String B
  updateWith : N → B → N
  putBlocks : σ → ChainState → B → σ × Except String Unit
  rewindToChainState : σ → ChainState → σ × Except String Unit
  updateChainTip : σ → BlockHeight → σ × Except String Unit

/-- What a scan relies on. `blocks` says which block hashes a wallet stores; a call that fails
stores nothing. -/
structure ScanDb.Lawful {σ K N B : Type} (D : ScanDb σ K N B)
    (blocks : σ → BlockHeight → Option BlockHash) (birthday : BlockHeight) : Prop where
  accountBirthday : ∀ s b, D.accountBirthday s = .ok b → b = birthday
  /-- The last block below which every one from the birthday on is stored. -/
  fullyScanned_some : ∀ s ref, D.blockFullyScanned s = .ok (some ref) →
    blocks s ref.height = some ref.hash ∧
      ∀ h : BlockHeight, h.toNat = ref.height.toNat + 1 → blocks s h = none
  fullyScanned_none : ∀ s, D.blockFullyScanned s = .ok none → blocks s birthday = none
  getBlockHash : ∀ s h r, D.getBlockHash s h = .ok r → r = blocks s h
  /-- The header hash of a scanned block is stored; the block has to come right after the state it
  is scanned from. -/
  put_ok : ∀ s s' keys nullifiers source height header scanned,
    D.scanBlock keys nullifiers source height header = .ok scanned →
    D.putBlocks s source scanned = (s', .ok ()) →
      height.toNat = source.height.toNat + 1 ∧ header.prevBlock = source.hash ∧
        blocks s' = Function.update (blocks s) height (some header.hash)
  put_error : ∀ s s' source scanned e, D.putBlocks s source scanned = (s', .error e) →
    blocks s' = blocks s
  rewind_ok : ∀ s s' state, D.rewindToChainState s state = (s', .ok ()) →
    ∀ h, blocks s' h = if h ≤ state.height then blocks s h else none
  rewind_error : ∀ s s' state e, D.rewindToChainState s state = (s', .error e) →
    blocks s' = blocks s
  updateChainTip : ∀ s h, blocks (D.updateChainTip s h).1 = blocks s

/-! ### Scans -/

/-- The locals of a scan. -/
structure ScanLocals (K : Type) where
  target : CanonicalTip
  keys : K
  birthday : BlockHeight
  deriving DecidableEq

/-- The variables of the loop. -/
structure ScanLoop (N : Type) where
  height : BlockHeight
  prevHash : Option BlockHash
  nullifiers : N
  deriving DecidableEq

/-- The call that a suspended scan waits for. -/
inductive ScanAwait (K N : Type) where
  /-- `canonical_tip()`, at the start. -/
  | canonicalTip
  /-- `block_hash(boundary)` before the loop. -/
  | boundaryHash (locals : ScanLocals K) (loop : ScanLoop N) (boundary : BlockHeight)
      (walletBoundaryHash : Option BlockHash)
  /-- `block_hash(height)` in `rewind_to_common_ancestor`. -/
  | zebraHash (locals : ScanLocals K) (height : BlockHeight) (walletHash : Option BlockHash)
  /-- `tree_state(height)` in `rewind_to_common_ancestor`. -/
  | ancestorState (locals : ScanLocals K) (height : BlockHeight)
  /-- `block_hash(height - 1)` after a rewind. -/
  | rewoundHash (locals : ScanLocals K) (height below : BlockHeight) (nullifiers : N)
  /-- `tree_state(height - 1)` in the loop. -/
  | fromState (locals : ScanLocals K) (loop : ScanLoop N) (below : BlockHeight)
  /-- The `getblockhash` of `block(height)`. -/
  | expectedHash (locals : ScanLocals K) (loop : ScanLoop N) (fromState : ChainState)
  /-- The `getblock` of `block(height)`. -/
  | getBlock (locals : ScanLocals K) (loop : ScanLoop N) (fromState : ChainState)
      (expected : BlockHash)
  /-- `block_hash(height)` after the block was put. -/
  | putHash (locals : ScanLocals K) (height : BlockHeight) (nullifiers : N)
  /-- `block_hash(target.height)` at the end. -/
  | finalHash (locals : ScanLocals K)
  deriving DecidableEq

/-- What a scan is doing. -/
inductive ScanControl (K N : Type) where
  /-- No scan has started yet. -/
  | idle
  | awaiting (await : ScanAwait K N)
  /-- The scan has returned; where it succeeded, the wallet plans against this tip now. -/
  | returned (result : Except String CanonicalTip)
  | panicked (p : Panic)
  deriving DecidableEq

/-- The call that the scan waits for, if it does. -/
def ScanControl.await? {K N : Type} : ScanControl K N → Option (ScanAwait K N)
  | awaiting await => some await
  | _ => none

section Scan

variable {σ K N B : Type}

/-- `r.map_err(..)?`: an error ends the scan. -/
def orFail {α : Type} (store : σ) (r : Except String α) (what : String)
    (next : α → σ × ScanControl K N) : σ × ScanControl K N :=
  match r with
  | .error e => (store, .returned (.error (what ++ e)))
  | .ok a => next a

/-- A panic ends the scan. -/
def orAbort {α : Type} (store : σ) (r : Except Panic α) (next : α → σ × ScanControl K N) :
    σ × ScanControl K N :=
  match r with
  | .error p => (store, .panicked p)
  | .ok a => next a

variable (D : ScanDb σ K N B) (overflowChecks : Bool)
  (readBlock : Bytes → Except String BlockHeader)

/-- The head of the loop over the heights up to the tip, and what comes after it. -/
def nextScan (locals : ScanLocals K) (loop : ScanLoop N) (store : σ) : σ × ScanControl K N :=
  if loop.height ≤ locals.target.height then
    orAbort store (plainSub32 overflowChecks loop.height 1) fun below =>
      (store, .awaiting (.fromState locals loop below))
  else
    let (store, updated) := D.updateChainTip store locals.target.height
    orFail store updated "update_chain_tip: " fun () => (store, .awaiting (.finalHash locals))

/-- The head of the loop in `rewind_to_common_ancestor`. -/
def rewindToCommonAncestor (locals : ScanLocals K) (height : BlockHeight) (store : σ) :
    σ × ScanControl K N :=
  orFail store (D.getBlockHash store height)
    ("wallet block hash " ++ toString height.toNat ++ ": ") fun walletHash =>
      (store, .awaiting (.zebraHash locals height walletHash))

/-- Compare the wallet with the canonical chain at the highest height that both have. -/
def checkBoundary (locals : ScanLocals K) (loop : ScanLoop N) (store : σ) : σ × ScanControl K N :=
  match loop.prevHash with
  | none => nextScan D overflowChecks locals loop store
  | some prev =>
      orAbort store (plainSub32 overflowChecks loop.height 1) fun scannedTip =>
        let boundary := min scannedTip locals.target.height
        let walletBoundaryHash : Except String (Option BlockHash) :=
          if boundary = scannedTip then .ok (some prev) else D.getBlockHash store boundary
        orFail store walletBoundaryHash
          ("wallet block hash " ++ toString boundary.toNat ++ ": ") fun walletBoundaryHash =>
            -- a wallet ahead of the tip rewinds without a look at the boundary
            if scannedTip > locals.target.height then
              rewindToCommonAncestor D locals boundary store
            else (store, .awaiting (.boundaryHash locals loop boundary walletBoundaryHash))

/-- Run a suspended scan on with the answer of the source, up to its next call. -/
def ScanAwait.resume (source : CanonicalChainSource) (store : σ) :
    ScanAwait K N → σ × ScanControl K N
  | .canonicalTip =>
      orFail store source.canonicalTip "" fun target =>
        orFail store (D.unifiedFullViewingKeys store) "ufvks: " fun keys =>
          orFail store (D.unspentNullifiers store) "nullifiers: " fun nullifiers =>
            orFail store (D.accountBirthday store) "account birthday: " fun birthday =>
              orFail store (D.blockFullyScanned store) "block_fully_scanned: " fun scanned =>
                let locals := ⟨target, keys, birthday⟩
                match scanned with
                | none => checkBoundary D overflowChecks locals ⟨birthday, none, nullifiers⟩ store
                | some last =>
                    orAbort store (plainAdd32 overflowChecks last.height 1) fun start =>
                      checkBoundary D overflowChecks locals ⟨start, some last.hash, nullifiers⟩
                        store
  | .boundaryHash locals loop boundary walletBoundaryHash =>
      orFail store (source.blockHash boundary) "" fun hash =>
        if walletBoundaryHash ≠ some hash then rewindToCommonAncestor D locals boundary store
        else nextScan D overflowChecks locals loop store
  | .zebraHash locals height walletHash =>
      orFail store (source.blockHash height) "" fun hash =>
        if walletHash = some hash then (store, .awaiting (.ancestorState locals height))
        else if height ≤ locals.birthday then
          (store, .returned (.error ("reorg crosses wallet birthday " ++
            toString locals.birthday.toNat ++ "; refuse to rewind further " ++
            "(re-restore with an explicit earlier birthday required)")))
        else
          orAbort store (plainSub32 overflowChecks height 1) fun height =>
            rewindToCommonAncestor D locals height store
  | .ancestorState locals height =>
      orFail store (source.treeState height) "" fun state =>
        let (store, rewound) := D.rewindToChainState store state
        orFail store rewound ("rewind_to_chain_state(" ++ toString height.toNat ++ "): ") fun () =>
          orAbort store (plainAdd32 overflowChecks height 1) fun height =>
            orFail store (D.unspentNullifiers store) "nullifiers after rewind: " fun nullifiers =>
              orAbort store (plainSub32 overflowChecks height 1) fun below =>
                (store, .awaiting (.rewoundHash locals height below nullifiers))
  | .rewoundHash locals height below nullifiers =>
      orFail store (source.blockHash below) "" fun hash =>
        nextScan D overflowChecks locals ⟨height, some hash, nullifiers⟩ store
  | .fromState locals loop below =>
      orFail store (source.treeState below) "" fun state =>
        if loop.prevHash.any (state.hash ≠ ·) then
          rewindToCommonAncestor D locals below store
        else (store, .awaiting (.expectedHash locals loop state))
  | .expectedHash locals loop state =>
      orFail store (source.blockHash loop.height) "" fun expected =>
        (store, .awaiting (.getBlock locals loop state expected))
  | .getBlock locals loop state expected =>
      orFail store (source.getBlock loop.height) "" fun raw =>
        orFail store (readBlock raw) ("parse block " ++ toString loop.height.toNat ++ ": ")
          fun header =>
            if header.hash ≠ expected then
              (store, .returned (.error ("block hash mismatch at " ++
                toString loop.height.toNat ++ ": expected " ++ hexEncode expected.bytes ++
                ", got " ++ hexEncode header.hash.bytes)))
            else
              orFail store (D.scanBlock locals.keys loop.nullifiers state loop.height header)
                ("scan block " ++ toString loop.height.toNat ++ ": ") fun scanned =>
                  let nullifiers := D.updateWith loop.nullifiers scanned
                  let (store, put) := D.putBlocks store state scanned
                  orFail store put ("put block " ++ toString loop.height.toNat ++ ": ") fun () =>
                    (store, .awaiting (.putHash locals loop.height nullifiers))
  | .putHash locals height nullifiers =>
      orFail store (source.blockHash height) "" fun hash =>
        orAbort store (plainAdd32 overflowChecks height 1) fun next =>
          nextScan D overflowChecks locals ⟨next, some hash, nullifiers⟩ store
  | .finalHash locals =>
      orFail store (source.blockHash locals.target.height) "" fun finalHash =>
        if finalHash ≠ locals.target.hash then
          (store, .returned (.error ("canonical tip changed while scanning (" ++
            hexEncode finalHash.bytes ++ " != " ++ hexEncode locals.target.hash.bytes ++
            "); re-run sync")))
        else (store, .returned (.ok locals.target))

end Scan

/-! ### The node and the scan -/

/-- What scans run against: the chains the node may serve, the wallet databases they find, and what
is assumed of both. -/
structure ScanSetting (σ K N B : Type) where
  overflowChecks : Bool
  readBlock : Bytes → Except String BlockHeader
  /-- The block before the one with this hash. -/
  parent : BlockHash → BlockHash
  /-- The hash of a block determines its header. -/
  readBlock_prev : ∀ raw header, readBlock raw = .ok header →
    header.prevBlock = parent header.hash
  chains : Set Chain
  linked : ∀ chain ∈ chains, chain.LinkedBy parent
  blocks : σ → BlockHeight → Option BlockHash
  birthday : BlockHeight
  dbs : Set (ScanDb σ K N B)
  lawful : ∀ D ∈ dbs, D.Lawful blocks birthday

/-- A scan beside the node. -/
structure Scan (σ K N : Type) where
  /-- The chain that the node answers from. -/
  canonical : Chain
  store : σ
  control : ScanControl K N
  deriving DecidableEq

section Runs

variable {σ K N B : Type} (W : ScanSetting σ K N B)

/-- Before the first scan. -/
def Scan.init (chain : Chain) (store : σ) : Scan σ K N := ⟨chain, store, .idle⟩

/-- The call that the scan waits for is answered by this source. -/
def Scan.answer (x : Scan σ K N) (D : ScanDb σ K N B) (source : CanonicalChainSource)
    (await : ScanAwait K N) : Scan σ K N :=
  let (store, control) := await.resume D W.overflowChecks W.readBlock source x.store
  { x with store := store, control := control }

/-- What can happen next. -/
inductive ScanEvent where
  /-- The node replaces its chain. -/
  | replace (chain : Chain)
  /-- A scan starts. -/
  | begin
  /-- The node answers the scan from its chain. -/
  | call
  /-- The node cannot be reached. -/
  | unreachable (e : String)

/-- Whether the node answers. -/
def ScanEvent.isCall : ScanEvent → Bool
  | call => true
  | _ => false

/-- The steps of a scan and the node. The database answers as one of those it may be. -/
inductive ScanStep (x : Scan σ K N) : ScanEvent → Scan σ K N → Prop
  | replace (chain : Chain) (h : chain ∈ W.chains) :
      ScanStep x (.replace chain) { x with canonical := chain }
  | begin (h : x.control.await? = none) :
      ScanStep x .begin { x with control := .awaiting .canonicalTip }
  | call (D : ScanDb σ K N B) (hD : D ∈ W.dbs) (await : ScanAwait K N)
      (h : x.control.await? = some await) :
      ScanStep x .call (x.answer W D x.canonical.canonicalSource await)
  | unreachable (D : ScanDb σ K N B) (hD : D ∈ W.dbs) (await : ScanAwait K N) (e : String)
      (h : x.control.await? = some await) :
      ScanStep x (.unreachable e) (x.answer W D (.unreachable e) await)

/-- Runs whose steps all meet a condition. -/
abbrev ScanRun (cond : ScanEvent → Scan σ K N → Prop) : Scan σ K N → Scan σ K N → Prop :=
  Relation.ReflTransGen fun x y => ∃ event, ScanStep W x event y ∧ cond event x

/-- A wallet that has stored no block yet. -/
def ScanSetting.Fresh (s : σ) : Prop := ∀ h, W.blocks s h = none

/-- The height whose hash a scan asks for in place of the one the wallet stores there. -/
def ScanAwait.rereads : ScanAwait K N → Option BlockHeight
  | .rewoundHash _ _ below _ => some below
  | .putHash _ height _ => some height
  | _ => none

/-- If the node now answers for the hash after a block was put, or after a rewind, then with the
hash that the wallet stores at that height. -/
def ScanSetting.RereadsStored (event : ScanEvent) (x : Scan σ K N) : Prop :=
  event = .call → ∀ await, x.control.await? = some await → ∀ h, await.rereads = some h →
    ∀ hash, x.canonical.Has h hash → W.blocks x.store h = some hash

/-- The last block that the wallet stores. -/
def ScanSetting.ScannedTip (s : σ) (ref : BlockRef) : Prop :=
  W.blocks s ref.height = some ref.hash ∧ ∀ h, ref.height < h → W.blocks s h = none

/-- **Scan integrity**: when a scan has succeeded and the scanned tip is canonical, so is every
block that the wallet stores from its birthday up to it. -/
def ScanSetting.Integrity (x : Scan σ K N) : Prop :=
  ∀ target, x.control = .returned (.ok target) → ∀ ref, W.ScannedTip x.store ref →
    x.canonical.Has ref.height ref.hash →
      ∀ h hash, W.birthday ≤ h → h ≤ ref.height → W.blocks x.store h = some hash →
        x.canonical.Has h hash

end Runs

end Zalkanes
