import Zalkanes.Lib.SortedHash
import Zalkanes.State.RocksBuild

/-!
# What the State Root Commits To

Two stores with one root have, up to order, the same leaf preimages, as long as the two
personalised hash functions do not collide on what is hashed for them. Within one kind of entry
the preimage determines the entry. Across the kinds it does not: nothing in a leaf says whether it
is a contract's or a storage entry's, and a code hash that begins with a key length can be read as
the start of a storage entry.

`Ledger.Separated` says exactly when this cannot be used to exchange entries of a store for
others.

## Main results

* `contractPreimage_injective`, `storagePreimage_injective`: leaves of one kind.
* `Ledger.forall_perm_leafInputs_iff`: the stores determined by their leaf preimages.
* `computeRoot_commits_iff`: the stores determined by their root.
-/

namespace Zalkanes

open Lib

/-! ### Leaves of one kind -/

/-- A contract's preimage determines the contract. -/
theorem contractPreimage_injective {id id' : ContractId} {c c' : CodeHash × Bytes}
    (h : contractPreimage id c.1 c.2 = contractPreimage id' c'.1 c'.2) : id = id' ∧ c = c' := by
  simp only [contractPreimage, List.append_assoc] at h
  obtain ⟨hid, h⟩ := List.append_inj h (by simp)
  obtain ⟨hhash, h⟩ := List.append_inj h (by simp)
  obtain ⟨-, hwasm⟩ := List.append_inj h (by simp)
  exact ⟨Bytes32.ext hid, Prod.ext (Bytes32.ext hhash) hwasm⟩

/-- A storage entry's preimage determines the entry, for keys whose length fits. -/
theorem storagePreimage_injective {id id' : ContractId} {key key' value value' : Bytes}
    (hkey : key.length < 2 ^ 16) (hkey' : key'.length < 2 ^ 16)
    (h : storagePreimage id key value = storagePreimage id' key' value') :
    id = id' ∧ key = key' ∧ value = value' := by
  simp only [storagePreimage, List.append_assoc] at h
  obtain ⟨hid, h⟩ := List.append_inj h (by simp)
  obtain ⟨hlen, h⟩ := List.append_inj h (by simp)
  have hlen : key.length = key'.length := by
    have := congrArg UInt16.toNat (be16_injective hlen)
    rwa [toNat_ofNat16 hkey, toNat_ofNat16 hkey'] at this
  obtain ⟨hk, h⟩ := List.append_inj h hlen
  obtain ⟨-, hvalue⟩ := List.append_inj h (by simp)
  exact ⟨Bytes32.ext hid, hk, hvalue⟩

/-- A contract entry and a storage entry, of lengths that fit, with one preimage. -/
def ReadAlike (id : ContractId) (contract : CodeHash × Bytes) (key value : Bytes) : Prop :=
  contract.2.length < 2 ^ 32 ∧ key.length < 2 ^ 16 ∧ value.length < 2 ^ 32 ∧
    contractPreimage id contract.1 contract.2 = storagePreimage id key value

namespace Ledger

/-- Keys shorter than `2 ^ 16` bytes, values and code shorter than `2 ^ 32`. -/
structure Bounded (l : Ledger) : Prop extends l.Fits where
  keys : ∀ (k : ContractId × Bytes) (value : Bytes),
    l.storage[k]? = some value → k.2.length < 2 ^ 16

/-- No entry of the ledger can be exchanged for one of the other kind with its preimage: what a
contract entry could be read as finds its key taken, what a storage entry could be read as finds
its contract taken, and no two entries can change places. -/
structure Separated (l : Ledger) : Prop where
  contracts : ∀ id contract key value, l.contracts[id]? = some contract →
    ReadAlike id contract key value → l.storage[(id, key)]? ≠ none
  storage : ∀ id contract key value, l.storage[(id, key)]? = some value →
    ReadAlike id contract key value → l.contracts[id]? ≠ none
  swap : ∀ id contract contract' key value value', l.contracts[id]? = some contract →
    l.storage[(id, key)]? = some value' → value' ≠ value → ReadAlike id contract key value →
    ¬ ReadAlike id contract' key value'

/-! ### The preimages of a ledger -/

/-- What is hashed for the contracts. -/
def contractInputs (l : Ledger) : List Bytes :=
  l.contracts.toList.map fun (id, codeHash, wasm) => contractPreimage id codeHash wasm

/-- What is hashed for the storage. -/
def storageInputs (l : Ledger) : List Bytes :=
  l.storage.toList.map fun ((id, key), value) => storagePreimage id key value

/-- What is hashed for the leaves of a ledger. -/
def leafInputs (l : Ledger) : List Bytes := l.contractInputs ++ l.storageInputs

/-- Each contract is hashed. -/
theorem mem_contractInputs {l : Ledger} {x : Bytes} :
    x ∈ l.contractInputs ↔
      ∃ id contract, l.contracts[id]? = some contract ∧
        contractPreimage id contract.1 contract.2 = x := by
  simp only [contractInputs, List.mem_map, Prod.exists,
    Std.ExtTreeMap.mem_toList_iff_getElem?_eq_some]

/-- Each storage entry is hashed. -/
theorem mem_storageInputs {l : Ledger} {x : Bytes} :
    x ∈ l.storageInputs ↔
      ∃ id key value, l.storage[(id, key)]? = some value ∧ storagePreimage id key value = x := by
  simp only [storageInputs, List.mem_map, Prod.exists,
    Std.ExtTreeMap.mem_toList_iff_getElem?_eq_some]

/-- No two contracts are hashed alike. -/
theorem nodup_contractInputs (l : Ledger) : l.contractInputs.Nodup := by
  refine List.Nodup.map_on ?_ (OrdMap.nodup_toList l.contracts)
  rintro ⟨id, contract⟩ - ⟨id', contract'⟩ - h
  obtain ⟨rfl, rfl⟩ := contractPreimage_injective h
  rfl

/-- No two storage entries within the bounds are hashed alike. -/
theorem Bounded.nodup_storageInputs {l : Ledger} (hl : l.Bounded) : l.storageInputs.Nodup := by
  refine List.Nodup.map_on ?_ (OrdMap.nodup_toList l.storage)
  rintro ⟨⟨id, key⟩, value⟩ h ⟨⟨id', key'⟩, value'⟩ h' heq
  rw [Std.ExtTreeMap.mem_toList_iff_getElem?_eq_some] at h h'
  obtain ⟨rfl, rfl, rfl⟩ := storagePreimage_injective (hl.keys _ _ h) (hl.keys _ _ h') heq
  rfl

/-- A contract is found by its preimage. -/
theorem getElem?_contracts_of_mem {l : Ledger} {id : ContractId} {contract : CodeHash × Bytes}
    (h : contractPreimage id contract.1 contract.2 ∈ l.contractInputs) :
    l.contracts[id]? = some contract := by
  obtain ⟨id', contract', hget, heq⟩ := mem_contractInputs.mp h
  obtain ⟨rfl, rfl⟩ := contractPreimage_injective heq
  exact hget

/-- A storage entry is found by its preimage. -/
theorem Bounded.getElem?_storage_of_mem {l : Ledger} (hl : l.Bounded) {id : ContractId}
    {key value : Bytes} (hkey : key.length < 2 ^ 16)
    (h : storagePreimage id key value ∈ l.storageInputs) :
    l.storage[(id, key)]? = some value := by
  obtain ⟨id', key', value', hget, heq⟩ := mem_storageInputs.mp h
  obtain ⟨rfl, rfl, rfl⟩ := storagePreimage_injective (hl.keys _ _ hget) hkey heq
  exact hget

/-- A contract's preimage begins with its id, and so does a storage entry's. -/
theorem id_eq_of_preimage_eq {id id' : ContractId} {contract : CodeHash × Bytes}
    {key value : Bytes}
    (h : contractPreimage id contract.1 contract.2 = storagePreimage id' key value) : id = id' := by
  simp only [contractPreimage, storagePreimage, List.append_assoc] at h
  exact Bytes32.ext (List.append_inj h (by simp)).1

/-! ### Exchanging entries -/

/-- The preimages of what one contract id and one storage key hold. -/
def slotInputs (id : ContractId) (key : Bytes) (contract : Option (CodeHash × Bytes))
    (value : Option Bytes) : List Bytes :=
  (contract.map fun c => contractPreimage id c.1 c.2).toList ++
    (value.map fun v => storagePreimage id key v).toList

/-- Change what one contract id and one storage key hold. -/
def setSlots (l : Ledger) (id : ContractId) (key : Bytes) (contract : Option (CodeHash × Bytes))
    (value : Option Bytes) : Ledger :=
  ⟨applyWrite l.contracts (.restore id contract), applyWrite l.storage (.restore (id, key) value)⟩

/-- The preimages of a ledger: those of two slots, and the rest. -/
theorem leafInputs_perm_slots (l : Ledger) (id : ContractId) (key : Bytes) :
    l.leafInputs.Perm (slotInputs id key l.contracts[id]? l.storage[(id, key)]? ++
      (Ledger.mk (l.contracts.erase id) (l.storage.erase (id, key))).leafInputs) := by
  have hcontracts := (OrdMap.toList_perm_slot l.contracts id).map
    fun e => contractPreimage e.1 e.2.1 e.2.2
  have hstorage := (OrdMap.toList_perm_slot l.storage (id, key)).map
    fun e => storagePreimage e.1.1 e.1.2 e.2
  rw [List.map_append, ← Option.toList_map, Option.map_map] at hcontracts hstorage
  refine (hcontracts.append hstorage).trans ?_
  rw [slotInputs, leafInputs, contractInputs, storageInputs, List.append_assoc, List.append_assoc]
  refine List.Perm.append_left _ ?_
  rw [← List.append_assoc, ← List.append_assoc]
  exact List.Perm.append_right _ List.perm_append_comm

/-- Exchanging the contents of two slots for others with the same preimages keeps the preimages
of the ledger. -/
theorem leafInputs_setSlots_perm (l : Ledger) {id : ContractId} {key : Bytes}
    {contract : Option (CodeHash × Bytes)} {value : Option Bytes}
    (h : (slotInputs id key contract value).Perm
      (slotInputs id key l.contracts[id]? l.storage[(id, key)]?)) :
    (l.setSlots id key contract value).leafInputs.Perm l.leafInputs := by
  refine ((l.setSlots id key contract value).leafInputs_perm_slots id key).trans
    (List.Perm.trans ?_ (l.leafInputs_perm_slots id key).symm)
  rw [setSlots, OrdMap.getElem?_applyWrite_restore, OrdMap.getElem?_applyWrite_restore, if_pos rfl,
    if_pos rfl,
    OrdMap.erase_applyWrite_restore, OrdMap.erase_applyWrite_restore]
  exact h.append_right _

/-- Setting slots within the bounds. -/
theorem Bounded.setSlots {l : Ledger} (hl : l.Bounded) {id : ContractId} {key : Bytes}
    {contract : Option (CodeHash × Bytes)} {value : Option Bytes}
    (hcontract : ∀ c, contract = some c → c.2.length < 2 ^ 32) (hkey : key.length < 2 ^ 16)
    (hvalue : ∀ v, value = some v → v.length < 2 ^ 32) :
    (l.setSlots id key contract value).Bounded where
  contracts id' c h := by
    rw [Ledger.setSlots, OrdMap.getElem?_applyWrite_restore] at h
    split at h
    · exact hcontract c h
    · exact hl.contracts id' c h
  storage k v h := by
    rw [Ledger.setSlots, OrdMap.getElem?_applyWrite_restore] at h
    split at h
    · exact hvalue v h
    · exact hl.storage k v h
  keys k v h := by
    rw [Ledger.setSlots, OrdMap.getElem?_applyWrite_restore] at h
    split at h
    · rename_i hk
      exact hk ▸ hkey
    · exact hl.keys k v h

/-- Slots that need no setting hold what would be set. -/
theorem of_setSlots_eq {l : Ledger} {id : ContractId} {key : Bytes}
    {contract : Option (CodeHash × Bytes)} {value : Option Bytes}
    (h : l.setSlots id key contract value = l) :
    l.contracts[id]? = contract ∧ l.storage[(id, key)]? = value := by
  have hcontracts := congrArg (fun l : Ledger => l.contracts[id]?) h
  have hstorage := congrArg (fun l : Ledger => l.storage[(id, key)]?) h
  simp only [setSlots, OrdMap.getElem?_applyWrite_restore, if_true] at hcontracts hstorage
  exact ⟨hcontracts.symm, hstorage.symm⟩

/-- A ledger that its preimages determine is separated: an exchange would give another one. -/
theorem separated_of_forall {l : Ledger} (hl : l.Bounded)
    (h : ∀ l' : Ledger, l'.Bounded → l'.leafInputs.Perm l.leafInputs → l' = l) :
    l.Separated where
  contracts id contract key value hget halike hnone := by
    obtain ⟨hcode, hkey, hvalue, hsame⟩ := halike
    have heq := h (l.setSlots id key none (some value)) (hl.setSlots (by simp) hkey (by simpa))
      (l.leafInputs_setSlots_perm (by simp [slotInputs, hget, hnone, hsame]))
    rw [(of_setSlots_eq heq).1] at hget
    simp at hget
  storage id contract key value hget halike hnone := by
    obtain ⟨hcode, hkey, hvalue, hsame⟩ := halike
    have heq := h (l.setSlots id key (some contract) none) (hl.setSlots (by simpa) hkey (by simp))
      (l.leafInputs_setSlots_perm (by simp [slotInputs, hget, hnone, hsame]))
    rw [(of_setSlots_eq heq).2] at hget
    simp at hget
  swap id contract contract' key value value' hget hget' hne halike halike' := by
    obtain ⟨hcode, hkey, hvalue, hsame⟩ := halike
    obtain ⟨hcode', -, hvalue', hsame'⟩ := halike'
    have heq := h (l.setSlots id key (some contract') (some value))
      (hl.setSlots (by simpa) hkey (by simpa))
      (l.leafInputs_setSlots_perm (by
        simpa [slotInputs, hget, hget', hsame, hsame'] using List.Perm.swap _ _ _))
    rw [(of_setSlots_eq heq).2] at hget'
    exact hne (Option.some.inj hget').symm

/-- **A separated ledger is determined by its preimages.** What leaves one kind of entry would
have to enter the other one, at a slot that is taken. -/
theorem Separated.eq_of_perm {l l' : Ledger} (h : l.Separated) (hl : l.Bounded)
    (hl' : l'.Bounded) (hperm : l'.leafInputs.Perm l.leafInputs) : l' = l := by
  have henter : ∀ {x}, x ∈ l'.contractInputs → x ∉ l.contractInputs →
      x ∈ l.storageInputs ∧ x ∉ l'.storageInputs :=
    mem_of_append_perm l'.nodup_contractInputs hl.nodup_storageInputs hperm
  have hleave : ∀ {x}, x ∈ l.contractInputs → x ∉ l'.contractInputs →
      x ∈ l'.storageInputs ∧ x ∉ l.storageInputs :=
    mem_of_append_perm l.nodup_contractInputs hl'.nodup_storageInputs hperm.symm
  have hmove : ∀ {x}, x ∈ l.storageInputs → x ∉ l'.storageInputs →
      x ∈ l'.contractInputs ∧ x ∉ l.contractInputs :=
    mem_of_append_perm hl.nodup_storageInputs l'.nodup_contractInputs
      (List.perm_append_comm.trans (hperm.symm.trans List.perm_append_comm))
  have hcontracts : ∀ id : ContractId, l'.contracts[id]? = l.contracts[id]? := by
    intro id
    by_contra hne
    cases hget : l.contracts[id]? with
    | none =>
        obtain ⟨contract, hget'⟩ := Option.ne_none_iff_exists'.mp (hget ▸ hne)
        have hmem := mem_contractInputs.mpr ⟨id, contract, hget', rfl⟩
        have hnew := fun hold => hne (hget'.trans (getElem?_contracts_of_mem hold).symm)
        obtain ⟨id', key, value, hvalue, hsame⟩ := mem_storageInputs.mp (henter hmem hnew).1
        obtain rfl := id_eq_of_preimage_eq hsame.symm
        exact h.storage id contract key value hvalue ⟨hl'.contracts id contract hget',
          hl.keys _ _ hvalue, hl.storage _ _ hvalue, hsame.symm⟩ hget
    | some contract =>
        have hmem := mem_contractInputs.mpr ⟨id, contract, hget, rfl⟩
        have hold := fun hnew => hne ((getElem?_contracts_of_mem hnew).trans hget.symm)
        obtain ⟨hstored, hfree⟩ := hleave hmem hold
        obtain ⟨id', key, value, hvalue, hsame⟩ := mem_storageInputs.mp hstored
        obtain rfl := id_eq_of_preimage_eq hsame.symm
        have hkey := hl'.keys _ _ hvalue
        have halike : ReadAlike id contract key value :=
          ⟨hl.contracts id contract hget, hkey, hl'.storage _ _ hvalue, hsame.symm⟩
        -- the slot that the contract entry moves to is taken by another value
        obtain ⟨value', hvalue'⟩ :=
          Option.ne_none_iff_exists'.mp (h.contracts id contract key value hget halike)
        have hother : value' ≠ value := by
          rintro rfl
          exact hfree (mem_storageInputs.mpr ⟨id, key, value', hvalue', hsame⟩)
        have hmem' := mem_storageInputs.mpr ⟨id, key, value', hvalue', rfl⟩
        have hold' := fun hnew => hother
          (Option.some.inj ((hl'.getElem?_storage_of_mem hkey hnew).symm.trans hvalue))
        obtain ⟨id', contract', hget', hsame'⟩ := mem_contractInputs.mp (hmove hmem' hold').1
        obtain rfl := id_eq_of_preimage_eq hsame'
        exact h.swap id' contract contract' key value value' hget hvalue' hother halike
          ⟨hl'.contracts _ _ hget', hkey, hl.storage _ _ hvalue', hsame'⟩
  have hcontracts : l'.contracts = l.contracts :=
    Std.ExtTreeMap.ext_getElem? fun id => hcontracts id
  have hstorage : l'.storageInputs.Perm l.storageInputs := by
    have hinputs : l'.contractInputs = l.contractInputs := by
      rw [contractInputs, hcontracts, contractInputs]
    rw [leafInputs, leafInputs, hinputs] at hperm
    exact (List.perm_append_left_iff _).mp hperm
  refine Ledger.ext hcontracts (Std.ExtTreeMap.ext_getElem? ?_)
  rintro ⟨id, key⟩
  refine Option.ext fun value => ⟨fun hget => ?_, fun hget => ?_⟩
  · exact hl.getElem?_storage_of_mem (hl'.keys _ _ hget)
      (hstorage.mem_iff.mp (mem_storageInputs.mpr ⟨id, key, value, hget, rfl⟩))
  · exact hl'.getElem?_storage_of_mem (hl.keys _ _ hget)
      (hstorage.mem_iff.mpr (mem_storageInputs.mpr ⟨id, key, value, hget, rfl⟩))

/-- **The ledgers that their leaf preimages determine** are the separated ones. -/
theorem forall_perm_leafInputs_iff {l : Ledger} (hl : l.Bounded) :
    (∀ l' : Ledger, l'.Bounded → l'.leafInputs.Perm l.leafInputs → l' = l) ↔ l.Separated :=
  ⟨separated_of_forall hl, fun h _ hl' hperm => h.eq_of_perm hl hl' hperm⟩

end Ledger

/-! ### Roots -/

/-- What is hashed for the leaves of a store. -/
def leafInputs (store : StateView) : List Bytes :=
  store.contracts.map (fun (id, codeHash, wasm) => contractPreimage id codeHash wasm) ++
    store.storage.map fun (id, key, value) => storagePreimage id key value

/-- The two personalised hash functions do not collide on what is hashed for the roots of two
stores. -/
structure CollisionFree (H : Hashing) (store store' : StateView) : Prop where
  leaf : Set.InjOn (H.blake2b stateLeafPersonalization)
    {x | x ∈ leafInputs store ∨ x ∈ leafInputs store'}
  root : Set.InjOn (H.blake2b stateRootPersonalization)
    {rootPreimage (collectLeaves H store), rootPreimage (collectLeaves H store')}

/-- No other store has the root of this one, unless the hash functions collide. -/
def RootCommits (H : Hashing) (store : StateView) : Prop :=
  ∀ store' : StateView, store'.Sorted → store'.ledger.Bounded → CollisionFree H store' store →
    computeRoot H store' = computeRoot H store →
      store'.contracts = store.contracts ∧ store'.storage = store.storage

/-- The leaves are the hashed inputs. -/
theorem collectLeaves_eq (H : Hashing) (store : StateView) :
    collectLeaves H store = (leafInputs store).map (H.blake2b stateLeafPersonalization) := by
  rw [collectLeaves, leafInputs, List.map_append, List.map_map, List.map_map]
  rfl

/-- A sorted store has the inputs of its ledger. -/
theorem StateView.Sorted.leafInputs_eq {store : StateView} (h : store.Sorted) :
    leafInputs store = store.ledger.leafInputs := by
  rw [Ledger.leafInputs, Ledger.contractInputs, Ledger.storageInputs, h.toList_contracts,
    h.toList_storage, List.map_map]
  rfl

instance : Std.Total leafLE := ⟨fun a b => by
  rw [leafLE, leafLE, Std.OrientedOrd.eq_swap (a := b)]
  cases compare a b <;> simp⟩

instance : IsTrans Bytes32 leafLE := ⟨fun _ _ _ h h' => Std.TransCmp.isLE_trans h h'⟩

/-- The same bytes are hashed for the root when the leaf preimages are the same up to order. -/
theorem rootPreimage_eq_of_perm (H : Hashing) {store store' : StateView}
    (h : (leafInputs store).Perm (leafInputs store')) :
    rootPreimage (collectLeaves H store) = rootPreimage (collectLeaves H store') := by
  rw [rootPreimage, rootPreimage, collectLeaves_eq, collectLeaves_eq,
    insertionSort_eq_of_perm (fun a b hab hba => ?_) (h.map _)]
  exact Std.LawfulEqCmp.eq_of_compare (Std.OrientedCmp.isLE_antisymm hab hba)

/-- Without collisions, the preimages are the same up to order when the roots are equal. -/
theorem perm_of_computeRoot_eq {H : Hashing} {store store' : StateView}
    (hfree : CollisionFree H store store') (h : computeRoot H store = computeRoot H store') :
    (leafInputs store).Perm (leafInputs store') := by
  have hroot := hfree.root (Or.inl rfl) (Or.inr rfl) h
  have hsort := flatMap_injective_of_length (n := 32) (by omega) Bytes32.length_eq
    (fun a b => Bytes32.ext) hroot
  have hleaves := perm_of_insertionSort_eq hsort
  rw [collectLeaves_eq, collectLeaves_eq] at hleaves
  exact perm_of_map_perm hfree.leaf hleaves

/-- **The stores that their root commits to**: for a store whose own leaves do not collide, being
the only store with its root, up to collisions, is being separated. -/
theorem computeRoot_commits_iff (H : Hashing) {store : StateView} (hs : store.Sorted)
    (hb : store.ledger.Bounded) (hself : CollisionFree H store store) :
    RootCommits H store ↔ store.ledger.Separated := by
  rw [← Ledger.forall_perm_leafInputs_iff hb]
  constructor
  · intro hcommits l' hb' hperm
    have hperm' : (leafInputs l'.view).Perm (leafInputs store) := by
      rwa [l'.view_sorted.leafInputs_eq, Ledger.ledger_view, hs.leafInputs_eq]
    have hroot := rootPreimage_eq_of_perm H hperm'
    have hfree : CollisionFree H l'.view store := by
      refine ⟨hself.leaf.mono ?_, ?_⟩
      · rintro x (hx | hx)
        · exact Or.inl (hperm'.mem_iff.mp hx)
        · exact Or.inr hx
      · rw [hroot]
        exact hself.root
    obtain ⟨hcontracts, hstorage⟩ := hcommits l'.view l'.view_sorted
      (by rwa [Ledger.ledger_view]) hfree (congrArg (H.blake2b stateRootPersonalization) hroot)
    rw [← l'.ledger_view, StateView.ledger, hcontracts, hstorage]
    rfl
  · intro hdet store' hs' hb' hfree hroot
    have hperm := perm_of_computeRoot_eq hfree hroot
    rw [hs.leafInputs_eq, hs'.leafInputs_eq] at hperm
    have hledger := hdet _ hb' hperm
    constructor
    · rw [← hs.toList_contracts, ← hs'.toList_contracts, hledger]
    · have hlist := hs'.toList_storage
      rw [hledger, hs.toList_storage] at hlist
      refine (List.map_injective_iff.mpr ?_ hlist).symm
      rintro ⟨id, key, value⟩ ⟨id', key', value'⟩ heq
      simp only [Prod.mk.injEq, and_assoc] at heq ⊢
      exact heq

/-- A block that deploys empty code under a code hash that reads as a key length and a key. -/
def deployKeyLike : BlockCommit where
  height := 1
  zcashBlockHash := Bytes32.replicate 0
  deploys := [(Bytes32.replicate 9, ⟨0 :: 30 :: List.replicate 30 0, by decide⟩, [])]
  upserts := []
  deletes := []

/-- A block that writes an empty value under that key. -/
def upsertCodeLike : BlockCommit where
  height := 1
  zcashBlockHash := Bytes32.replicate 0
  deploys := []
  upserts := [(Bytes32.replicate 9, List.replicate 30 0, [])]
  deletes := []

/-- The contract is within the bounds. -/
theorem bounded_deployKeyLike : (Ledger.empty.apply deployKeyLike).Bounded where
  toFits := by
    have hfit : ∀ c ∈ [deployKeyLike], c.Fits := by
      intro c hc
      rw [List.mem_singleton.mp hc]
      exact ⟨by simp [deployKeyLike], by simp [deployKeyLike], by simp [deployKeyLike],
        by simp [deployKeyLike]⟩
    exact fits_ledgerOf hfit
  keys k v h := by
    simp [Ledger.apply, Ledger.empty, deployKeyLike, BlockCommit.storageWrites] at h

/-- The storage entry is within the bounds. -/
theorem bounded_upsertCodeLike : (Ledger.empty.apply upsertCodeLike).Bounded where
  toFits := by
    have hfit : ∀ c ∈ [upsertCodeLike], c.Fits := by
      intro c hc
      rw [List.mem_singleton.mp hc]
      exact ⟨by simp [upsertCodeLike], by simp [upsertCodeLike], by simp [upsertCodeLike],
        by simp [upsertCodeLike]⟩
    exact fits_ledgerOf hfit
  keys k v h := by
    rw [Ledger.getElem?_storage_apply] at h
    cases hlast : lastWrite upsertCodeLike.storageWrites k with
    | none =>
        rw [hlast] at h
        simp [Ledger.empty] at h
    | some r =>
        obtain ⟨w, hw, rfl, -⟩ := exists_mem_of_lastWrite hlast
        rw [List.mem_singleton.mp hw, Write.key_put, List.length_replicate]
        omega

/-- What is hashed for the leaf of the one, and of the other. -/
def bothReadings : Bytes :=
  contractPreimage (Bytes32.replicate 9) ⟨0 :: 30 :: List.replicate 30 0, by decide⟩ []

/-- The contract is hashed as these bytes. -/
theorem leafInputs_deployKeyLike :
    leafInputs (Ledger.empty.apply deployKeyLike).view = [bothReadings] := rfl

/-- The storage entry is hashed as the same bytes. -/
theorem leafInputs_upsertCodeLike :
    leafInputs (Ledger.empty.apply upsertCodeLike).view = [bothReadings] := by
  have hinputs : leafInputs (Ledger.empty.apply upsertCodeLike).view =
      [storagePreimage (Bytes32.replicate 9) (List.replicate 30 0) []] := rfl
  rw [hinputs]
  decide

/-- Stores with one and the same leaf preimage cannot collide. -/
theorem collisionFree_of_singleton (H : Hashing) {store store' : StateView} {x : Bytes}
    (h : leafInputs store = [x]) (h' : leafInputs store' = [x]) :
    CollisionFree H store store' where
  leaf a ha b hb _ := by
    have hall : ∀ y, (y ∈ leafInputs store ∨ y ∈ leafInputs store') → y = x := by simp [h, h']
    rw [hall a ha, hall b hb]
  root := by
    rw [collectLeaves_eq, collectLeaves_eq, h, h', Set.pair_eq_singleton]
    exact Set.injOn_singleton _ _

/-- The condition at the store with the contract, which reads as a storage entry too. -/
theorem computeRoot_commits_iff_deployKeyLike :
    (Ledger.empty.apply deployKeyLike).Bounded ∧
      ∀ H : Hashing, RootCommits H (Ledger.empty.apply deployKeyLike).view ↔
        (Ledger.empty.apply deployKeyLike).view.ledger.Separated :=
  ⟨bounded_deployKeyLike, fun H => computeRoot_commits_iff H (Ledger.view_sorted _)
    (by rw [Ledger.ledger_view]; exact bounded_deployKeyLike)
    (collisionFree_of_singleton H leafInputs_deployKeyLike leafInputs_deployKeyLike)⟩

/-- **A contract and a storage entry with one root**: one store has only a contract, the other
only a storage entry. -/
theorem root_of_contract_and_storage :
    (Ledger.empty.apply deployKeyLike).Bounded ∧ (Ledger.empty.apply upsertCodeLike).Bounded ∧
      (Ledger.empty.apply deployKeyLike).view.contracts ≠
        (Ledger.empty.apply upsertCodeLike).view.contracts ∧
      ∀ H : Hashing,
        CollisionFree H (Ledger.empty.apply deployKeyLike).view
          (Ledger.empty.apply upsertCodeLike).view ∧
        computeRoot H (Ledger.empty.apply deployKeyLike).view =
          computeRoot H (Ledger.empty.apply upsertCodeLike).view := by
  refine ⟨bounded_deployKeyLike, bounded_upsertCodeLike, ?_, fun H =>
    ⟨collisionFree_of_singleton H leafInputs_deployKeyLike leafInputs_upsertCodeLike, ?_⟩⟩
  · have hcontracts : (Ledger.empty.apply upsertCodeLike).view.contracts = [] := rfl
    rw [hcontracts]
    exact List.cons_ne_nil _ _
  · rw [computeRoot, computeRoot, rootFromLeaves, rootFromLeaves, collectLeaves_eq,
      collectLeaves_eq, leafInputs_deployKeyLike, leafInputs_upsertCodeLike]

end Zalkanes
