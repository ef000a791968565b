import Zalkanes.Types
import Zalkanes.Lib.Machine

/-!
# The Keystore File

The seed of a wallet is kept in a file: a clear header of magic, version, network and account, and
the seed under a passphrase. The encryption is external, so it is a parameter (`Age`); what opens
under a passphrase was encrypted under it, and the header is not part of that.

## Main results

* `Keystore.path_create`: a `create` that fails leaves the keystore as it was.
* `Keystore.info_eq_ok`, `Keystore.unlock_eq_ok`: what a file must be for its readers to succeed.
* `Keystore.detectsTampering_iff`: a modification goes unnoticed exactly when it puts another
  network or account in front of the encrypted seed, or puts another seed that was encrypted under
  the same passphrase in its place.
-/

namespace Zalkanes

open Lib

/-! ### Passphrase encryption -/

/-- Where encrypting a seed fails, with the message of the library. -/
inductive EncryptError where
  | encryptor (e : String)
  | write (e : String)
  | finish (e : String)

/-- What the user sees. -/
def EncryptError.message : EncryptError → String
  | encryptor e => "keystore: encryptor: " ++ e
  | write e => "keystore: write: " ++ e
  | finish e => "keystore: finish: " ++ e

/-- Where decrypting a ciphertext fails: at its own header, at the passphrase, or at its payload. -/
inductive DecryptError where
  | unreadable
  | wrongPassphrase
  | truncated

/-- What the user sees. -/
def DecryptError.message : DecryptError → String
  | unreadable => "keystore: unreadable or corrupt keystore file"
  | wrongPassphrase => "keystore: wrong passphrase or corrupt keystore"
  | truncated => "keystore: truncated or corrupt keystore payload"

/-- Encryption under a passphrase. -/
structure Age where
  encrypt : (passphrase : String) → (randomness seed : Bytes) → Except EncryptError Bytes
  decrypt : (passphrase : String) → (ciphertext : Bytes) → Except DecryptError Bytes

/-- **The encryption authenticates its ciphertexts**: what was encrypted opens, and what opens under
a passphrase was encrypted under it. -/
structure Age.Authenticates (age : Age) : Prop where
  opens : ∀ {passphrase randomness seed ciphertext},
    age.encrypt passphrase randomness seed = .ok ciphertext →
      age.decrypt passphrase ciphertext = .ok seed
  written : ∀ {passphrase ciphertext seed}, age.decrypt passphrase ciphertext = .ok seed →
    ∃ randomness, age.encrypt passphrase randomness seed = .ok ciphertext

/-! ### The header -/

/-- Keystore file magic. -/
def keystoreMagic : Bytes := [0x5A, 0x41, 0x4C, 0x4B, 0x4B, 0x45, 0x59, 0x00]

/-- The version of the format. -/
def keystoreVersion : UInt8 := 1

/-- The magic bytes, the version, the network and the account. -/
def keystoreHeaderLen : ℕ := keystoreMagic.length + 6

/-- Which network the account of a keystore belongs to. -/
inductive KeystoreNetwork where
  | mainnet
  | testnet
  | regtest
  deriving DecidableEq

namespace KeystoreNetwork

/-- The byte of a network. -/
def tag : KeystoreNetwork → UInt8
  | mainnet => 0
  | testnet => 1
  | regtest => 2

/-- The network of a byte. -/
def fromTag (tag : UInt8) : Except String KeystoreNetwork :=
  if tag = 0 then .ok mainnet
  else if tag = 1 then .ok testnet
  else if tag = 2 then .ok regtest
  else .error ("keystore: unknown network tag " ++ toString tag)

/-- The name of a network. -/
def asStr : KeystoreNetwork → String
  | mainnet => "mainnet"
  | testnet => "testnet"
  | regtest => "regtest"

/-- Networks come back. -/
theorem fromTag_tag (network : KeystoreNetwork) : fromTag network.tag = .ok network := by
  cases network <;> rfl

/-- A byte that is a network is its byte. -/
theorem tag_of_fromTag {t : UInt8} {network : KeystoreNetwork} (h : fromTag t = .ok network) :
    network.tag = t := by
  rw [fromTag] at h
  split_ifs at h with hmainnet htestnet hregtest
  · cases h
    exact hmainnet.symm
  · cases h
    exact htestnet.symm
  · cases h
    exact hregtest.symm

/-- Different networks have different bytes. -/
theorem tag_injective : Function.Injective tag := fun a b h => by
  cases a <;> cases b <;> simp_all [tag]

end KeystoreNetwork

/-- The non-secret header of a keystore file. -/
structure KeystoreInfo where
  version : UInt8
  network : KeystoreNetwork
  account : UInt32
  deriving DecidableEq

/-- The header that `create` writes. -/
def keystoreHeader (network : KeystoreNetwork) (account : UInt32) : Bytes :=
  keystoreMagic ++ (keystoreVersion :: network.tag :: be32 account)

/-- A header has its length. -/
@[simp] theorem length_keystoreHeader (network : KeystoreNetwork) (account : UInt32) :
    (keystoreHeader network account).length = keystoreHeaderLen := by
  simp [keystoreHeader, keystoreHeaderLen]

/-- A file determines its header and its body. -/
theorem keystoreHeader_append_inj {network network' : KeystoreNetwork} {account account' : UInt32}
    {body body' : Bytes}
    (h : keystoreHeader network account ++ body = keystoreHeader network' account' ++ body') :
    network = network' ∧ account = account' ∧ body = body' := by
  obtain ⟨hheader, hbody⟩ := List.append_inj h (by simp)
  rw [keystoreHeader, keystoreHeader, List.append_cancel_left_eq, List.cons.injEq,
    List.cons.injEq] at hheader
  exact ⟨KeystoreNetwork.tag_injective hheader.2.1, be32_injective hheader.2.2, hbody⟩

/-- Take a keystore file apart. -/
def keystoreParts (blob : Bytes) : Except String (KeystoreInfo × Bytes) :=
  if blob.length < keystoreHeaderLen then
    .error "keystore: file is truncated (shorter than its header)"
  else if blob.take keystoreMagic.length ≠ keystoreMagic then
    .error "keystore: not a Zalkanes keystore (bad magic)"
  else
    let version := blob.getD keystoreMagic.length 0
    if version ≠ keystoreVersion then
      .error ("keystore: unsupported keystore version " ++ toString version ++ " (expected " ++
        toString keystoreVersion ++ ")")
    else do
      let network ← KeystoreNetwork.fromTag (blob.getD (keystoreMagic.length + 1) 0)
      let account := ofBe32 ((blob.drop (keystoreMagic.length + 2)).take 4)
      return (⟨version, network, account⟩, blob.drop keystoreHeaderLen)

/-- The fields of a file behind its magic. -/
theorem keystoreParts_append (version tag : UInt8) (account : UInt32) (body : Bytes) :
    keystoreParts (keystoreMagic ++ (version :: tag :: (be32 account ++ body))) =
      if version ≠ keystoreVersion then
        .error ("keystore: unsupported keystore version " ++ toString version ++ " (expected " ++
          toString keystoreVersion ++ ")")
      else do
        let network ← KeystoreNetwork.fromTag tag
        return (⟨version, network, account⟩, body) := by
  have hlength : ¬ (keystoreMagic ++ (version :: tag :: (be32 account ++ body))).length <
      keystoreHeaderLen := by
    simp [keystoreHeaderLen]
  have haccount : (((keystoreMagic ++ (version :: tag :: (be32 account ++ body))).drop
      (keystoreMagic.length + 2)).take 4) = be32 account := List.take_left' (length_be32 account)
  have hbody : (keystoreMagic ++ (version :: tag :: (be32 account ++ body))).drop
      keystoreHeaderLen = body := List.drop_left' (length_be32 account)
  rw [keystoreParts, if_neg hlength, if_neg (not_not.mpr (List.take_left' rfl)), haccount, hbody,
    ofBe32_be32]
  rfl

/-- A file that is taken apart has all the fields of a header. -/
theorem exists_fields_of_keystoreParts {blob : Bytes} {parts : KeystoreInfo × Bytes}
    (h : keystoreParts blob = .ok parts) :
    ∃ version tag account body,
      blob = keystoreMagic ++ (version :: tag :: (be32 account ++ body)) := by
  rw [keystoreParts] at h
  split at h
  · cases h
  rename_i hlength
  split at h
  · cases h
  rename_i hmagic
  have hblob := List.take_append_drop keystoreMagic.length blob
  rw [not_not.mp hmagic] at hblob
  have hrest : (blob.drop keystoreMagic.length).length ≥ 6 := by
    rw [List.length_drop]
    rw [keystoreHeaderLen] at hlength
    omega
  rcases hfields : blob.drop keystoreMagic.length with - | ⟨version, - | ⟨tag, rest⟩⟩
  · simp [hfields] at hrest
  · simp [hfields] at hrest
  · rw [hfields, List.length_cons, List.length_cons] at hrest
    obtain ⟨account, body, hbody, -⟩ := exists_be32_append rest (by omega)
    exact ⟨version, tag, account, body, by rw [← hbody, ← hfields, hblob]⟩

/-- **A keystore file** is a header of this version and a body. -/
theorem keystoreParts_eq_ok {blob body : Bytes} {info : KeystoreInfo} :
    keystoreParts blob = .ok (info, body) ↔
      info.version = keystoreVersion ∧
        blob = keystoreHeader info.network info.account ++ body := by
  constructor
  · intro h
    obtain ⟨version, tag, account, rest, rfl⟩ := exists_fields_of_keystoreParts h
    rw [keystoreParts_append] at h
    split at h
    · cases h
    rename_i hversion
    obtain ⟨network, hnetwork, hinfo⟩ := bind_eq_ok h
    cases hinfo
    exact ⟨not_not.mp hversion, by
      rw [← KeystoreNetwork.tag_of_fromTag hnetwork, keystoreHeader, ← not_not.mp hversion]; simp⟩
  · rintro ⟨hversion, rfl⟩
    obtain ⟨version, network, account⟩ := info
    obtain rfl : version = keystoreVersion := hversion
    have hparts := keystoreParts_append keystoreVersion network.tag account body
    rw [if_neg (not_not.mpr rfl), KeystoreNetwork.fromTag_tag] at hparts
    rw [keystoreHeader, List.append_assoc]
    exact hparts

/-! ### The store -/

/-- The files of a machine. -/
abbrev Disk := String → Option Bytes

/-- An on-disk encrypted seed keystore. -/
structure Keystore where
  path : String
  /-- The path with the extension `tmp`. -/
  tmp : String

/-- The operating system's part in a `create`: a failed call is the last one. -/
inductive CreateFault where
  | create
  /-- So many bytes are written before the failure. -/
  | write (written : ℕ)
  | sync
  | chmod
  | rename

namespace Keystore

/-- Write the temporary file, and rename it into place. -/
def writeFile (ks : Keystore) (fault : Option CreateFault) (blob : Bytes) (disk : Disk) :
    Disk × Except String Unit :=
  if (disk ks.tmp).isSome then (disk, .error ("keystore: create " ++ ks.tmp))
  else
    let written := Function.update disk ks.tmp (some blob)
    match fault with
    | some .create => (disk, .error ("keystore: create " ++ ks.tmp))
    | some (.write n) =>
        (Function.update disk ks.tmp (some (blob.take n)),
          .error "keystore: write temporary file")
    | some .sync => (written, .error "keystore: fsync")
    | some .chmod => (written, .error "keystore: chmod 600")
    | some .rename => (written, .error "keystore: rename into place")
    | none => (Function.update (Function.update disk ks.tmp none) ks.path (some blob), .ok ())

/-- Create a new keystore from a seed. -/
def create (ks : Keystore) (age : Age) (randomness : Bytes) (fault : Option CreateFault)
    (passphrase : String) (seed : Bytes) (network : KeystoreNetwork) (account : UInt32)
    (disk : Disk) : Disk × Except String Unit :=
  if seed.length < 32 then (disk, .error "keystore: seed must be at least 32 bytes")
  else if passphrase.isEmpty then (disk, .error "keystore: passphrase must not be empty")
  else if (disk ks.path).isSome then
    (disk, .error ("keystore: " ++ ks.path ++ " already exists; refusing to overwrite a seed"))
  else
    match age.encrypt passphrase randomness seed with
    | .error e => (disk, .error e.message)
    | .ok ciphertext =>
        ks.writeFile fault (keystoreHeader network account ++ ciphertext) disk

/-- Reads the file and splits it. -/
def readParts (ks : Keystore) (disk : Disk) : Except String (KeystoreInfo × Bytes) :=
  match disk ks.path with
  | none => .error ("keystore: read " ++ ks.path)
  | some blob => keystoreParts blob

/-- Read the non-secret header. -/
def info (ks : Keystore) (disk : Disk) : Except String KeystoreInfo :=
  (ks.readParts disk).map Prod.fst

/-- Decrypt the seed. -/
def unlock (ks : Keystore) (age : Age) (passphrase : String) (expected : KeystoreNetwork)
    (disk : Disk) : Except String Bytes := do
  let (info, ciphertext) ← ks.readParts disk
  if info.network ≠ expected then
    .error ("keystore: network mismatch (file is " ++ info.network.asStr ++ ", requested " ++
      expected.asStr ++ ")")
  else
    match age.decrypt passphrase ciphertext with
    | .error e => .error e.message
    | .ok seed =>
        if seed.length < 32 then .error "keystore: decrypted seed is too short" else .ok seed

/-- What a caller learns from a keystore: its header and its seed. -/
def openFile (ks : Keystore) (age : Age) (passphrase : String) (expected : KeystoreNetwork)
    (disk : Disk) : Except String (KeystoreInfo × Bytes) := do
  let info ← ks.info disk
  let seed ← ks.unlock age passphrase expected disk
  return (info, seed)

/-! ### What the operations do -/

/-- A file is renamed into place, or the keystore is as it was. -/
theorem writeFile_cases (ks : Keystore) (fault : Option CreateFault) (blob : Bytes) (disk : Disk) :
    ks.writeFile fault blob disk =
        (Function.update (Function.update disk ks.tmp none) ks.path (some blob), .ok ()) ∨
      ∃ disk' e, ks.writeFile fault blob disk = (disk', .error e) ∧
        (ks.tmp ≠ ks.path → disk' ks.path = disk ks.path) := by
  rw [writeFile]
  split
  · exact Or.inr ⟨_, _, rfl, fun _ => rfl⟩
  · dsimp only
    split
    · exact Or.inr ⟨_, _, rfl, fun _ => rfl⟩
    · exact Or.inr ⟨_, _, rfl, fun hne => Function.update_of_ne hne.symm _ _⟩
    · exact Or.inr ⟨_, _, rfl, fun hne => Function.update_of_ne hne.symm _ _⟩
    · exact Or.inr ⟨_, _, rfl, fun hne => Function.update_of_ne hne.symm _ _⟩
    · exact Or.inr ⟨_, _, rfl, fun hne => Function.update_of_ne hne.symm _ _⟩
    · exact Or.inl rfl

section Create

variable {ks : Keystore} {age : Age} {randomness : Bytes} {fault : Option CreateFault}
  {passphrase : String} {seed : Bytes} {network : KeystoreNetwork} {account : UInt32}
  {disk disk' : Disk}

/-- **A keystore that is created** is a header and the encrypted seed, where there was none. -/
theorem create_eq_ok
    (h : ks.create age randomness fault passphrase seed network account disk = (disk', .ok ())) :
    32 ≤ seed.length ∧ passphrase.isEmpty = false ∧ disk ks.path = none ∧
      ∃ ciphertext, age.encrypt passphrase randomness seed = .ok ciphertext ∧
        disk' ks.path = some (keystoreHeader network account ++ ciphertext) := by
  rw [create] at h
  split at h
  · cases h
  rename_i hseed
  split at h
  · cases h
  rename_i hpassphrase
  split at h
  · cases h
  rename_i hexists
  split at h
  · cases h
  rename_i ciphertext hencrypt
  refine ⟨Nat.not_lt.mp hseed, Bool.not_eq_true _ ▸ hpassphrase,
    Option.not_isSome_iff_eq_none.mp hexists, ciphertext, hencrypt, ?_⟩
  rcases writeFile_cases ks fault (keystoreHeader network account ++ ciphertext) disk with
    hwrite | ⟨_, e, hwrite, -⟩
  · rw [hwrite] at h
    rw [← (Prod.mk.inj h).1, Function.update_self]
  · rw [hwrite] at h
    cases h

/-- **A `create` that fails** leaves the keystore as it was. -/
theorem path_create (hne : ks.tmp ≠ ks.path) {e : String}
    (h : ks.create age randomness fault passphrase seed network account disk = (disk', .error e)) :
    disk' ks.path = disk ks.path := by
  rw [create] at h
  split at h
  · cases h
    rfl
  split at h
  · cases h
    rfl
  split at h
  · cases h
    rfl
  split at h
  · cases h
    rfl
  rename_i ciphertext _
  rcases writeFile_cases ks fault (keystoreHeader network account ++ ciphertext) disk with
    hwrite | ⟨_, _, hwrite, hkept⟩
  · rw [hwrite] at h
    cases h
  · rw [hwrite] at h
    cases h
    exact hkept hne

end Create

section Read

variable {ks : Keystore} {age : Age} {passphrase : String} {expected : KeystoreNetwork}
  {disk : Disk}

/-- A file that splits is a header and what follows. -/
theorem readParts_eq_ok {info : KeystoreInfo} {body : Bytes} :
    ks.readParts disk = .ok (info, body) ↔ info.version = keystoreVersion ∧
      disk ks.path = some (keystoreHeader info.network info.account ++ body) := by
  rw [readParts]
  cases hfile : disk ks.path with
  | none => simp
  | some blob =>
      dsimp only
      rw [keystoreParts_eq_ok, Option.some.injEq]

/-- What it says is its header. -/
theorem info_eq_ok {info : KeystoreInfo} :
    ks.info disk = .ok info ↔ info.version = keystoreVersion ∧
      ∃ body, disk ks.path = some (keystoreHeader info.network info.account ++ body) := by
  constructor
  · intro h
    obtain ⟨⟨_, body⟩, hparts, rfl⟩ := map_eq_ok h
    obtain ⟨hversion, hfile⟩ := readParts_eq_ok.mp hparts
    exact ⟨hversion, body, hfile⟩
  · rintro ⟨hversion, body, hfile⟩
    rw [Keystore.info, readParts_eq_ok.mpr ⟨hversion, hfile⟩]
    rfl

/-- **A keystore unlocks** when its header names the network and its body decrypts to a seed. -/
theorem unlock_eq_ok {seed : Bytes} :
    ks.unlock age passphrase expected disk = .ok seed ↔ 32 ≤ seed.length ∧
      ∃ account body, disk ks.path = some (keystoreHeader expected account ++ body) ∧
        age.decrypt passphrase body = .ok seed := by
  constructor
  · intro h
    obtain ⟨⟨info, body⟩, hparts, h⟩ := bind_eq_ok h
    obtain ⟨-, hfile⟩ := readParts_eq_ok.mp hparts
    dsimp only at h
    split at h
    · cases h
    rename_i hnetwork
    split at h
    · cases h
    rename_i seed' hdecrypt
    split at h
    · cases h
    rename_i hseed
    cases h
    rw [not_not.mp hnetwork] at hfile
    exact ⟨Nat.not_lt.mp hseed, info.account, body, hfile, hdecrypt⟩
  · rintro ⟨hseed, account, body, hfile, hdecrypt⟩
    have hparts : ks.readParts disk = .ok (⟨keystoreVersion, expected, account⟩, body) :=
      readParts_eq_ok.mpr ⟨rfl, hfile⟩
    have hlength : ¬ seed.length < 32 := Nat.not_lt.mpr hseed
    rw [unlock, hparts]
    change (if expected ≠ expected then _ else _) = _
    rw [if_neg (not_not.mpr rfl), hdecrypt]
    exact if_neg hlength

/-- **A keystore opens** with the header and the seed that are in it. -/
theorem openFile_eq_ok {info : KeystoreInfo} {seed : Bytes} :
    ks.openFile age passphrase expected disk = .ok (info, seed) ↔
      info.version = keystoreVersion ∧ info.network = expected ∧ 32 ≤ seed.length ∧
        ∃ body, disk ks.path = some (keystoreHeader info.network info.account ++ body) ∧
          age.decrypt passphrase body = .ok seed := by
  constructor
  · intro h
    obtain ⟨_, hinfo, h⟩ := bind_eq_ok h
    obtain ⟨_, hunlock, h⟩ := bind_eq_ok h
    cases h
    obtain ⟨hversion, body, hfile⟩ := info_eq_ok.mp hinfo
    obtain ⟨hseed, account, body', hfile', hdecrypt⟩ := unlock_eq_ok.mp hunlock
    obtain ⟨hnetwork, haccount, rfl⟩ :=
      keystoreHeader_append_inj (Option.some.inj (hfile.symm.trans hfile'))
    exact ⟨hversion, hnetwork, hseed, body, hfile, hdecrypt⟩
  · rintro ⟨hversion, rfl, hseed, body, hfile, hdecrypt⟩
    have hinfo : ks.info disk = .ok info := info_eq_ok.mpr ⟨hversion, body, hfile⟩
    have hunlock : ks.unlock age passphrase info.network disk = .ok seed :=
      unlock_eq_ok.mpr ⟨hseed, info.account, body, hfile, hdecrypt⟩
    rw [openFile, hinfo]
    change (ks.unlock age passphrase info.network disk >>= fun seed => _) = _
    rw [hunlock]
    rfl

end Read

/-! ### Tampering -/

/-- The disk with other bytes in the keystore. -/
def tamper (ks : Keystore) (file : Bytes) (disk : Disk) : Disk :=
  Function.update disk ks.path (some file)

/-- With the bytes `file'` in place of `file`, the keystore fails to open or is the one that was
created: it shows this network and account and unlocks this seed. When only the header was
changed, it does not unlock for another network, and does not show another account either. -/
structure DetectsTampering (ks : Keystore) (age : Age) (passphrase : String) (seed : Bytes)
    (network : KeystoreNetwork) (account : UInt32) (disk : Disk) (file file' : Bytes) : Prop where
  opened : ∀ expected info seed',
    ks.openFile age passphrase expected (ks.tamper file' disk) = .ok (info, seed') →
      info.network = network ∧ info.account = account ∧ seed' = seed
  headerAlone : file'.drop keystoreHeaderLen = file.drop keystoreHeaderLen →
    (∀ expected seed',
      ks.unlock age passphrase expected (ks.tamper file' disk) = .ok seed' → expected = network) ∧
    ∀ info, ks.info (ks.tamper file' disk) = .ok info → info.account = account

/-- **The file is of another wallet**: a header in front of a seed that was encrypted under the
passphrase, with another network, account or seed. The body may be the one that was created, or that
of another keystore with the same passphrase. -/
def Substitutes (age : Age) (passphrase : String) (seed : Bytes) (network : KeystoreNetwork)
    (account : UInt32) (file' : Bytes) : Prop :=
  ∃ network' account' randomness seed' body,
    age.encrypt passphrase randomness seed' = .ok body ∧ 32 ≤ seed'.length ∧
      file' = keystoreHeader network' account' ++ body ∧
      ¬ (network' = network ∧ account' = account ∧ seed' = seed)

section Tampering

variable {ks : Keystore} {age : Age} {randomness : Bytes} {fault : Option CreateFault}
  {passphrase : String} {seed : Bytes} {network : KeystoreNetwork} {account : UInt32}
  {disk disk' : Disk}

/-- The file is replaced. -/
@[simp] theorem tamper_path (ks : Keystore) (file : Bytes) (disk : Disk) :
    ks.tamper file disk ks.path = some file := Function.update_self _ _ _

/-- A file that is not of another wallet, and opens, is of this one. -/
theorem eq_of_not_substitutes (hage : age.Authenticates) {file' body seed' : Bytes}
    {network' : KeystoreNetwork} {account' : UInt32}
    (hnot : ¬ Substitutes age passphrase seed network account file')
    (hfile : file' = keystoreHeader network' account' ++ body)
    (hdecrypt : age.decrypt passphrase body = .ok seed') (hlength : 32 ≤ seed'.length) :
    network' = network ∧ account' = account ∧ seed' = seed := by
  obtain ⟨randomness, hencrypt⟩ := hage.written hdecrypt
  by_contra hother
  exact hnot ⟨network', account', randomness, seed', body, hencrypt, hlength, hfile, hother⟩

/-- **Which tampering is detected**: for a keystore that was created, all of it but a header and a
body of another wallet under the same passphrase. -/
theorem detectsTampering_iff {file : Bytes}
    (hcreate : ks.create age randomness fault passphrase seed network account disk =
      (disk', .ok ()))
    (hfile : disk' ks.path = some file) (hage : age.Authenticates) (file' : Bytes) :
    ks.DetectsTampering age passphrase seed network account disk' file file' ↔
      ¬ Substitutes age passphrase seed network account file' := by
  obtain ⟨hseed, -, -, ciphertext, hencrypt, hwritten⟩ := create_eq_ok hcreate
  obtain rfl := Option.some.inj (hfile.symm.trans hwritten)
  constructor
  · rintro hdetects ⟨network', account', randomness', seed', body, hencrypt', hseed', rfl, hother⟩
    have hopen : ks.openFile age passphrase network' (ks.tamper
        (keystoreHeader network' account' ++ body) disk') =
        .ok (⟨keystoreVersion, network', account'⟩, seed') :=
      openFile_eq_ok.mpr ⟨rfl, rfl, hseed', body, tamper_path _ _ _, hage.opens hencrypt'⟩
    exact hother (hdetects.opened _ _ _ hopen)
  · intro hnot
    constructor
    · intro expected info seed' hopen
      obtain ⟨-, -, hseed', body, hpath, hdecrypt⟩ := openFile_eq_ok.mp hopen
      rw [tamper_path] at hpath
      exact eq_of_not_substitutes hage hnot (Option.some.inj hpath) hdecrypt hseed'
    · intro hdrop
      refine ⟨fun expected seed' hunlock => ?_, fun info hinfo => ?_⟩
      · obtain ⟨hseed', account', body, hpath, hdecrypt⟩ := unlock_eq_ok.mp hunlock
        rw [tamper_path] at hpath
        exact (eq_of_not_substitutes hage hnot (Option.some.inj hpath) hdecrypt hseed').1
      · -- the body is the one that was created
        obtain ⟨-, body, hpath⟩ := info_eq_ok.mp hinfo
        rw [tamper_path] at hpath
        obtain rfl := Option.some.inj hpath
        rw [List.drop_left' (length_keystoreHeader _ _),
          List.drop_left' (length_keystoreHeader _ _)] at hdrop
        exact (eq_of_not_substitutes hage hnot rfl (hdrop ▸ hage.opens hencrypt) hseed).2.1

end Tampering

/-! ### A keystore on the wrong network -/

/-- An encryption that puts a random byte and the passphrase in front of the seed. -/
def salted : Age where
  encrypt passphrase randomness seed := .ok (randomness.headD 0 :: (ascii passphrase ++ seed))
  decrypt passphrase ciphertext :=
    match ciphertext with
    | [] => .error .unreadable
    | _ :: sealed =>
        if sealed.take (ascii passphrase).length = ascii passphrase then
          .ok (sealed.drop (ascii passphrase).length)
        else .error .wrongPassphrase

/-- It authenticates its ciphertexts: it opens what it wrote under the passphrase, whoever asked for
it. -/
theorem authenticates_salted : salted.Authenticates where
  opens := by
    intro passphrase randomness seed ciphertext h
    cases h
    simp [salted]
  written := by
    intro passphrase ciphertext seed h
    cases ciphertext with
    | nil => cases h
    | cons salt sealed =>
        rw [salted] at h
        dsimp only at h
        split at h
        · rename_i htake
          cases h
          refine ⟨[salt], congrArg (fun rest => Except.ok (salt :: rest)) ?_⟩
          nth_rewrite 1 [← htake]
          exact List.take_append_drop _ _
        · cases h

/-- A keystore. -/
def someKeystore : Keystore := ⟨"keystore.age", "keystore.tmp"⟩

/-- A seed. -/
def someSeed : Bytes := List.replicate 32 7

/-- The seed under the passphrase. -/
def someCiphertext : Bytes := 0 :: (ascii "pass" ++ someSeed)

/-- The keystore of account 0 on the test network. -/
def someFile : Bytes := keystoreHeader .testnet 0 ++ someCiphertext

/-- It is created on an empty disk. -/
theorem create_someFile :
    someKeystore.create salted [] none "pass" someSeed .testnet 0 (fun _ => none) =
      (Function.update (Function.update (fun _ => none) "keystore.tmp" none) "keystore.age"
        (some someFile), .ok ()) := rfl

/-- A modification of the body that is not what was written under the passphrase is detected, and
the body of another keystore under the passphrase is not. -/
theorem detectsTampering_body :
    let disk : Disk := Function.update (Function.update (fun _ => none) "keystore.tmp" none)
      "keystore.age" (some someFile)
    someKeystore.DetectsTampering salted "pass" someSeed .testnet 0 disk someFile
        (keystoreHeader .testnet 0 ++ 0 :: (ascii "past" ++ someSeed)) ∧
      ¬ someKeystore.DetectsTampering salted "pass" someSeed .testnet 0 disk someFile
        (keystoreHeader .testnet 0 ++ 1 :: (ascii "pass" ++ List.replicate 32 8)) := by
  intro disk
  constructor
  · refine (detectsTampering_iff create_someFile rfl authenticates_salted _).mpr ?_
    rintro ⟨network, account, randomness, seed', body, hencrypt, -, hfile, -⟩
    obtain rfl := (keystoreHeader_append_inj hfile).2.2
    have hpassphrase := congrArg (List.take 4) (List.cons.inj (Except.ok.inj hencrypt)).2
    exact absurd hpassphrase (by simp [ascii])
  · refine (detectsTampering_iff create_someFile rfl authenticates_salted _).not.mpr
      (not_not.mpr ⟨.testnet, 0, [1], List.replicate 32 8, _, rfl, by decide, rfl, ?_⟩)
    rintro ⟨-, -, hseed⟩
    exact absurd hseed (by decide)

/-- The same keystore with the tag of the main network and account 5. It unlocks there, with the
seed of the test network. -/
theorem not_detectsTampering_header :
    let disk : Disk := Function.update (Function.update (fun _ => none) "keystore.tmp" none)
      "keystore.age" (some someFile)
    someKeystore.create salted [] none "pass" someSeed .testnet 0 (fun _ => none) =
        (disk, .ok ()) ∧
      salted.Authenticates ∧
      ¬ ∀ file', someKeystore.DetectsTampering salted "pass" someSeed .testnet 0 disk someFile
        file' := by
  intro disk
  refine ⟨create_someFile, authenticates_salted, fun h => ?_⟩
  have hopen : someKeystore.openFile salted "pass" .mainnet
      (someKeystore.tamper (keystoreHeader .mainnet 5 ++ someCiphertext) disk) =
      .ok (⟨keystoreVersion, .mainnet, 5⟩, someSeed) :=
    openFile_eq_ok.mpr ⟨rfl, rfl, by decide, someCiphertext, tamper_path _ _ _,
      authenticates_salted.opens
        (show salted.encrypt "pass" [] someSeed = .ok someCiphertext from rfl)⟩
  obtain ⟨hnetwork, -⟩ := (h _).opened _ _ _ hopen
  cases hnetwork

end Keystore

end Zalkanes
