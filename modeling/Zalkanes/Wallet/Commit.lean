import Zalkanes.Lib.Delimited
import Zalkanes.Wallet.Outside
import Zalkanes.Wallet.Prepared

/-!
# The Plan Commitment

The bytes that `commit_plan` hashes are written field by field, each of a fixed width or with its
length in front, so that they can be taken apart again: no two plans whose lists, scripts and
payloads have lengths of 16 bits have the same bytes (`preimage_inj`).

## Main results

* `delimits_input`, `delimits_anchor`, `delimits_output`, `delimits_change`: the parts of a plan.
* `preimage_inj`: the bytes determine the plan.
-/

namespace Zalkanes

open Lib

/-- An exact selected input. -/
structure PlanInput where
  /-- 0 is transparent, 1 Orchard, 2 Ironwood. -/
  pool : UInt8
  txid : Bytes32
  outputIndex : UInt32
  value : UInt64
  deriving DecidableEq

/-- An exact transparent output. -/
structure PlanOutput where
  value : UInt64
  script : Bytes
  deriving DecidableEq

/-- A pool-tagged shielded anchor. -/
structure PlanAnchor where
  pool : UInt8
  height : UInt32
  root : Bytes32
  deriving DecidableEq

/-- The exact shielded change. -/
structure PlanChange where
  value : UInt64
  pool : UInt8
  destinationBytes : Bytes
  deriving DecidableEq

/-- The arguments of `commit_plan`. -/
@[ext] structure CommitArgs where
  networkId : UInt8
  protocolVersion : UInt8
  pool : UInt8
  chainTipHeight : UInt32
  chainTipHash : Bytes32
  targetHeight : UInt32
  branchId : UInt32
  txVersion : UInt8
  expiryHeight : UInt32
  inputs : List PlanInput
  anchors : List PlanAnchor
  transparentOutputs : List PlanOutput
  shieldedChange : Option PlanChange
  fee : UInt64
  zalkPayload : Bytes
  kind : UInt8
  deriving DecidableEq

/-! ### The bytes -/

/-- `(n as u16).to_le_bytes()`. -/
def lePrefix (n : ℕ) : Bytes := leBytes 2 n

/-- Four bytes, the least first. -/
def le32 (n : UInt32) : Bytes := leBytes 4 n.toNat

/-- Eight bytes, the least first. -/
def le64 (n : UInt64) : Bytes := leBytes 8 n.toNat

/-- A byte string with its length in front. -/
def sizedBytes (bs : Bytes) : Bytes := lePrefix bs.length ++ bs

/-- A list with its length in front. -/
def countedList {α : Type} (write : α → Bytes) (xs : List α) : Bytes :=
  lePrefix xs.length ++ xs.flatMap write

/-- The bytes of an input. -/
def PlanInput.bytes (i : PlanInput) : Bytes :=
  [i.pool] ++ i.txid.bytes ++ le32 i.outputIndex ++ le64 i.value

/-- The bytes of an anchor. -/
def PlanAnchor.bytes (a : PlanAnchor) : Bytes := [a.pool] ++ le32 a.height ++ a.root.bytes

/-- The bytes of an output. -/
def PlanOutput.bytes (o : PlanOutput) : Bytes :=
  le64 o.value ++ sizedBytes o.script

/-- The bytes of a change. -/
def PlanChange.bytes (change : PlanChange) : Bytes :=
  le64 change.value ++ [change.pool] ++ sizedBytes change.destinationBytes

/-- The bytes of a change that may be missing. -/
def shieldedChangeBytes : Option PlanChange → Bytes
  | some change => 1 :: change.bytes
  | none => [0]

/-- The bytes that `commit_plan` hashes. -/
def CommitArgs.preimage (args : CommitArgs) : Bytes :=
  "ZALKANES_FUNDING_PLAN_V1\x00".toUTF8.toList ++
  [args.networkId] ++
  [args.protocolVersion] ++
  [args.pool] ++
  le32 args.chainTipHeight ++
  args.chainTipHash.bytes ++
  le32 args.targetHeight ++
  le32 args.branchId ++
  [args.txVersion] ++
  le32 args.expiryHeight ++
  countedList PlanInput.bytes args.inputs ++
  countedList PlanAnchor.bytes args.anchors ++
  countedList PlanOutput.bytes args.transparentOutputs ++
  shieldedChangeBytes args.shieldedChange ++
  le64 args.fee ++
  sizedBytes args.zalkPayload ++
  [args.kind]

/-- The canonical plan commitment. -/
def commitPlan (H : Hashing) (args : CommitArgs) : String :=
  hexEncode (H.sha256 args.preimage).bytes

/-- The lengths of 16 bits. -/
def ShortLength : Set ℕ := {n | n < 2 ^ 16}

/-- The lists have fewer than 2^16 entries, and scripts, payload and destination fewer than 2^16
bytes. -/
structure CommitArgs.Bounded (args : CommitArgs) : Prop where
  inputs : args.inputs.length ∈ ShortLength
  anchors : args.anchors.length ∈ ShortLength
  outputs : args.transparentOutputs.length ∈ ShortLength
  scripts : ∀ o ∈ args.transparentOutputs, o.script.length ∈ ShortLength
  destination : ∀ change, args.shieldedChange = some change →
    change.destinationBytes.length ∈ ShortLength
  payload : args.zalkPayload.length ∈ ShortLength

/-! ### Fields -/

/-- Different numbers of `w` bytes have different bytes. -/
theorem leBytes_inj {w m n : ℕ} (hm : m < 256 ^ w) (hn : n < 256 ^ w)
    (h : leBytes w m = leBytes w n) : m = n := by
  have hvalue := congrArg beValue (List.reverse_injective h)
  rwa [beValue_beBytes, beValue_beBytes, Nat.mod_eq_of_lt hm, Nat.mod_eq_of_lt hn] at hvalue

/-- A byte delimits itself. -/
theorem delimits_byte : Delimits Set.univ fun b : UInt8 => [b] :=
  delimits_of_length (fun _ _ => rfl) fun _ _ _ _ h => List.singleton_injective h

/-- A word of 32 bits delimits itself. -/
theorem delimits_le32 : Delimits Set.univ le32 :=
  delimits_of_length (fun _ _ => length_leBytes 4 _) fun m _ n _ h =>
    UInt32.toNat_inj.mp (leBytes_inj m.toNat_lt n.toNat_lt h)

/-- A word of 64 bits delimits itself. -/
theorem delimits_le64 : Delimits Set.univ le64 :=
  delimits_of_length (fun _ _ => length_leBytes 8 _) fun m _ n _ h =>
    UInt64.toNat_inj.mp (leBytes_inj m.toNat_lt n.toNat_lt h)

/-- 32 bytes delimit themselves. -/
theorem delimits_bytes32 : Delimits Set.univ Bytes32.bytes :=
  delimits_of_length (fun b _ => b.length_eq) fun _ _ _ _ h => Bytes32.ext h

/-- A length in front delimits itself. -/
theorem delimits_lePrefix : Delimits ShortLength lePrefix :=
  delimits_of_length (fun _ _ => length_leBytes 2 _) fun _ hm _ hn h => leBytes_inj hm hn h

/-- Bytes behind their length delimit themselves. -/
theorem delimits_sizedBytes : Delimits {bs : Bytes | bs.length ∈ ShortLength} sizedBytes :=
  delimits_lePrefix.sized

/-- A list behind its length delimits itself if its members do. -/
theorem delimits_countedList {α : Type} {S : Set α} {write : α → Bytes} (h : Delimits S write) :
    Delimits {xs : List α | xs.length ∈ ShortLength ∧ ∀ x ∈ xs, x ∈ S} (countedList write) :=
  delimits_lePrefix.counted h

/-! ### The parts of a plan -/

/-- An input delimits itself. -/
theorem delimits_input : Delimits Set.univ PlanInput.bytes := by
  refine (((delimits_byte.append delimits_bytes32).append delimits_le32).append delimits_le64).comp
    (e := fun i : PlanInput => (((i.pool, i.txid), i.outputIndex), i.value)) ?_
    fun _ _ => ⟨⟨⟨trivial, trivial⟩, trivial⟩, trivial⟩
  rintro ⟨pool, txid, outputIndex, value⟩ - ⟨pool', txid', outputIndex', value'⟩ - h
  simp only [Prod.mk.injEq] at h
  obtain ⟨⟨⟨rfl, rfl⟩, rfl⟩, rfl⟩ := h
  rfl

/-- An anchor delimits itself. -/
theorem delimits_anchor : Delimits Set.univ PlanAnchor.bytes := by
  refine ((delimits_byte.append delimits_le32).append delimits_bytes32).comp
    (e := fun a : PlanAnchor => ((a.pool, a.height), a.root)) ?_
    fun _ _ => ⟨⟨trivial, trivial⟩, trivial⟩
  rintro ⟨pool, height, root⟩ - ⟨pool', height', root'⟩ - h
  simp only [Prod.mk.injEq] at h
  obtain ⟨⟨rfl, rfl⟩, rfl⟩ := h
  rfl

/-- An output delimits itself. -/
theorem delimits_output :
    Delimits {o : PlanOutput | o.script.length ∈ ShortLength} PlanOutput.bytes := by
  refine (delimits_le64.append delimits_sizedBytes).comp
    (e := fun o : PlanOutput => (o.value, o.script)) ?_ fun _ hscript => ⟨trivial, hscript⟩
  rintro ⟨value, script⟩ - ⟨value', script'⟩ - h
  obtain ⟨rfl, rfl⟩ := Prod.mk.inj h
  rfl

/-- A change delimits itself. -/
theorem delimits_change :
    Delimits {change : PlanChange | change.destinationBytes.length ∈ ShortLength}
      PlanChange.bytes := by
  refine ((delimits_le64.append delimits_byte).append delimits_sizedBytes).comp
    (e := fun change : PlanChange => ((change.value, change.pool), change.destinationBytes)) ?_
    fun _ hdestination => ⟨⟨trivial, trivial⟩, hdestination⟩
  rintro ⟨value, pool, destination⟩ - ⟨value', pool', destination'⟩ - h
  simp only [Prod.mk.injEq] at h
  obtain ⟨⟨rfl, rfl⟩, rfl⟩ := h
  rfl

/-- A change that may be missing delimits itself. -/
theorem delimits_shieldedChange :
    Delimits {o : Option PlanChange | ∀ change, o = some change →
      change.destinationBytes.length ∈ ShortLength} shieldedChangeBytes := by
  have htagged : shieldedChangeBytes = fun o => o.elim [0] fun change => 1 :: change.bytes :=
    funext fun o => by cases o <;> rfl
  rw [htagged]
  exact delimits_change.tagged (show (0 : UInt8) ≠ 1 by decide)

/-! ### The whole plan -/

/-- **The bytes that are hashed determine the plan.** -/
theorem preimage_inj {args args' : CommitArgs} (hargs : args.Bounded) (hargs' : args'.Bounded) :
    args.preimage = args'.preimage ↔ args = args' := by
  refine ⟨fun h => ?_, congrArg _⟩
  simp only [CommitArgs.preimage, List.append_assoc] at h
  have h₀ := List.append_cancel_left h
  obtain ⟨hnetworkId, h₁⟩ := delimits_byte _ trivial _ trivial _ _ h₀
  obtain ⟨hprotocolVersion, h₂⟩ := delimits_byte _ trivial _ trivial _ _ h₁
  obtain ⟨hpool, h₃⟩ := delimits_byte _ trivial _ trivial _ _ h₂
  obtain ⟨htipHeight, h₄⟩ := delimits_le32 _ trivial _ trivial _ _ h₃
  obtain ⟨htipHash, h₅⟩ := delimits_bytes32 _ trivial _ trivial _ _ h₄
  obtain ⟨htargetHeight, h₆⟩ := delimits_le32 _ trivial _ trivial _ _ h₅
  obtain ⟨hbranchId, h₇⟩ := delimits_le32 _ trivial _ trivial _ _ h₆
  obtain ⟨htxVersion, h₈⟩ := delimits_byte _ trivial _ trivial _ _ h₇
  obtain ⟨hexpiryHeight, h₉⟩ := delimits_le32 _ trivial _ trivial _ _ h₈
  obtain ⟨hinputs, h₁₀⟩ := delimits_countedList delimits_input _
    ⟨hargs.inputs, fun _ _ => trivial⟩ _ ⟨hargs'.inputs, fun _ _ => trivial⟩ _ _ h₉
  obtain ⟨hanchors, h₁₁⟩ := delimits_countedList delimits_anchor _
    ⟨hargs.anchors, fun _ _ => trivial⟩ _ ⟨hargs'.anchors, fun _ _ => trivial⟩ _ _ h₁₀
  obtain ⟨houtputs, h₁₂⟩ := delimits_countedList delimits_output _
    ⟨hargs.outputs, hargs.scripts⟩ _ ⟨hargs'.outputs, hargs'.scripts⟩ _ _ h₁₁
  obtain ⟨hchange, h₁₃⟩ := delimits_shieldedChange _ hargs.destination _ hargs'.destination _ _ h₁₂
  obtain ⟨hfee, h₁₄⟩ := delimits_le64 _ trivial _ trivial _ _ h₁₃
  obtain ⟨hpayload, hlast⟩ := delimits_sizedBytes _ hargs.payload _ hargs'.payload _ _ h₁₄
  have hkind := List.singleton_injective hlast
  exact CommitArgs.ext hnetworkId hprotocolVersion hpool htipHeight htipHash htargetHeight hbranchId
    htxVersion hexpiryHeight hinputs hanchors houtputs hchange hfee hpayload hkind

/-- A plan with two outputs of value 0. -/
def twoOutputs (first second : Bytes) : CommitArgs :=
  ⟨0, 0, 0, 0, .replicate 0, 0, 0, 5, 0, [], [], [⟨0, first⟩, ⟨0, second⟩], none, 0, [], 0⟩

/-- Two outputs with short scripts are within the bounds. -/
theorem bounded_twoOutputs {first second : Bytes} (hfirst : first.length ∈ ShortLength)
    (hsecond : second.length ∈ ShortLength) : (twoOutputs first second).Bounded := by
  have hempty : 0 ∈ ShortLength := show 0 < 2 ^ 16 by decide
  refine ⟨hempty, hempty, show 2 < 2 ^ 16 by decide, fun o ho => ?_, fun change hchange => ?_,
    hempty⟩
  · rcases List.mem_cons.mp ho with rfl | ho
    · exact hfirst
    · rw [List.mem_singleton.mp ho]
      exact hsecond
  · cases hchange

/-- A byte that moves from one script to the next changes what is hashed. -/
theorem preimage_inj_twoOutputs :
    (twoOutputs [1] []).preimage ≠ (twoOutputs [] [1]).preimage := by
  have hzero : ([] : Bytes).length ∈ ShortLength := show 0 < 2 ^ 16 by decide
  have hone : ([1] : Bytes).length ∈ ShortLength := show 1 < 2 ^ 16 by decide
  exact (preimage_inj (bounded_twoOutputs hone hzero) (bounded_twoOutputs hzero hone)).not.mpr
    (by decide)

end Zalkanes
