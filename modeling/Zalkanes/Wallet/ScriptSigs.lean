import Zalkanes.Wallet.VerifyExtracted

/-!
# Whole ScriptSigs

A scriptSig is to be, from its first byte to its last, the pushes that its input needs. The final
check reads the pushes up to the first thing that is none, and looks at nothing behind it, nor at a
scriptSig without an input. So it binds the whole of what it accepts exactly where the reader comes
to the end of each scriptSig (`scriptSigs_whole_iff`).

## Main results

* `pushes_iff`: what a script pushes is what is read from it, if it is read to its end.
* `scriptSigs_whole_iff`: exactly when the accepted scriptSigs are those of the plan.
-/

namespace Zalkanes

open Lib

/-! ### Pushes -/

/-- What stands in front of a push of so many bytes. -/
inductive PushHeader : Bytes → ℕ → Prop
  /-- The opcode is the length; `OP_0` pushes nothing. -/
  | direct {n : UInt8} (h : n ≤ 0x4b) : PushHeader [n] n.toNat
  | pushdata1 {field : Bytes} (h : field.length = 1) : PushHeader (0x4c :: field) (leValue field)
  | pushdata2 {field : Bytes} (h : field.length = 2) : PushHeader (0x4d :: field) (leValue field)
  | pushdata4 {field : Bytes} (h : field.length = 4) : PushHeader (0x4e :: field) (leValue field)

/-- A complete push of the data. -/
def IsPush (push data : Bytes) : Prop :=
  ∃ header, PushHeader header data.length ∧ push = header ++ data

/-- The script is nothing but complete pushes of the data, one after the other. -/
def Pushes (script : Bytes) (datas : List Bytes) : Prop :=
  ∃ pushes, script = pushes.flatten ∧ List.Forall₂ IsPush pushes datas

set_option linter.unusedVariables false in
/-- What `parseScriptPushes` does not look at. -/
def unreadScript (script : Bytes) : Bytes :=
  if hempty : script = [] then []
  else
    match hpush : parsePush script with
    | none => script
    | some (_, consumed) => unreadScript (script.drop consumed)
termination_by script.length
decreasing_by
  have := parsePush_pos hpush
  have := List.length_pos_iff.mpr hempty
  rw [List.length_drop]
  omega

section Pushes

variable {script data : Bytes} {consumed : ℕ} {datas : List Bytes}

/-- What is pushed behind a header is in front of the rest. -/
theorem pushAt_eq_some (header : Bytes) {body : Bytes} {n : ℕ} :
    pushAt (header ++ body) header.length n = some (data, consumed) ↔
      data.length = n ∧ consumed = header.length + n ∧ ∃ rest, body = data ++ rest := by
  rw [pushAt, List.drop_left, List.length_append]
  constructor
  · intro h
    split_ifs at h with hshort
    obtain ⟨rfl, rfl⟩ := Prod.mk.inj (Option.some.inj h)
    exact ⟨List.length_take_of_le (by omega), rfl, body.drop n, (List.take_append_drop n body).symm⟩
  · rintro ⟨rfl, rfl, rest, rfl⟩
    rw [if_neg (by rw [List.length_append]; omega), List.take_left]

/-- A header is not empty. -/
theorem PushHeader.ne_nil {header : Bytes} {n : ℕ} (h : PushHeader header n) : header ≠ [] := by
  cases h <;> exact List.cons_ne_nil _ _

/-- A push whose length is in the bytes after the opcode. -/
theorem parsePush_field {op : UInt8} {rest : Bytes} {size : ℕ} :
    ((take? size rest).bind fun n => pushAt (op :: rest) (size + 1) (leValue n.1)) =
        some (data, consumed) ↔
      ∃ field tail, field.length = size ∧ leValue field = data.length ∧
        rest = field ++ (data ++ tail) ∧ consumed = size + 1 + data.length := by
  constructor
  · intro h
    obtain ⟨⟨field, body⟩, hfield, hpush⟩ := Option.bind_eq_some_iff.mp h
    rw [take?] at hfield
    split_ifs at hfield with hshort
    obtain ⟨rfl, rfl⟩ := Prod.mk.inj (Option.some.inj hfield)
    have hlength : (rest.take size).length = size := List.length_take_of_le (by omega)
    have hsplit : op :: rest = (op :: rest.take size) ++ rest.drop size := by
      rw [List.cons_append, List.take_append_drop]
    have hheader : size + 1 = (op :: rest.take size).length := by rw [List.length_cons, hlength]
    rw [hsplit, hheader] at hpush
    obtain ⟨hdata, hconsumed, tail, hbody⟩ := (pushAt_eq_some _).mp hpush
    refine ⟨rest.take size, tail, hlength, hdata.symm, ?_, ?_⟩
    · rw [← hbody, List.take_append_drop]
    · rw [hconsumed, hheader, hdata]
  · rintro ⟨field, tail, rfl, hvalue, rfl, rfl⟩
    rw [take?_append rfl, Option.bind_some]
    rw [hvalue]
    exact (pushAt_eq_some (op :: field)).mpr ⟨rfl, rfl, tail, rfl⟩

/-- **A push that is read** is at the start of the script. -/
theorem parsePush_eq_some : parsePush script = some (data, consumed) ↔
    ∃ push rest, IsPush push data ∧ script = push ++ rest ∧ consumed = push.length := by
  constructor
  · intro h
    have hfield : ∀ {op : UInt8} {rest : Bytes} {size : ℕ},
        (∀ {field : Bytes}, field.length = size → PushHeader (op :: field) (leValue field)) →
        ((take? size rest).bind fun n => pushAt (op :: rest) (size + 1) (leValue n.1)) =
          some (data, consumed) →
        ∃ push rest', IsPush push data ∧ op :: rest = push ++ rest' ∧ consumed = push.length := by
      intro op rest size hheader h
      obtain ⟨field, tail, hsize, hvalue, rfl, rfl⟩ := parsePush_field.mp h
      refine ⟨(op :: field) ++ data, tail, ⟨op :: field, hvalue ▸ hheader hsize, rfl⟩, ?_, ?_⟩
      · rw [List.cons_append, List.cons_append, List.append_assoc]
      · rw [List.length_append, List.length_cons, hsize]
    rw [parsePush.eq_def] at h
    cases script with
    | nil => cases h
    | cons op rest =>
        dsimp only at h
        by_cases hzero : op = 0x00
        · rw [if_pos hzero, Option.some.injEq, Prod.mk.injEq] at h
          obtain ⟨rfl, rfl⟩ := h
          rw [hzero]
          exact ⟨[0x00], rest, ⟨[0x00], .direct (n := 0) (by decide), rfl⟩, rfl, rfl⟩
        rw [if_neg hzero] at h
        by_cases hdirect : op ≤ 0x4b
        · rw [if_pos hdirect] at h
          obtain ⟨hdata, rfl, tail, rfl⟩ := (pushAt_eq_some [op]).mp h
          refine ⟨[op] ++ data, tail, ⟨[op], hdata ▸ .direct hdirect, rfl⟩, ?_, ?_⟩
          · rw [List.append_assoc, List.singleton_append]
          · rw [List.length_append, hdata]
        rw [if_neg hdirect] at h
        by_cases hone : op = 0x4c
        · rw [if_pos hone] at h
          exact hfield (fun hsize => hone ▸ .pushdata1 hsize) h
        rw [if_neg hone] at h
        by_cases htwo : op = 0x4d
        · rw [if_pos htwo] at h
          exact hfield (fun hsize => htwo ▸ .pushdata2 hsize) h
        rw [if_neg htwo] at h
        by_cases hfour : op = 0x4e
        · rw [if_pos hfour] at h
          exact hfield (fun hsize => hfour ▸ .pushdata4 hsize) h
        · rw [if_neg hfour] at h
          cases h
  · rintro ⟨push, rest, ⟨header, hheader, rfl⟩, rfl, rfl⟩
    rw [List.append_assoc, List.length_append]
    generalize hn : data.length = n at hheader
    cases hheader with
    | direct hdirect =>
        rename_i op
        rw [List.singleton_append, parsePush]
        by_cases hzero : op = 0x00
        · rw [if_pos hzero]
          rw [hzero] at hn ⊢
          rw [List.eq_nil_of_length_eq_zero hn]
          rfl
        · rw [if_neg hzero, if_pos hdirect]
          exact (pushAt_eq_some [op]).mpr ⟨hn, rfl, rest, rfl⟩
    | pushdata1 hsize =>
        rw [List.cons_append, parsePush, if_neg (by decide), if_neg (by decide), if_pos rfl]
        refine parsePush_field.mpr ⟨_, rest, hsize, hn.symm, rfl, ?_⟩
        rw [List.length_cons, hsize, hn]
    | pushdata2 hsize =>
        rw [List.cons_append, parsePush, if_neg (by decide), if_neg (by decide),
          if_neg (by decide), if_pos rfl]
        refine parsePush_field.mpr ⟨_, rest, hsize, hn.symm, rfl, ?_⟩
        rw [List.length_cons, hsize, hn]
    | pushdata4 hsize =>
        rw [List.cons_append, parsePush, if_neg (by decide), if_neg (by decide),
          if_neg (by decide), if_neg (by decide), if_pos rfl]
        refine parsePush_field.mpr ⟨_, rest, hsize, hn.symm, rfl, ?_⟩
        rw [List.length_cons, hsize, hn]

/-- Nor is a push. -/
theorem IsPush.ne_nil {push : Bytes} (h : IsPush push data) : push ≠ [] := by
  obtain ⟨header, hheader, rfl⟩ := h
  exact List.append_ne_nil_of_left_ne_nil hheader.ne_nil _

/-! ### Scripts -/

/-- The reader at a push, and at what is none. -/
theorem parseScriptPushes_push {push rest : Bytes} (h : IsPush push data) :
    parseScriptPushes (push ++ rest) = data :: parseScriptPushes rest ∧
      unreadScript (push ++ rest) = unreadScript rest := by
  have hpush := parsePush_eq_some.mpr ⟨push, rest, h, rfl, rfl⟩
  have hne := List.append_ne_nil_of_left_ne_nil h.ne_nil rest
  rw [parseScriptPushes, unreadScript, dif_neg hne, dif_neg hne]
  constructor
  all_goals
    split
    · rename_i hnone
      rw [hpush] at hnone
      cases hnone
    · rename_i payload consumed hsome
      rw [hpush] at hsome
      obtain ⟨rfl, rfl⟩ := Prod.mk.inj (Option.some.inj hsome)
      rw [List.drop_left]

/-- A script that starts with no push has none. -/
theorem parseScriptPushes_of_none (h : parsePush script = none) :
    parseScriptPushes script = [] ∧ unreadScript script = script := by
  by_cases hempty : script = []
  · rw [parseScriptPushes, unreadScript, dif_pos hempty, dif_pos hempty, hempty]
    exact ⟨rfl, rfl⟩
  · rw [parseScriptPushes, unreadScript, dif_neg hempty, dif_neg hempty]
    constructor
    all_goals
      split
      · rfl
      · rename_i hsome
        rw [h] at hsome
        cases hsome

/-- The reader at the end of whole pushes. -/
theorem Pushes.append (h : Pushes script datas) (rest : Bytes) :
    parseScriptPushes (script ++ rest) = datas ++ parseScriptPushes rest ∧
      unreadScript (script ++ rest) = unreadScript rest := by
  obtain ⟨pushes, rfl, hpushes⟩ := h
  induction hpushes with
  | nil => exact ⟨rfl, rfl⟩
  | cons hpush _ ih =>
      rw [List.flatten_cons, List.append_assoc, (parseScriptPushes_push hpush).1,
        (parseScriptPushes_push hpush).2]
      exact ⟨congrArg _ ih.1, ih.2⟩

/-- **What is read** of a script is the pushes that it starts with. -/
theorem exists_pushes (script : Bytes) :
    ∃ whole, script = whole ++ unreadScript script ∧ Pushes whole (parseScriptPushes script) := by
  fun_induction parseScriptPushes script with
  | case1 => exact ⟨[], (parseScriptPushes_of_none rfl).2.symm, [], rfl, .nil⟩
  | case2 script hempty hnone =>
      exact ⟨[], (parseScriptPushes_of_none hnone).2.symm, [], rfl, .nil⟩
  | case3 script hempty data consumed hsome ih =>
      obtain ⟨push, rest, hpush, rfl, rfl⟩ := parsePush_eq_some.mp hsome
      rw [List.drop_left] at ih
      obtain ⟨whole, hwhole, pushes, rfl, hpushes⟩ := ih
      refine ⟨push ++ pushes.flatten, ?_, push :: pushes, rfl, ?_⟩
      · rw [(parseScriptPushes_push hpush).2, List.append_assoc, ← hwhole]
      · rw [List.drop_left]
        exact .cons hpush hpushes

/-- **What a script pushes** is what is read from it, if it is read to its end. -/
theorem pushes_iff : Pushes script datas ↔
    parseScriptPushes script = datas ∧ unreadScript script = [] := by
  constructor
  · intro h
    have hwhole := h.append []
    have hnil := parseScriptPushes_of_none (show parsePush [] = none from rfl)
    rw [List.append_nil, hnil.1, hnil.2, List.append_nil] at hwhole
    exact hwhole
  · rintro ⟨rfl, hend⟩
    obtain ⟨whole, hwhole, hpushes⟩ := exists_pushes script
    rw [hend, List.append_nil] at hwhole
    rwa [← hwhole] at hpushes

end Pushes

/-! ### The final check -/

/-- What the scriptSig of an input has to push. -/
def SpendKind.Needs : SpendKind → List Bytes → Prop
  | p2pkh key, datas => ∃ signature : Bytes, signature.head? = some 0x30 ∧
      datas = [signature, key.compressedPubkey]
  | carrier _ chunkIndex chunkData redeemScript, datas => ∃ (parts : List Bytes)
      (signature : Bytes), parts ≠ [] ∧ parts.flatten = chunkData ∧ signature.head? = some 0x30 ∧
      datas = [chunkIndex] :: (parts ++ [signature, redeemScript])

/-- Verify the final content of every input's scriptSig against the plan. -/
def TransparentPlan.verifyScriptSigs (H : Hashing) (plan : TransparentPlan)
    (scriptSigs : List Bytes) : Except VerifyError Unit := do
  let finalChunks ← Zalkanes.verifyScriptSigs 0 (scriptSigs.zip plan.prepared.inputs)
  verifyDeploy H finalChunks plan.request

section ScriptSigs

variable {i : ℕ} {scriptSig : Bytes} {kind : SpendKind} {chunk : Option Chunk} {H : Hashing}
  {plan : TransparentPlan} {scriptSigs : List Bytes}

/-- A list of two or more ends with two. -/
theorem eq_append_pair {α : Type} {xs : List α} (h : 2 ≤ xs.length) :
    ∃ ys y z, xs = ys ++ [y, z] := by
  obtain ⟨y, z, hends⟩ := List.length_eq_two.mp
    (show (xs.drop (xs.length - 2)).length = 2 by rw [List.length_drop]; omega)
  exact ⟨xs.take (xs.length - 2), y, z, by rw [← hends, List.take_append_drop]⟩

/-- What was read of a scriptSig that passes is what its input needs. -/
theorem needs_of_verifyScriptSig (h : verifyScriptSig i scriptSig kind = .ok chunk) :
    kind.Needs (parseScriptPushes scriptSig) := by
  cases kind with
  | p2pkh key =>
      rw [verifyScriptSig] at h
      split_ifs at h with hcount hpubkey hsignature
      rw [not_not] at hcount hpubkey hsignature
      obtain ⟨signature, pubkey, hpushes⟩ := List.length_eq_two.mp hcount
      rw [hpushes] at hpubkey hsignature ⊢
      exact ⟨signature, hsignature, by rw [← hpubkey]; rfl⟩
  | carrier key index data redeem =>
      rw [verifyScriptSig] at h
      dsimp only at h
      split_ifs at h with hcount hindex hredeem hsignature hbytes
      rw [not_not] at hindex hredeem hsignature hbytes
      generalize parseScriptPushes scriptSig = pushes at hcount hindex hredeem hsignature hbytes ⊢
      cases pushes with
      | nil => exact absurd (show (0 : ℕ) < 4 by decide) hcount
      | cons first tail =>
          obtain ⟨parts, signature, last, rfl⟩ := eq_append_pair (by
            rw [List.length_cons] at hcount
            omega : 2 ≤ tail.length)
          have hlength : (first :: (parts ++ [signature, last])).length = parts.length + 3 := by
            rw [List.length_cons, List.length_append, List.length_cons, List.length_singleton]
          rw [hlength] at hcount hredeem hsignature hbytes
          have hlast : last = redeem := by
            rw [← hredeem]
            simp
          refine ⟨parts, signature, List.ne_nil_of_length_pos (by omega), ?_, ?_, ?_⟩
          · rw [← hbytes, List.drop_one, List.tail_cons, Nat.add_sub_cancel, List.take_left]
          · rw [← hsignature]
            simp
          · rw [← hlast, ← hindex]
            rfl

/-- What was read of the scriptSigs. -/
theorem needs_of_verifyScriptSigs {pairs : List (Bytes × SpendInput)} {cs : List Chunk}
    (h : verifyScriptSigs i pairs = .ok cs) :
    ∀ pair ∈ pairs, pair.2.kind.Needs (parseScriptPushes pair.1) := by
  induction pairs generalizing i cs with
  | nil => exact fun _ hp => absurd hp List.not_mem_nil
  | cons pair pairs ih =>
      obtain ⟨scriptSig, planIn⟩ := pair
      rw [verifyScriptSigs] at h
      obtain ⟨chunk, hchunk, h⟩ := bind_eq_ok h
      obtain ⟨rest, hrest, h⟩ := bind_eq_ok h
      intro pair hpair
      rcases List.mem_cons.mp hpair with rfl | hpair
      · exact needs_of_verifyScriptSig hchunk
      · exact ih hrest pair hpair

/-- **The scriptSigs that are accepted are, as a whole, those of the plan exactly when** each has an
input and is read to its end. -/
theorem scriptSigs_whole_iff (h : plan.verifyScriptSigs H scriptSigs = .ok ()) :
    (∀ (i : ℕ) (scriptSig : Bytes), scriptSigs[i]? = some scriptSig →
      ∃ (planIn : SpendInput) (datas : List Bytes), plan.prepared.inputs[i]? = some planIn ∧
        planIn.kind.Needs datas ∧ Pushes scriptSig datas) ↔
    scriptSigs.length ≤ plan.prepared.inputs.length ∧
      ∀ scriptSig ∈ scriptSigs, unreadScript scriptSig = [] := by
  obtain ⟨cs, hcs, -⟩ := bind_eq_ok h
  have hneeds := needs_of_verifyScriptSigs hcs
  constructor
  · intro hwhole
    constructor
    · by_contra hmore
      obtain ⟨planIn, -, hinput, -⟩ := hwhole plan.prepared.inputs.length _
        (List.getElem?_eq_getElem (Nat.lt_of_not_le hmore))
      rw [List.getElem?_eq_none le_rfl] at hinput
      cases hinput
    · intro scriptSig hmem
      obtain ⟨i, hi⟩ := List.mem_iff_getElem?.mp hmem
      obtain ⟨-, datas, -, -, hpushes⟩ := hwhole i scriptSig hi
      exact (pushes_iff.mp hpushes).2
  · rintro ⟨hcount, hread⟩ i scriptSig hi
    have hlt := (List.getElem?_eq_some_iff.mp hi).1
    have hinput : plan.prepared.inputs[i]? = some plan.prepared.inputs[i] :=
      List.getElem?_eq_getElem (by omega)
    have hmem : (scriptSig, plan.prepared.inputs[i]) ∈ scriptSigs.zip plan.prepared.inputs :=
      List.mem_iff_getElem?.mpr ⟨i, List.getElem?_zip_eq_some.mpr ⟨hi, hinput⟩⟩
    exact ⟨_, _, hinput, hneeds _ hmem,
      pushes_iff.mpr ⟨rfl, hread scriptSig (List.mem_of_getElem? hi)⟩⟩

/-- A plan that spends one P2PKH output. -/
def spendOne : TransparentPlan :=
  ⟨⟨[⟨⟨.replicate 0, 0⟩, 0, [], [], .p2pkh someKey⟩], [], 0, 0, 0⟩,
    .call []⟩

/-- Its scriptSig, with a signature that is cut down to its first byte. -/
theorem pushes_spendOne :
    Pushes (p2pkhScriptSig [0x30] (List.replicate 33 2)) [[0x30], List.replicate 33 2] :=
  ⟨[0x01 :: [0x30], 0x21 :: List.replicate 33 2], by decide,
    .cons ⟨[0x01], .direct (n := 1) (by decide), rfl⟩
      (.cons ⟨[0x21], .direct (n := 0x21) (by decide), rfl⟩ .nil)⟩

/-- One P2PKH input passes, whatever follows its pushes. -/
theorem verifyScriptSigs_spendOne {H : Hashing} {rest : Bytes} (h : parsePush rest = none) :
    spendOne.verifyScriptSigs H [p2pkhScriptSig [0x30] (List.replicate 33 2) ++ rest] = .ok () := by
  have hread := (pushes_spendOne.append rest).1
  rw [(parseScriptPushes_of_none h).1, List.append_nil] at hread
  have hone : ∀ key : SigningKey, key.compressedPubkey = List.replicate 33 2 →
      verifyScriptSig 0 (p2pkhScriptSig [0x30] (List.replicate 33 2) ++ rest) (.p2pkh key) =
        .ok none := fun key hkey => by
    rw [verifyScriptSig, hread, hkey]
    rfl
  change (Zalkanes.verifyScriptSigs 0 [(_, _)] >>= _) = _
  rw [Zalkanes.verifyScriptSigs, hone _ rfl]
  rfl

/-- Nothing is behind the scriptSig. -/
theorem scriptSigs_whole_iff_spendOne : ∃ (H : Hashing) (scriptSigs : List Bytes),
    scriptSigs.length = 1 ∧ spendOne.verifyScriptSigs H scriptSigs = .ok () ∧
    ∀ (i : ℕ) (scriptSig : Bytes), scriptSigs[i]? = some scriptSig →
      ∃ (planIn : SpendInput) (datas : List Bytes), spendOne.prepared.inputs[i]? = some planIn ∧
        planIn.kind.Needs datas ∧ Pushes scriptSig datas := by
  let H : Hashing := ⟨fun _ _ => .replicate 0, fun _ => .replicate 0⟩
  have haccepted : spendOne.verifyScriptSigs H [p2pkhScriptSig [0x30] (List.replicate 33 2) ++ []] =
      .ok () := verifyScriptSigs_spendOne rfl
  rw [List.append_nil] at haccepted
  refine ⟨_, _, rfl, haccepted, (scriptSigs_whole_iff haccepted).mpr ⟨le_rfl, fun s hs => ?_⟩⟩
  rw [List.mem_singleton.mp hs]
  exact (pushes_iff.mp pushes_spendOne).2

/-- A byte that is no push is behind the scriptSig. -/
theorem not_scriptSigs_whole : ∃ (H : Hashing) (scriptSigs : List Bytes),
    spendOne.verifyScriptSigs H scriptSigs = .ok () ∧
    ¬ ∀ (i : ℕ) (scriptSig : Bytes), scriptSigs[i]? = some scriptSig →
      ∃ (planIn : SpendInput) (datas : List Bytes), spendOne.prepared.inputs[i]? = some planIn ∧
        planIn.kind.Needs datas ∧ Pushes scriptSig datas := by
  have hnone : parsePush [0x61] = none := by decide
  refine ⟨⟨fun _ _ => .replicate 0, fun _ => .replicate 0⟩, _, verifyScriptSigs_spendOne hnone,
    fun h => ?_⟩
  obtain ⟨-, datas, -, -, hpushes⟩ := h 0 _ rfl
  have hread := (pushes_iff.mp hpushes).2
  rw [(pushes_spendOne.append [0x61]).2, (parseScriptPushes_of_none hnone).2] at hread
  cases hread

end ScriptSigs

end Zalkanes
