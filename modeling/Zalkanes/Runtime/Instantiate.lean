import Zalkanes.Runtime.Execute

/-!
# Instantiating Accepted Modules

What the consensus linker defines (`buildLinker`) and what the store limits allow (`storeLimits`),
beside what validation checks. Validation takes an import by its module, its name and its being a
function, and a memory or a table by its initial size. The linker also compares the function type,
and the store counts the memories and the tables.

The engine is external, so what it reads of a module (`ModuleDecl`) and that it refuses a module
only for what it reads are assumptions (`Engine.Reads`).

## Main results

* `validateModule_eq_ok`: what an accepted module is known to declare.
* `onlySegments_iff`: exactly when an accepted module can only be refused for a segment.
* `execute_of_refusals`: a contract that is refused traps in every call.
-/

namespace Zalkanes

open Lib

/-! ### Declarations -/

/-- The types of WebAssembly values. -/
inductive ValType where
  | i32
  | i64
  | f32
  | f64
  | v128
  | ref
  deriving DecidableEq

/-- The type of a function. -/
structure FuncType where
  params : List ValType
  results : List ValType
  deriving DecidableEq

/-- What an import is, with the type of a function. -/
inductive ExternType where
  | func (ty : FuncType)
  | table (initial : ℕ)
  | memory (initial : ℕ)
  | global
  | tag
  deriving DecidableEq

/-- An external type as the section parser reports it: of a function it names the index of the
type, which validation does not look up. -/
def ExternType.typeRef : ExternType → TypeRef
  | func _ => .func
  | table initial => .table initial
  | memory initial => .memory initial
  | global => .global
  | tag => .tag

/-- An import, with its whole type. -/
structure ModuleImport where
  moduleName : String
  name : String
  ty : ExternType
  deriving DecidableEq

/-- What the validator sees of it. -/
def ModuleImport.reported (i : ModuleImport) : Import := ⟨i.moduleName, i.name, i.ty.typeRef⟩

/-- What instantiation reads of a parsed module. -/
structure ModuleDecl where
  imports : List ModuleImport
  /-- The initial pages of each memory that the module defines. -/
  memories : List ℕ
  /-- The initial elements of each table that the module defines. -/
  tables : List ℕ
  /-- Whether every active segment is in range. -/
  segmentsFit : Bool
  deriving DecidableEq

/-! ### The linker and the limits -/

/-- A function that the linker defines. -/
structure HostFunc where
  moduleName : String
  name : String
  ty : FuncType
  deriving DecidableEq

/-- A function of `n` words that returns a word. -/
def FuncType.words (n : ℕ) : FuncType := ⟨List.replicate n .i32, [.i32]⟩

/-- The host functions that a module may import. -/
def buildLinker : List HostFunc :=
  [⟨"env", "storage_get", .words 3⟩, ⟨"env", "storage_set", .words 4⟩,
    ⟨"env", "storage_delete", .words 2⟩, ⟨"env", "output_write", .words 2⟩,
    ⟨"env", "context_block_height", .words 1⟩, ⟨"env", "input_read", .words 3⟩]

/-- An import is resolved by a function of the same module, name and type. -/
def HostFunc.defines (f : HostFunc) (i : ModuleImport) : Bool :=
  f.moduleName = i.moduleName && f.name = i.name && i.ty = .func f.ty

/-- What a store may grow to. -/
structure StoreLimits where
  /-- The bytes of a memory. -/
  memorySize : ℕ
  tableElements : ℕ
  memories : ℕ
  tables : ℕ

/-- The limits of a call's store. -/
def storeLimits : StoreLimits :=
  ⟨maxLinearMemoryPages.toNat * 65536, maxTableElements.toNat, 1, 1⟩

/-- Why a module is not instantiated. -/
inductive Refusal where
  | unresolved (i : ModuleImport)
  | memoryCount
  | memorySize
  | tableCount
  | tableElements
  | segment
  deriving DecidableEq

/-- Whatever instantiation finds wrong with a module. -/
def ModuleDecl.refusals (decl : ModuleDecl) : List Refusal :=
  (decl.imports.filter fun i => !buildLinker.any fun f => f.defines i).map .unresolved ++
    (if storeLimits.memories < decl.memories.length then [.memoryCount] else []) ++
    (if ∃ pages ∈ decl.memories, storeLimits.memorySize < pages * 65536 then [.memorySize]
      else []) ++
    (if storeLimits.tables < decl.tables.length then [.tableCount] else []) ++
    (if ∃ initial ∈ decl.tables, storeLimits.tableElements < initial then [.tableElements]
      else []) ++
    (if decl.segmentsFit then [] else [.segment])

/-- How the engine reads modules: the section parser reports what the engine parsed, and the
engine refuses to instantiate a module exactly where something is wrong with it. -/
structure Engine.Reads (E : Engine) (decl : E.Module → ModuleDecl) : Prop where
  imports : ∀ wasm m, E.parse wasm = some (.ok m) → ∀ i ∈ (decl m).imports, ∃ count imports,
    .ok (.importSection count imports) ∈ E.parseAll wasm ∧ .ok i.reported ∈ imports
  memories : ∀ wasm m, E.parse wasm = some (.ok m) → ∀ pages ∈ (decl m).memories, ∃ initials,
    .ok (.memorySection initials) ∈ E.parseAll wasm ∧ .ok pages ∈ initials
  tables : ∀ wasm m, E.parse wasm = some (.ok m) → ∀ initial ∈ (decl m).tables, ∃ initials,
    .ok (.tableSection initials) ∈ E.parseAll wasm ∧ .ok initial ∈ initials
  refuses : ∀ m fuel, (∃ e fuelLeft, E.instantiate m fuel = .error (e, fuelLeft)) ↔
    (decl m).refusals ≠ []

/-! ### What validation checks -/

section Validation

variable {counts counts' : ModuleCounts}

/-- Counting only raises the sizes. -/
structure ModuleCounts.Le (counts counts' : ModuleCounts) : Prop where
  memory : counts.maxMemoryPages ≤ counts'.maxMemoryPages
  table : counts.maxTableElems ≤ counts'.maxTableElems

/-- Counts are no more than themselves. -/
theorem ModuleCounts.Le.refl (counts : ModuleCounts) : counts.Le counts := ⟨le_rfl, le_rfl⟩

/-- The order is transitive. -/
theorem ModuleCounts.Le.trans {counts'' : ModuleCounts} (h : counts.Le counts')
    (h' : counts'.Le counts'') : counts.Le counts'' :=
  ⟨h.memory.trans h'.memory, h.table.trans h'.table⟩

/-- A fold whose steps only raise the sizes raises them, and what a step shows of an entry holds at
the end. -/
theorem le_of_foldlM {α : Type} {f : ModuleCounts → α → Except String ModuleCounts}
    {P : α → ModuleCounts → Prop}
    (hstep : ∀ counts x counts', f counts x = .ok counts' → counts.Le counts' ∧ P x counts')
    (hmono : ∀ x counts counts', counts.Le counts' → P x counts → P x counts') {xs : List α}
    (h : xs.foldlM f counts = .ok counts') : counts.Le counts' ∧ ∀ x ∈ xs, P x counts' := by
  induction xs generalizing counts with
  | nil =>
      obtain rfl := Except.ok.inj h
      exact ⟨.refl counts, fun x hx => (nomatch hx)⟩
  | cons x xs ih =>
      rw [List.foldlM_cons] at h
      obtain ⟨middle, hx, hrest⟩ := bind_eq_ok h
      obtain ⟨hle, hP⟩ := hstep counts x middle hx
      obtain ⟨hle', hall⟩ := ih hrest
      refine ⟨hle.trans hle', fun y hy => ?_⟩
      rcases List.mem_cons.mp hy with rfl | hmem
      · exact hmono y middle counts' hle' hP
      · exact hall y hmem

/-- The entries of a section are within the sizes that are counted of them. -/
theorem le_of_sizes {f : ModuleCounts → Except String ℕ → Except String ModuleCounts}
    {size : ModuleCounts → ℕ}
    (hstep : ∀ counts n counts', f counts (.ok n) = .ok counts' →
      counts.Le counts' ∧ n ≤ size counts')
    (herror : ∀ counts e counts', f counts (.error e) ≠ .ok counts')
    (hmono : ∀ counts counts' : ModuleCounts, counts.Le counts' → size counts ≤ size counts')
    {initials : List (Except String ℕ)} (h : initials.foldlM f counts = .ok counts') :
    counts.Le counts' ∧ ∀ n, .ok n ∈ initials → n ≤ size counts' := by
  let P (initial : Except String ℕ) (counts : ModuleCounts) : Prop :=
    ∀ n, initial = .ok n → n ≤ size counts
  have hstep' : ∀ counts initial counts', f counts initial = .ok counts' →
      counts.Le counts' ∧ P initial counts' := by
    intro counts initial counts' hadd
    cases initial with
    | error e => exact absurd hadd (herror counts e counts')
    | ok n =>
        obtain ⟨hle, hn⟩ := hstep counts n counts' hadd
        refine ⟨hle, fun n' hn' => ?_⟩
        rw [← Except.ok.inj hn']
        exact hn
  obtain ⟨hle, hall⟩ := le_of_foldlM hstep'
    (fun initial counts counts' hle hP n hn => (hP n hn).trans (hmono counts counts' hle)) h
  exact ⟨hle, fun n hn => hall _ hn n rfl⟩

/-- Counting an import makes no count less. -/
theorem le_addImport {i : Except String Import} (h : counts.addImport i = .ok counts') :
    counts.Le counts' := by
  cases i with
  | error e => cases h
  | ok i =>
      obtain rfl := Except.ok.inj h
      cases i.ty with
      | table initial => exact ⟨le_rfl, le_max_left _ _⟩
      | memory initial => exact ⟨le_max_left _ _, le_rfl⟩
      | _ => exact ⟨le_rfl, le_rfl⟩

/-- What a section declares is within the counts. -/
def Payload.Within (counts : ModuleCounts) : Except String Payload → Prop
  | .ok (.memorySection initials) => ∀ pages, .ok pages ∈ initials → pages ≤ counts.maxMemoryPages
  | .ok (.tableSection initials) =>
      ∀ initial, .ok initial ∈ initials → initial ≤ counts.maxTableElems
  | _ => True

/-- What is within counts is within more. -/
theorem Payload.Within.mono {payload : Except String Payload} (hle : counts.Le counts')
    (h : Payload.Within counts payload) : Payload.Within counts' payload := by
  cases payload with
  | error e => trivial
  | ok payload =>
      cases payload with
      | memorySection initials => exact fun pages hpages => (h pages hpages).trans hle.memory
      | tableSection initials => exact fun initial hinitial => (h initial hinitial).trans hle.table
      | _ => trivial

/-- A section that was counted is within the counts. -/
theorem within_addPayload {payload : Except String Payload}
    (h : counts.addPayload payload = .ok counts') :
    counts.Le counts' ∧ Payload.Within counts' payload := by
  cases payload with
  | error e => cases h
  | ok payload =>
      cases payload with
      | importSection count imports =>
          have hle := (le_of_foldlM (P := fun _ _ => True)
            (fun _ _ _ hadd => ⟨le_addImport hadd, trivial⟩) (fun _ _ _ _ _ => trivial) h).1
          exact ⟨⟨hle.memory, hle.table⟩, trivial⟩
      | memorySection initials =>
          refine le_of_sizes (fun counts pages counts' hadd => ?_) (fun _ _ _ hadd => by cases hadd)
            (fun _ _ hle => hle.memory) h
          obtain rfl := Except.ok.inj hadd
          exact ⟨⟨le_max_left _ _, le_rfl⟩, le_max_right _ _⟩
      | tableSection initials =>
          refine le_of_sizes (fun counts elems counts' hadd => ?_) (fun _ _ _ hadd => by cases hadd)
            (fun _ _ hle => hle.table) h
          obtain rfl := Except.ok.inj hadd
          exact ⟨⟨le_rfl, le_max_left _ _⟩, le_max_right _ _⟩
      | functionSection count =>
          obtain rfl := Except.ok.inj h
          exact ⟨⟨le_rfl, le_rfl⟩, trivial⟩
      | globalSection count =>
          obtain rfl := Except.ok.inj h
          exact ⟨⟨le_rfl, le_rfl⟩, trivial⟩
      | exportSection count =>
          obtain rfl := Except.ok.inj h
          exact ⟨⟨le_rfl, le_rfl⟩, trivial⟩
      | other =>
          obtain rfl := Except.ok.inj h
          exact ⟨.refl _, trivial⟩

/-- A check of all is a check of each. -/
theorem forM_eq_ok {α : Type} {f : α → Except String Unit} {xs : List α}
    (h : xs.forM f = .ok ()) : ∀ x ∈ xs, f x = .ok () := by
  induction xs with
  | nil => exact fun x hx => (nomatch hx)
  | cons x xs ih =>
      obtain ⟨⟨⟩, hx, hrest⟩ := bind_eq_ok h
      exact List.forall_mem_cons.mpr ⟨hx, ih hrest⟩

/-- A limit that was checked holds. -/
theorem checkLimit_eq_ok {what unit name : String} {count : ℕ} {limit : UInt32}
    (h : checkLimit what count unit name limit = .ok ()) : count ≤ limit.toNat := by
  rw [checkLimit] at h
  split_ifs at h with hgt
  exact Nat.not_lt.mp hgt

/-- **An accepted module** has its memories and its tables within the limits and imports the host
functions by name. -/
theorem validateModule_eq_ok {E : Engine} {wasm : Bytes} (h : validateModule E wasm = .ok ()) :
    ∃ counts, (∀ payload ∈ E.parseAll wasm, Payload.Within counts payload) ∧
      counts.maxMemoryPages ≤ maxLinearMemoryPages.toNat ∧
      counts.maxTableElems ≤ maxTableElements.toNat ∧
      ∀ payload ∈ E.parseAll wasm, checkPayload payload = .ok () := by
  rw [validateModule] at h
  split_ifs at h
  obtain ⟨_, -, h⟩ := bind_eq_ok h
  obtain ⟨counts, hcounts, h⟩ := bind_eq_ok h
  obtain ⟨⟨⟩, -, h⟩ := bind_eq_ok h
  obtain ⟨⟨⟩, -, h⟩ := bind_eq_ok h
  obtain ⟨⟨⟩, -, h⟩ := bind_eq_ok h
  obtain ⟨⟨⟩, -, h⟩ := bind_eq_ok h
  obtain ⟨⟨⟩, hmemory, h⟩ := bind_eq_ok h
  obtain ⟨⟨⟩, htable, h⟩ := bind_eq_ok h
  have hwithin := (le_of_foldlM (f := ModuleCounts.addPayload)
    (P := fun payload counts => Payload.Within counts payload) (fun _ _ _ => within_addPayload)
    (fun _ _ _ => Payload.Within.mono) hcounts).2
  exact ⟨counts, hwithin, checkLimit_eq_ok hmemory, checkLimit_eq_ok htable, forM_eq_ok h⟩

end Validation

/-! ### Refusals -/

/-- Only an active segment can keep the module from being instantiated. -/
def ModuleDecl.OnlySegments (decl : ModuleDecl) : Prop := ∀ r ∈ decl.refusals, r = .segment

instance (decl : ModuleDecl) : Decidable decl.OnlySegments :=
  inferInstanceAs (Decidable (∀ r ∈ decl.refusals, r = .segment))

/-- Every imported function has the type of the host function of its name. -/
def ModuleDecl.TypesMatch (decl : ModuleDecl) : Prop :=
  ∀ i ∈ decl.imports, ∀ ty, i.ty = .func ty → ∀ f ∈ buildLinker, f.name = i.name → f.ty = ty

/-- A host function is imported under its name and its type. -/
theorem HostFunc.defines_iff {f : HostFunc} {i : ModuleImport} :
    f.defines i = true ↔ f.moduleName = i.moduleName ∧ f.name = i.name ∧ i.ty = .func f.ty := by
  simp [HostFunc.defines, and_assoc]

/-- The linker defines each name once. -/
theorem buildLinker_unique : ∀ f ∈ buildLinker, ∀ f' ∈ buildLinker, f.name = f'.name → f = f' := by
  decide

/-- The linker defines every name that validation lets pass, in module `env`. -/
theorem exists_hostFunc : ∀ name ∈ hostImports, ∃ f ∈ buildLinker,
    f.moduleName = "env" ∧ f.name = name := by
  decide

/-- What instantiation looks at. -/
theorem ModuleDecl.refusals_iff (decl : ModuleDecl) : decl.OnlySegments ↔
    (∀ i ∈ decl.imports, ∃ f ∈ buildLinker, f.defines i = true) ∧
    decl.memories.length ≤ 1 ∧
    (∀ pages ∈ decl.memories, pages * 65536 ≤ storeLimits.memorySize) ∧
    decl.tables.length ≤ 1 ∧ ∀ initial ∈ decl.tables, initial ≤ storeLimits.tableElements := by
  have hone : ∀ (p : Prop) [Decidable p] (r : Refusal), r ≠ .segment →
      ((∀ x ∈ (if p then [r] else []), x = .segment) ↔ ¬ p) := by
    intro p _ r hr
    by_cases hp : p <;> simp [hp, hr]
  have himports : (∀ r ∈ (decl.imports.filter fun i =>
      !buildLinker.any fun f => f.defines i).map Refusal.unresolved, r = .segment) ↔
        ∀ i ∈ decl.imports, ∃ f ∈ buildLinker, f.defines i = true := by
    constructor
    · intro h i hi
      by_contra hnone
      have hany : (!buildLinker.any fun f => f.defines i) = true := by
        rw [Bool.not_eq_true', Bool.eq_false_iff]
        exact fun htrue => hnone (List.any_eq_true.mp htrue)
      have hsegment := h _ (List.mem_map_of_mem (List.mem_filter.mpr ⟨hi, hany⟩))
      cases hsegment
    · intro h r hr
      obtain ⟨i, hi, rfl⟩ := List.mem_map.mp hr
      obtain ⟨hmem, hany⟩ := List.mem_filter.mp hi
      rw [List.any_eq_true.mpr (h i hmem)] at hany
      cases hany
  have hsegment : ∀ r ∈ (if decl.segmentsFit then [] else [Refusal.segment]), r = .segment := by
    cases decl.segmentsFit <;> simp
  have hsize : ∀ {n : ℕ} {xs : List ℕ}, (¬ ∃ x ∈ xs, n < x) ↔ ∀ x ∈ xs, x ≤ n := by
    intro n xs
    simp only [not_exists, not_and, Nat.not_lt]
  have hbytes : (¬ ∃ pages ∈ decl.memories, storeLimits.memorySize < pages * 65536) ↔
      ∀ pages ∈ decl.memories, pages * 65536 ≤ storeLimits.memorySize := by
    simp only [not_exists, not_and, Nat.not_lt]
  rw [OnlySegments, refusals]
  simp only [List.forall_mem_append]
  rw [himports, hone _ .memoryCount (by decide), hone _ .memorySize (by decide),
    hone _ .tableCount (by decide), hone _ .tableElements (by decide), Nat.not_lt, Nat.not_lt,
    hbytes, hsize, and_iff_left hsegment, and_assoc, and_assoc, and_assoc]
  rfl

section Accepted

variable {E : Engine} {decl : E.Module → ModuleDecl} {wasm : Bytes} {m : E.Module}

/-- **An accepted module** can only be refused for a segment exactly when the functions that it
imports have the types of the host functions and it has at most one memory and one table. -/
theorem onlySegments_iff (hE : E.Reads decl) (hvalid : validateModule E wasm = .ok ())
    (hparse : E.parse wasm = some (.ok m)) : (decl m).OnlySegments ↔
      (decl m).TypesMatch ∧ (decl m).memories.length ≤ 1 ∧ (decl m).tables.length ≤ 1 := by
  obtain ⟨counts, hwithin, hpages, helems, hchecked⟩ := validateModule_eq_ok hvalid
  rw [(decl m).refusals_iff]
  constructor
  · rintro ⟨hresolved, hmemories, -, htables, -⟩
    refine ⟨fun i hi ty hty f hf hname => ?_, hmemories, htables⟩
    obtain ⟨f', hf', hdefines⟩ := hresolved i hi
    obtain ⟨-, hname', hty'⟩ := HostFunc.defines_iff.mp hdefines
    obtain rfl := buildLinker_unique f hf f' hf' (hname.trans hname'.symm)
    exact ExternType.func.inj (hty'.symm.trans hty)
  · rintro ⟨htypes, hmemories, htables⟩
    refine ⟨fun i hi => ?_, hmemories, fun pages hmem => ?_, htables, fun initial hmem => ?_⟩
    · obtain ⟨count, imports, hsection, hreported⟩ := hE.imports wasm m hparse i hi
      have hcheck := forM_eq_ok (hchecked _ hsection) _ hreported
      rw [checkImport] at hcheck
      split_ifs at hcheck with hknown
      obtain ⟨hmodule, hname, hfunc⟩ := hknown
      obtain ⟨f, hf, hfmodule, hfname⟩ := exists_hostFunc i.name hname
      cases hty : i.ty with
      | func ty =>
          have heq := htypes i hi ty hty f hf hfname
          refine ⟨f, hf, HostFunc.defines_iff.mpr ⟨hfmodule.trans hmodule.symm, hfname, ?_⟩⟩
          rw [hty, heq]
      | _ =>
          rw [ModuleImport.reported, hty] at hfunc
          cases hfunc
    · obtain ⟨initials, hsection, hreported⟩ := hE.memories wasm m hparse pages hmem
      have hle := (hwithin _ hsection pages hreported).trans hpages
      exact Nat.mul_le_mul_right 65536 hle
    · obtain ⟨initials, hsection, hreported⟩ := hE.tables wasm m hparse initial hmem
      exact (hwithin _ hsection initial hreported).trans helems

/-- A module that nothing is wrong with is instantiated. -/
theorem instantiates_of_onlySegments (hE : E.Reads decl) (h : (decl m).OnlySegments)
    (hfit : (decl m).segmentsFit = true) (fuel : ℕ) :
    ∃ dispatch, E.instantiate m fuel = .ok dispatch := by
  cases hinstance : E.instantiate m fuel with
  | ok dispatch => exact ⟨dispatch, rfl⟩
  | error failure =>
      refine absurd (List.eq_nil_iff_forall_not_mem.mpr fun r hr => ?_)
        ((hE.refuses m fuel).mp ⟨_, _, hinstance⟩)
      obtain rfl := h r hr
      simp [ModuleDecl.refusals, hfit] at hr

/-- **A contract that is refused** traps in every call that comes to instantiate it. -/
theorem execute_of_refusals (hE : E.Reads decl) (hparse : E.parse wasm = some (.ok m))
    (hrefused : (decl m).refusals ≠ []) (overflowChecks : Bool) {ctx : CallContext}
    {state : StateView} {codeHash : CodeHash} (hdepth : ¬ ctx.depth > maxCallDepth)
    (hcontract : state.getContract ctx.contractId = some (codeHash, wasm))
    (hfuel : E.setFuel ctx.fuelLimit = none) : ∃ e fuelUsed,
      execute E overflowChecks ctx state = .ok (.trap ("instantiation error: " ++ e) fuelUsed) := by
  obtain ⟨e, fuelLeft, hfails⟩ := (hE.refuses m ctx.fuelLimit).mpr hrefused
  refine ⟨e, ctx.fuelLimit - fuelLeft, ?_⟩
  have hmodule : parseModuleContained E wasm = .ok m := by rw [parseModuleContained, hparse]
  rw [execute, if_neg hdepth, hcontract]
  dsimp only
  rw [hmodule]
  dsimp only
  rw [hfuel]
  dsimp only
  rw [hfails]

end Accepted

/-! ### An engine that reads declarations -/

/-- The sections of a module, as the section parser reports them. -/
def ModuleDecl.payloads (decl : ModuleDecl) : List (Except String Payload) :=
  [.ok (.importSection decl.imports.length (decl.imports.map fun i => .ok i.reported)),
    .ok (.tableSection (decl.tables.map .ok)), .ok (.memorySection (decl.memories.map .ok))]

/-- An engine whose modules are their declarations. -/
def declEngine (read : Bytes → Option ModuleDecl) : Engine where
  Module := ModuleDecl
  parse wasm := some (match read wasm with
    | some decl => .ok decl
    | none => .error "unexpected end")
  setFuel _ := none
  instantiate decl fuel := if decl.refusals = [] then .ok none else .error ("linker", fuel)
  parseAll wasm := ((read wasm).map ModuleDecl.payloads).getD []

/-- An engine of declarations reads them. -/
theorem declEngine_reads (read : Bytes → Option ModuleDecl) : (declEngine read).Reads id := by
  have hpayloads : ∀ wasm (decl : ModuleDecl),
      (declEngine read).parse wasm = some (.ok decl) →
        (declEngine read).parseAll wasm = decl.payloads := by
    intro wasm decl h
    have h := Option.some.inj h
    cases hread : read wasm with
    | none =>
        rw [hread] at h
        cases h
    | some decl' =>
        rw [hread] at h
        change ((read wasm).map ModuleDecl.payloads).getD [] = decl.payloads
        rw [hread, ← Except.ok.inj h]
        rfl
  refine ⟨fun wasm (decl : ModuleDecl) h i (hi : i ∈ decl.imports) => ?_,
    fun wasm (decl : ModuleDecl) h pages (hpages : pages ∈ decl.memories) => ?_,
    fun wasm (decl : ModuleDecl) h initial (hinitial : initial ∈ decl.tables) => ?_,
    fun (decl : ModuleDecl) fuel => ?_⟩
  · refine ⟨decl.imports.length, decl.imports.map fun i => .ok i.reported, ?_,
      List.mem_map.mpr ⟨i, hi, rfl⟩⟩
    rw [hpayloads wasm decl h]
    exact List.mem_cons_self
  · refine ⟨decl.memories.map .ok, ?_, List.mem_map_of_mem hpages⟩
    rw [hpayloads wasm decl h]
    exact List.mem_cons_of_mem _ (List.mem_cons_of_mem _ List.mem_cons_self)
  · refine ⟨decl.tables.map .ok, ?_, List.mem_map_of_mem hinitial⟩
    rw [hpayloads wasm decl h]
    exact List.mem_cons_of_mem _ List.mem_cons_self
  · change (∃ e fuelLeft, (if decl.refusals = [] then Except.ok none
      else .error ("linker", fuel)) = .error (e, fuelLeft)) ↔ decl.refusals ≠ []
    by_cases hnil : decl.refusals = [] <;> simp [hnil]

/-- `(module (import "env" "storage_set" (func (param i32 i32 i32 i32) (result i32)))
(memory 1))` -/
def setterWasm : Bytes :=
  [0x00, 0x61, 0x73, 0x6d, 0x01, 0x00, 0x00, 0x00, 0x01, 0x09, 0x01, 0x60, 0x04, 0x7f, 0x7f, 0x7f,
    0x7f, 0x01, 0x7f, 0x02, 0x13, 0x01, 0x03, 0x65, 0x6e, 0x76, 0x0b, 0x73, 0x74, 0x6f, 0x72, 0x61,
    0x67, 0x65, 0x5f, 0x73, 0x65, 0x74, 0x00, 0x00, 0x05, 0x03, 0x01, 0x00, 0x01]

/-- A module that imports one host function. -/
def setter : ModuleDecl := ⟨[⟨"env", "storage_set", .func (.words 4)⟩], [1], [], true⟩

/-- `(module (import "env" "storage_get" (func)))` -/
def mistypedWasm : Bytes :=
  [0x00, 0x61, 0x73, 0x6d, 0x01, 0x00, 0x00, 0x00, 0x01, 0x04, 0x01, 0x60, 0x00, 0x00, 0x02, 0x13,
    0x01, 0x03, 0x65, 0x6e, 0x76, 0x0b, 0x73, 0x74, 0x6f, 0x72, 0x61, 0x67, 0x65, 0x5f, 0x67, 0x65,
    0x74, 0x00, 0x00]

/-- A module that imports a host function as one of another type. -/
def mistyped : ModuleDecl := ⟨[⟨"env", "storage_get", .func ⟨[], []⟩⟩], [], [], true⟩

/-- The engine, as far as the two modules go. -/
def twoModules : Engine :=
  declEngine fun wasm =>
    if wasm = setterWasm then some setter else if wasm = mistypedWasm then some mistyped else none

/-- The first of them can only fail in its segments. -/
theorem onlySegments_iff_setter : setter.OnlySegments := by
  have hreads : twoModules.Reads id := declEngine_reads _
  have hvalid : validateModule twoModules setterWasm = .ok () := by decide
  have hparse : twoModules.parse setterWasm = some (.ok setter) := rfl
  refine (onlySegments_iff hreads hvalid hparse).mpr
    ⟨fun i hi ty hty => ?_, Nat.le_refl 1, Nat.zero_le 1⟩
  obtain rfl := List.mem_singleton.mp hi
  obtain rfl := ExternType.func.inj hty
  decide

/-- A module that imports a host function at another type is accepted, and never instantiated. -/
theorem not_onlySegments : twoModules.Reads id ∧ validateModule twoModules mistypedWasm = .ok () ∧
    twoModules.parse mistypedWasm = some (.ok mistyped) ∧ ¬ mistyped.OnlySegments :=
  ⟨declEngine_reads _, by decide, rfl, by decide⟩

end Zalkanes
