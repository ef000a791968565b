import Zalkanes.Runtime.Host

/-!
# Executing a Call

The WASM engine and the WASM parser are external, so they are parameters (`Engine`). A module in
execution is a tree of host calls (`Guest`): what it does next depends on the status codes and
the memory that the host hands back. Fuel makes every execution finite, so the tree is well
founded.
-/

namespace Zalkanes

open Lib

/-! ### Modules -/

/-- A module in execution. -/
inductive Guest where
  /-- `dispatch` returned a code, or an error with a message, with so much fuel left. -/
  | done (fuelLeft : ℕ) (result : Except String Int32)
  /-- The module calls the host, with this memory, and goes on with the status code and the
  memory after the call. -/
  | call (c : HostCall) (memory : Option Bytes) (resume : Int32 → Option Bytes → Guest)

/-- Run a module to its end. -/
def Guest.run (overflowChecks : Bool) :
    Guest → HostState → Except Panic (ℕ × Except String Int32 × HostState)
  | done fuelLeft result, host => .ok (fuelLeft, result, host)
  | call c memory resume, host => do
      let (code, caller) ← c.run overflowChecks ⟨memory, host⟩
      (resume code caller.memory).run overflowChecks caller.data

/-- What an import or an entry of a section is. -/
inductive TypeRef where
  | func
  | table (initial : ℕ)
  | memory (initial : ℕ)
  | global
  | tag
  deriving DecidableEq

/-- An import, as the validator sees it. -/
structure Import where
  moduleName : String
  name : String
  ty : TypeRef
  deriving DecidableEq

/-- A section, as the parser reports it: the declared count, or the entries as they are read. -/
inductive Payload where
  | importSection (count : ℕ) (imports : List (Except String Import))
  | functionSection (count : ℕ)
  | tableSection (initials : List (Except String ℕ))
  | memorySection (initials : List (Except String ℕ))
  | globalSection (count : ℕ)
  | exportSection (count : ℕ)
  | other

/-- The engine under the consensus configuration, and the section parser. -/
structure Engine where
  /-- A parsed module. -/
  Module : Type
  /-- `Module::new`; nothing when the translator panics. -/
  parse : Bytes → Option (Except String Module)
  /-- The error of `set_fuel`, if there is one. -/
  setFuel : ℕ → Option String
  /-- `instantiate_and_start` with the consensus linker and so much fuel: an error and the fuel
  left, or the instance's `dispatch` function, if it exports one of the right type. -/
  instantiate : Module → ℕ → Except (String × ℕ) (Option (Int32 → Int32 → Guest))
  /-- `wasmparser::Parser::parse_all`. -/
  parseAll : Bytes → List (Except String Payload)

/-- Parse a module with panic containment. -/
def parseModuleContained (E : Engine) (wasm : Bytes) : Except String E.Module :=
  match E.parse wasm with
  | some (.ok m) => .ok m
  | some (.error e) => .error ("WASM parse error: " ++ e)
  | none => .error "WASM parse error: engine translation panic (rejected)"

/-! ### Validation -/

/-- What a module declares, counted. -/
structure ModuleCounts where
  funcs : ℕ := 0
  globals : ℕ := 0
  imports : ℕ := 0
  exports : ℕ := 0
  maxMemoryPages : ℕ := 0
  maxTableElems : ℕ := 0
  deriving DecidableEq

/-- Count one import. -/
def ModuleCounts.addImport (counts : ModuleCounts) :
    Except String Import → Except String ModuleCounts
  | .error e => .error ("wasm import error: " ++ e)
  | .ok i => .ok <| match i.ty with
      | .func => { counts with funcs := counts.funcs + 1 }
      | .table initial => { counts with maxTableElems := max counts.maxTableElems initial }
      | .memory initial => { counts with maxMemoryPages := max counts.maxMemoryPages initial }
      | .global => { counts with globals := counts.globals + 1 }
      | .tag => counts

/-- Count one section. -/
def ModuleCounts.addPayload (counts : ModuleCounts) :
    Except String Payload → Except String ModuleCounts
  | .error e => .error ("wasm parse error: " ++ e)
  | .ok (.importSection count imports) =>
      imports.foldlM ModuleCounts.addImport { counts with imports := count }
  | .ok (.functionSection count) => .ok { counts with funcs := counts.funcs + count }
  | .ok (.tableSection initials) =>
      initials.foldlM (fun counts initial => match initial with
        | .error e => .error ("wasm table error: " ++ e)
        | .ok initial => .ok { counts with maxTableElems := max counts.maxTableElems initial })
        counts
  | .ok (.memorySection initials) =>
      initials.foldlM (fun counts initial => match initial with
        | .error e => .error ("wasm memory error: " ++ e)
        | .ok initial => .ok { counts with maxMemoryPages := max counts.maxMemoryPages initial })
        counts
  | .ok (.globalSection count) => .ok { counts with globals := counts.globals + count }
  | .ok (.exportSection count) => .ok { counts with exports := count }
  | .ok .other => .ok counts

/-- The counts of the sections, one after the other. -/
def countModuleEntities (E : Engine) (wasm : Bytes) : Except String ModuleCounts :=
  (E.parseAll wasm).foldlM ModuleCounts.addPayload {}

/-- The host functions the consensus linker provides, in module `env`. -/
def hostImports : List String :=
  ["storage_get", "storage_set", "storage_delete", "output_write", "context_block_height",
    "input_read"]

/-- The import check of one import. -/
def checkImport : Except String Import → Except String Unit
  | .error e => .error ("wasm import error: " ++ e)
  | .ok i =>
      if i.moduleName = "env" ∧ i.name ∈ hostImports ∧ i.ty = .func then .ok ()
      else .error ("unresolvable import " ++ i.moduleName ++ "::" ++ i.name ++
        " (host ABI provides only env::\x7b" ++ String.intercalate ", " hostImports ++ "\x7d)")

/-- The import check of one section. -/
def checkPayload : Except String Payload → Except String Unit
  | .error e => .error ("wasm parse error: " ++ e)
  | .ok (.importSection _ imports) => imports.forM checkImport
  | .ok _ => .ok ()

/-- A structural limit, with the text of its error. -/
def checkLimit (what : String) (count : ℕ) (unit : String) (name : String) (limit : UInt32) :
    Except String Unit :=
  if count > limit.toNat then
    .error (what ++ " " ++ toString count ++ unit ++ " exceeds " ++ name ++ " " ++ toString limit)
  else .ok ()

/-- Validate a module against the v0 feature set and structural limits. -/
def validateModule (E : Engine) (wasm : Bytes) : Except String Unit :=
  if UInt32.ofNat wasm.length > maxCodeBytes then
    .error ("module too large: " ++ toString wasm.length ++ " > " ++ toString maxCodeBytes)
  else do
    let _ ← parseModuleContained E wasm
    let counts ← countModuleEntities E wasm
    checkLimit "function count" counts.funcs "" "MAX_FUNCTIONS" maxFunctions
    checkLimit "global count" counts.globals "" "MAX_GLOBALS" maxGlobals
    checkLimit "import count" counts.imports "" "MAX_IMPORTS" maxImports
    checkLimit "export count" counts.exports "" "MAX_EXPORTS" maxExports
    checkLimit "memory" counts.maxMemoryPages " pages" "MAX_LINEAR_MEMORY_PAGES"
      maxLinearMemoryPages
    checkLimit "table" counts.maxTableElems " elements" "MAX_TABLE_ELEMENTS" maxTableElements
    (E.parseAll wasm).forM checkPayload

/-! ### Calls -/

/-- A single storage mutation produced by contract execution. -/
inductive StorageWrite where
  | set (contract : ContractId) (key value : Bytes)
  | delete (contract : ContractId) (key : Bytes)
  deriving DecidableEq

/-- Result of a single contract call. -/
inductive CallResult where
  | success (output : Bytes) (fuelUsed : ℕ) (writes : List StorageWrite)
  | trap (reason : String) (fuelUsed : ℕ)
  | fuelExhausted (fuelUsed : ℕ)
  | invalidModule (reason : String)
  | contractNotFound
  deriving DecidableEq

/-- Context provided to a contract during execution. -/
structure CallContext where
  contractId : ContractId
  caller : Option ContractId
  txid : TxId
  blockHeight : BlockHeight
  opcode : UInt16
  input : Bytes
  fuelLimit : ℕ
  depth : UInt32
  deriving DecidableEq

/-- Materialize the overlay: one write for each key, in key order. -/
def HostState.writes (host : HostState) : List StorageWrite :=
  host.overlay.toList.map fun (key, val) => match val with
    | some v => .set host.contractId key v
    | none => .delete host.contractId key

/-- The state a call starts in. -/
def HostState.init (ctx : CallContext) (state : StateView) : HostState where
  contractId := ctx.contractId
  input := ctx.input
  output := []
  blockHeight := ctx.blockHeight
  overlay := ∅
  base := state

/-- What a finished `dispatch` means. -/
def CallResult.ofDispatch (fuelLimit fuelLeft : ℕ) (result : Except String Int32)
    (host : HostState) : CallResult :=
  let fuelUsed := fuelLimit - fuelLeft
  match result with
  | .ok code =>
      if code = 0 then .success host.output fuelUsed host.writes
      else .trap ("dispatch returned error code " ++ toString code) fuelUsed
  | .error msg =>
      if "fuel".toList <:+: msg.toList ∨ "OutOfFuel".toList <:+: msg.toList then
        .fuelExhausted fuelUsed
      else .trap msg fuelUsed

/-- Execute a contract call against a store, buffering writes. -/
def execute (E : Engine) (overflowChecks : Bool) (ctx : CallContext) (state : StateView) :
    Except Panic CallResult :=
  if ctx.depth > maxCallDepth then
    .ok (.trap ("call depth " ++ toString ctx.depth ++ " exceeds MAX_CALL_DEPTH " ++
      toString maxCallDepth) 0)
  else
    match state.getContract ctx.contractId with
    | none => .ok .contractNotFound
    | some (_, wasm) =>
        match parseModuleContained E wasm with
        | .error reason => .ok (.invalidModule reason)
        | .ok m =>
            match E.setFuel ctx.fuelLimit with
            | some e => .ok (.trap ("set_fuel failed: " ++ e) 0)
            | none =>
                match E.instantiate m ctx.fuelLimit with
                | .error (e, fuelLeft) =>
                    .ok (.trap ("instantiation error: " ++ e) (ctx.fuelLimit - fuelLeft))
                | .ok none => .ok (.trap "missing 'dispatch' export" 0)
                | .ok (some dispatch) => do
                    let opcode := Int32.ofNat ctx.opcode.toNat
                    let inputLen := Int32.ofNat ctx.input.length
                    let (fuelLeft, result, host) ←
                      (dispatch opcode inputLen).run overflowChecks (.init ctx state)
                    return .ofDispatch ctx.fuelLimit fuelLeft result host

end Zalkanes
