import Zalkanes.Runtime.Calls

/-!
# Metering

The engine is configured to consume fuel, and a `call` instruction costs at least one unit. So a
module that calls the host pays for it (`Engine.Metered`), and a call writes no more entries than
the fuel it uses.

## Main results

* `length_writes_le_fuelUsed`: the writes of a call are paid for.
-/

namespace Zalkanes

open Lib

/-- With so much fuel, the module pays at least one unit for every call of the host, and what it
reports to be left is at most what is left. -/
def Guest.Metered : Guest → ℕ → Prop
  | done fuelLeft _, fuel => fuelLeft ≤ fuel
  | call _ _ resume, fuel => 0 < fuel ∧ ∀ code memory, (resume code memory).Metered (fuel - 1)

/-- The modules that the engine instantiates pay for their calls of the host. -/
def Engine.Metered (E : Engine) : Prop :=
  ∀ m fuel dispatch, E.instantiate m fuel = .ok (some dispatch) →
    ∀ opcode inputLen, (dispatch opcode inputLen).Metered fuel

/-- A host call adds at most one entry to the overlay. -/
theorem Caller.Effect.size_overlay_le {caller caller' : Caller} (h : caller.Effect caller') :
    caller'.data.overlay.size ≤ caller.data.overlay.size + 1 := by
  cases h with
  | memory m => exact Nat.le_add_right _ _
  | overlay key value hkey hvalue hroom => exact Std.ExtTreeMap.size_insert_le
  | output out hout => exact Nat.le_add_right _ _

/-- A metered run pays for the entries it adds to the overlay. -/
theorem Guest.Metered.size_overlay_le {overflowChecks : Bool} {g : Guest} {fuel fuelLeft : ℕ}
    {host host' : HostState} {result : Except String Int32} (hmetered : g.Metered fuel)
    (h : g.run overflowChecks host = .ok (fuelLeft, result, host')) :
    host'.overlay.size + fuelLeft ≤ host.overlay.size + fuel := by
  induction g generalizing host fuel with
  | done left result =>
      obtain ⟨rfl, hrest⟩ := Prod.mk.inj (Except.ok.inj h)
      obtain ⟨-, rfl⟩ := Prod.mk.inj hrest
      exact Nat.add_le_add_left hmetered _
  | call c memory resume ih =>
      obtain ⟨hpos, hresume⟩ := hmetered
      obtain ⟨⟨code, caller⟩, hcall, h⟩ := bind_eq_ok h
      have hone := (HostCall.effect_of_run hcall).size_overlay_le
      have hrest := ih code caller.memory (hresume code caller.memory) h
      dsimp only at hone hrest
      omega

/-- **The writes of a call are paid for**: there are no more of them than units of fuel used. -/
theorem length_writes_le_fuelUsed {E : Engine} (hE : E.Metered) {overflowChecks : Bool}
    {ctx : CallContext} {state : StateView} {output : Bytes} {fuelUsed : ℕ}
    {writes : List StorageWrite}
    (h : execute E overflowChecks ctx state = .ok (.success output fuelUsed writes)) :
    writes.length ≤ fuelUsed := by
  obtain ⟨g, fuelLeft, host, ⟨_, _, m, dispatch, _, _, hinstantiate, rfl⟩, hrun, -, rfl, rfl⟩ :=
    exists_run_of_execute_success h
  have hsize := (hE m ctx.fuelLimit dispatch hinstantiate _ _).size_overlay_le hrun
  have hempty : (HostState.init ctx state).overlay.size = 0 := Std.ExtTreeMap.size_empty
  rw [HostState.writes, List.length_map, Std.ExtTreeMap.length_toList]
  omega

end Zalkanes
