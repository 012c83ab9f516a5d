import Interchain.Precompile.Registry
import Interchain.Proofs.Steps

/-!
# Active contracts

Which contract runs. The usual registry of a chain holds the messenger and nothing else, and exists exactly for
valid configurations. A contract is active where it is installed and the schedule enables it, and a call runs the
contract that is active at its address; at all other addresses nothing of this library runs.
-/

namespace Interchain.Registry

variable {registry : Registry} {config : ChainConfig} {scheme : SignatureScheme} {a : Address}
  {t : UInt64} {p : Precompile}

theorem ofList_singleton (p : Precompile) : ofList [p] = .ok (Table.empty.insert p.address p) := rfl

/-- In a registry of one contract, every address but that of the contract is free. -/
theorem get?_of_ofList_singleton (h : ofList [p] = .ok registry) :
    registry.get? a = if a = p.address then some p else none := by
  rw [ofList_singleton, Except.ok.injEq] at h
  rw [← h, Table.get?_insert, Table.get?_empty]

theorem ofConfig_eq_ok_iff :
    ofConfig scheme config = .ok registry ↔ config.validate = .ok () ∧
      registry = Table.empty.insert Messenger.address
        (Messenger.precompile scheme .standard config.quorum) := by
  have hlist : ofList [Messenger.precompile scheme .standard config.quorum] = .ok (Table.empty.insert
      Messenger.address (Messenger.precompile scheme .standard config.quorum)) := ofList_singleton _
  rw [ofConfig, hlist, Steps.bind_eq_ok_iff]
  constructor
  · intro ⟨_, hv, h⟩
    exact ⟨Steps.mapError_eq_ok_iff.1 hv, (Except.ok.inj h).symm⟩
  · intro ⟨hv, h⟩
    exact ⟨(), Steps.mapError_eq_ok_iff.2 hv, congrArg Except.ok h.symm⟩

theorem get?_ofConfig (h : ofConfig scheme config = .ok registry) :
    registry.get? a =
      if a = Messenger.address then some (Messenger.precompile scheme .standard config.quorum)
      else none := by
  obtain ⟨-, h⟩ := ofConfig_eq_ok_iff.1 h
  rw [h, Table.get?_insert, Table.get?_empty]

theorem active?_eq_some_iff :
    registry.active? config a t = some p ↔
      registry.get? a = some p ∧ config.isEnabled p.key t = true :=
  Option.filter_eq_some_iff

theorem run_eq_some_iff {env : Environment} {c : Call} {action : CallM CallOutput} :
    registry.run config env c = some action ↔
      ∃ p, registry.active? config c.address env.block.timestamp = some p ∧ p.run env c = action :=
  Option.map_eq_some_iff

/-- Only the messenger is ever active. -/
theorem active?_ofConfig (h : ofConfig scheme config = .ok registry)
    (hp : registry.active? config a t = some p) :
    a = Messenger.address ∧ p = Messenger.precompile scheme .standard config.quorum := by
  obtain ⟨hget, -⟩ := active?_eq_some_iff.1 hp
  rw [get?_ofConfig h] at hget
  split at hget
  · next ha => exact ⟨ha, (Option.some.inj hget).symm⟩
  · cases hget

end Interchain.Registry
