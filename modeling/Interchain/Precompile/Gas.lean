/-!
# Gas

Gas is a 64-bit number, and a cost is either paid in full or not at all. `GasCosts` has the prices of the
messenger's functions as parameters; `GasCosts.standard` are the usual ones.
-/

namespace Interchain

/-- What is left after a cost; nothing if the cost cannot be paid. -/
def Gas.charge (left cost : UInt64) : Option UInt64 :=
  if cost ≤ left then some (left - cost) else none

theorem Gas.charge_eq_some_iff {left cost rest : UInt64} :
    charge left cost = some rest ↔ left.toNat = cost.toNat + rest.toNat := by
  unfold charge
  split
  · next h =>
    have h' := UInt64.le_iff_toNat_le.1 h
    rw [Option.some.injEq, ← UInt64.toNat_inj, UInt64.toNat_sub_of_le _ _ h]
    omega
  · next h =>
    have h' : ¬ cost.toNat ≤ left.toNat := fun e => h (UInt64.le_iff_toNat_le.2 e)
    exact ⟨nofun, fun e => by omega⟩

structure GasCosts where
  getChainId : UInt64
  getMessage : UInt64
  /-- For each validator that has signed the message that is read. -/
  perSigner : UInt64
  sendMessage : UInt64
deriving DecidableEq, Repr

namespace GasCosts

def standard : GasCosts where
  getChainId := 5000
  getMessage := 100000
  perSigner := 1000
  sendMessage := 100000

/-- The surcharge for a message with so many signers; nothing if no budget could pay it. -/
def surcharge (c : GasCosts) (signers : Nat) : Option UInt64 :=
  let cost := c.perSigner.toNat * signers
  if cost < UInt64.size then some (.ofNat cost) else none

theorem surcharge_eq_some_iff {c : GasCosts} {signers : Nat} {cost : UInt64} :
    c.surcharge signers = some cost ↔ c.perSigner.toNat * signers = cost.toNat := by
  simp only [surcharge]
  have hc := cost.toNat_lt
  split
  · next h => rw [Option.some.injEq, ← UInt64.toNat_inj, UInt64.toNat_ofNat_of_lt' h]
  · next h => exact ⟨nofun, fun e => absurd (e ▸ hc) h⟩

/-- A text of the table with its names. -/
def describe (c : GasCosts) : String :=
  s!"WarpGasCosts \x7b get_blockchain_id: {c.getChainId}, get_verified_warp_message: {c.getMessage}, " ++
    s!"get_verified_warp_message_per_signer: {c.perSigner}, send_warp_message: {c.sendMessage} \x7d"

end GasCosts

end Interchain
