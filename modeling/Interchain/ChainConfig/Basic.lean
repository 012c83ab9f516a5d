import Interchain.Bytes.Hex
import Interchain.Document.Compact

/-!
# Chain configurations

A chain has an identifier, a network, the quorum that foreign messages need, and a schedule of upgrades that enable
and disable the contracts built into it. All parts come with their canonical text.

Nothing is asked of a configuration here: its quorum may be above one, and its schedule in any order.
`ChainConfig.validate` says which configurations make sense.
-/

namespace Interchain

/-! ### Built-in contracts -/

inductive BuiltIn where
  | warpMessenger
deriving DecidableEq, Repr

namespace BuiltIn

/-- The name under which a schedule refers to the contract. -/
def key : BuiltIn → String
  | warpMessenger => "warpConfig"

def address : BuiltIn → Address
  | warpMessenger => ⟨[2, 0, 0, 0, 0, 0, 0, 0, 0, 0, 0, 0, 0, 0, 0, 0, 0, 0, 0, 5], rfl⟩

end BuiltIn

/-! ### Upgrades -/

structure Upgrade where
  contract : BuiltIn := .warpMessenger
  timestamp : UInt64
  disabled : Bool := false
deriving DecidableEq, Repr

namespace Upgrade

def key (u : Upgrade) : String := u.contract.key

def address (u : Upgrade) : Address := u.contract.address

/-- Whether the upgrade enables its contract and has taken effect at `t`. -/
def isActive (u : Upgrade) (t : UInt64) : Bool :=
  u.timestamp ≤ t && !u.disabled

/-- The members of an upgrade without the contract that it is for. -/
def body (u : Upgrade) : List Char :=
  Compact.object
    [Compact.member "blockTimestamp" (Compact.natural u.timestamp.toNat),
      Compact.member "disable" (Compact.bool u.disabled)]

def compact (u : Upgrade) : List Char :=
  Compact.object [Compact.member u.key u.body]

end Upgrade

/-! ### Quorums -/

structure Quorum where
  numerator : UInt64
  denominator : UInt64
deriving DecidableEq, Repr

namespace Quorum

/-- Two thirds, rounded up to a whole percentage. -/
def standard : Quorum := ⟨67, 100⟩

def compact (q : Quorum) : List Char :=
  Compact.object
    [Compact.member "numerator" (Compact.natural q.numerator.toNat),
      Compact.member "denominator" (Compact.natural q.denominator.toNat)]

/-- A fraction above zero and not above one. -/
def IsProper (q : Quorum) : Prop :=
  0 < q.numerator ∧ 0 < q.denominator ∧ q.numerator ≤ q.denominator

instance (q : Quorum) : Decidable q.IsProper :=
  inferInstanceAs (Decidable (_ ∧ _ ∧ _))

end Quorum

/-! ### Configurations -/

structure ChainConfig where
  chainId : Hash32
  networkId : UInt32 := 0
  quorum : Quorum := .standard
  upgrades : List Upgrade := []
deriving DecidableEq

namespace ChainConfig

def compact (c : ChainConfig) : List Char :=
  Compact.object
    [Compact.member "chainId" (Compact.hex c.chainId.bytes),
      Compact.member "networkId" (Compact.natural c.networkId.toNat),
      Compact.member "warpQuorum" c.quorum.compact,
      Compact.member "precompileUpgrades" (Compact.array (c.upgrades.map Upgrade.compact))]

/-- The canonical text of a configuration. -/
def text (c : ChainConfig) : String := String.ofList c.compact

end ChainConfig

end Interchain
