import Interchain.ChainConfig.Basic

/-!
# Schedules of upgrades

The schedule is one list for all contracts, in the order of the configuration. Which upgrade of a contract is active
(`ChainConfig.activeAt`) is decided by its place in this list and not by its timestamp; the two agree for the
schedules that `ChainConfig.verifyUpgrades` accepts.

* `ChainConfig.activations`: the upgrades that take effect between two blocks.
* `ChainConfig.validate`: which configurations are well formed, with an error that names the first upgrade at fault.
* `ChainConfig.checkCompatible`: whether a new configuration leaves the past of a running chain as it was.
-/

namespace Interchain

/-- Why a configuration is refused. -/
inductive ConfigError where
  | zeroChainId
  | improperQuorum (quorum : Quorum)
  | upgradeOutOfOrder (contract : BuiltIn) (previous timestamp : UInt64)
  | disableBeforeEnable (contract : BuiltIn) (timestamp : UInt64)
  | repeatedState (contract : BuiltIn) (timestamp : UInt64) (disabled : Bool)
  | incompatible (contract : BuiltIn) (head : UInt64) (stored new : List Upgrade)
deriving DecidableEq, Repr

/-- The canonical text of a list of upgrades. -/
def Upgrade.listText (us : List Upgrade) : String :=
  String.ofList (Compact.array (us.map Upgrade.compact))

def ConfigError.message : ConfigError → String
  | .zeroChainId => "Invalid chain ID: chain_id must be non-zero"
  | .improperQuorum q =>
    s!"Invalid warp quorum {q.numerator}/{q.denominator}: need 0 < numerator <= denominator"
  | .upgradeOutOfOrder c previous t =>
    s!"{c.key}: upgrade at timestamp {t} does not follow previous upgrade at {previous}"
  | .disableBeforeEnable c t => s!"{c.key}: first upgrade at timestamp {t} cannot be a disable"
  | .repeatedState c t disabled =>
    let state := if disabled then "disabled" else "enabled"
    s!"{c.key}: upgrade at timestamp {t} repeats the previous {state} state"
  | .incompatible c head stored new =>
    s!"Incompatible precompile upgrade for {c.key} at or before timestamp {head}: " ++
      s!"stored {Upgrade.listText stored}, new {Upgrade.listText new}"

/-- A quorum that is no proper fraction is refused. -/
def Quorum.validate (q : Quorum) : Except ConfigError Unit :=
  if q.IsProper then .ok () else .error (.improperQuorum q)

namespace ChainConfig

variable (c : ChainConfig) (key : String) (t : UInt64)

/-! ### State at a timestamp -/

def upgradesFor : List Upgrade :=
  c.upgrades.filter fun u => u.key = key

/-- The last upgrade of the contract, in the order of the schedule, among those in effect at `t`. -/
def activeAt : Option Upgrade :=
  (c.upgrades.filter fun u => u.key = key && u.timestamp ≤ t).getLast?

def isEnabled : Bool :=
  (c.activeAt key t).any fun u => !u.disabled

/-- The upgrades that take effect after the parent block, or from the beginning on, and not after `current`. -/
def activations (parent : Option UInt64) (current : UInt64) : List Upgrade :=
  c.upgrades.filter fun u => u.timestamp ≤ current && parent.all (· < u.timestamp)

/-- The upgrades of a contract that have taken effect at `head`. -/
def effective (contract : BuiltIn) (head : UInt64) : List Upgrade :=
  c.upgrades.filter fun u => u.contract = contract && u.timestamp ≤ head

/-! ### Well-formed schedules -/

/-- Checks the upgrades of one contract after `previous`: later timestamps, and states that alternate. -/
def verifyAfter (contract : BuiltIn) (previous : Upgrade) : List Upgrade → Except ConfigError Unit
  | [] => .ok ()
  | u :: us =>
    if u.timestamp ≤ previous.timestamp then
      .error (.upgradeOutOfOrder contract previous.timestamp u.timestamp)
    else if u.disabled = previous.disabled then .error (.repeatedState contract u.timestamp u.disabled)
    else verifyAfter contract u us

/-- Checks the upgrades of one contract; the first must enable it. -/
def verifySequence (contract : BuiltIn) : List Upgrade → Except ConfigError Unit
  | [] => .ok ()
  | u :: us =>
    if u.disabled then .error (.disableBeforeEnable contract u.timestamp)
    else verifyAfter contract u us

/-- The contracts in the order of their keys. -/
def contracts : List BuiltIn := [.warpMessenger]

def verifyUpgrades : Except ConfigError Unit :=
  contracts.forM fun k => verifySequence k (c.upgrades.filter fun u => u.contract = k)

def validate : Except ConfigError Unit := do
  if c.chainId = .zero then throw .zeroChainId
  c.quorum.validate
  c.verifyUpgrades

/-! ### Agreement on the past -/

/-- Two configurations agree up to `head` if the same upgrades have taken effect by then. -/
def checkCompatible (new : ChainConfig) (head : UInt64) : Except ConfigError Unit :=
  contracts.forM fun k =>
    if c.effective k head = new.effective k head then .ok ()
    else .error (.incompatible k head (c.effective k head) (new.effective k head))

end ChainConfig

end Interchain
