import Interchain.Block.Workers
import Interchain.ChainConfig.Reading
import Interchain.Proofs.Block.Authenticity
import Interchain.Proofs.Block.Schedules
import Interchain.Proofs.Precompile.Agreement
import Interchain.Proofs.Message.Codec
import Interchain.Proofs.AccessList.Packing
import Interchain.Proofs.AccessList.Lists
import Interchain.Proofs.Abi
import Interchain.Proofs.Precompile.Sending
import Interchain.Proofs.Precompile.Delivery
import Interchain.Proofs.Precompile.Relay
import Interchain.Proofs.Precompile.Belonging
import Interchain.Proofs.ChainConfig.WellFormed
import Interchain.Proofs.ChainConfig.Windows
import Interchain.Proofs.ChainConfig.States
import Interchain.Proofs.ChainConfig.Agreement
import Interchain.Proofs.Precompile.Effects
import Interchain.Proofs.Precompile.Activation
import Interchain.Proofs.Precompile.BlockRuns
import Interchain.Proofs.Precompile.Spacing
import Interchain.Proofs.Precompile.Metering
import Interchain.Proofs.Message.Intersection
import Interchain.Proofs.Precompile.Sequences
import Interchain.Proofs.State.Overlay
import Interchain.Proofs.State.Flat
import Interchain.Proofs.Message.Snapshots
import Interchain.Proofs.Block.Compatible
import Interchain.Proofs.Message.Refusal
import Interchain.Proofs.Table
import Interchain.Proofs.Block.Relevant
import Interchain.Proofs.AccessList.Keys
import Interchain.Proofs.AccessList.Unread
import Interchain.Proofs.Precompile.Deliverable
import Interchain.Proofs.AccessList.Lossless
import Interchain.Proofs.Message.Cuts
import Interchain.Proofs.Validator.WellFormed
import Interchain.Proofs.Message.SignerIndices
import Interchain.Proofs.Precompile.Surcharge
import Interchain.Proofs.Precompile.Atomicity
import Interchain.Proofs.Precompile.Dispatching
import Interchain.Proofs.ChainConfig.Text
import Interchain.Proofs.Signing.Keys
import Interchain.Proofs.Signing.Verification
import Interchain.Proofs.Message.Scripts
import Interchain.Proofs.Abi.Offsets
