import Unbundle.Container.Encoder
import Unbundle.Container.Parser
import Unbundle.Main
import Unbundle.Proofs.Script.Locality
import Unbundle.Proofs.Bundle.Registration
import Unbundle.Proofs.Bundle.Splitting
import Unbundle.Proofs.Container.Bounds
import Unbundle.Proofs.Path.Canonical
import Unbundle.Proofs.Disk.Below
import Unbundle.Proofs.Disk.Frame
import Unbundle.Proofs.Output.Offers
import Unbundle.Proofs.Run.Offers
import Unbundle.Proofs.Bundle.Modules
import Unbundle.Proofs.Ledger.Places
import Unbundle.Proofs.Run.Confinement
import Unbundle.Proofs.Container.RoundTrip
import Unbundle.Proofs.Path.Parent
import Unbundle.Proofs.Disk.Descent
import Unbundle.Proofs.Disk.Making
import Unbundle.Proofs.Output.Storage
import Unbundle.Proofs.Disk.Ancestors
import Unbundle.Proofs.Run.Preparation
import Unbundle.Proofs.Run.Delivery
import Unbundle.Proofs.Run.Reconstruction
import Unbundle.Proofs.Sealed.Opening
import Unbundle.Proofs.Disk.Arrival
import Unbundle.Proofs.Output.History
import Unbundle.Proofs.Run.Agreement
import Unbundle.Proofs.Disk.Alike
import Unbundle.Proofs.Sealed.Keyring
import Unbundle.Proofs.Run.Lockstep
import Unbundle.Proofs.Run.Omission
import Unbundle.Proofs.Run.Transparency
import Unbundle.Proofs.Sealed.Requests
import Unbundle.Proofs.Run.Registry
import Unbundle.Proofs.Run.Turns
import Unbundle.Proofs.Script.Places
import Unbundle.Proofs.Script.Pieces
import Unbundle.Proofs.Script.Literals
import Unbundle.Proofs.Script.Walk
import Unbundle.Proofs.Bundle.Places
import Unbundle.Proofs.Bundle.Placement
import Unbundle.Proofs.Run.Dependencies
import Unbundle.Proofs.Ledger.Recording
import Unbundle.Proofs.Run.Recorded
import Unbundle.Proofs.Disk.Again
import Unbundle.Proofs.Output.Again
import Unbundle.Proofs.Output.Following
import Unbundle.Proofs.Run.Renewal
import Unbundle.Proofs.Run.Repetition
import Unbundle.Proofs.Path.Specifier
import Unbundle.Proofs.Run.Requirements
import Unbundle.Proofs.Output.Cut
import Unbundle.Proofs.Run.Layers
import Unbundle.Proofs.Disk.Removal
import Unbundle.Proofs.Run.Inputs
import Unbundle.Proofs.Script.Ending
import Unbundle.Proofs.Script.Trace
import Unbundle.Proofs.Script.Shown
import Unbundle.Proofs.Bundle.Requires
import Unbundle.Proofs.Script.Scan
import Unbundle.Proofs.Script.Words
import Unbundle.Proofs.Script.Gaps
import Unbundle.Proofs.Script.Grammar
import Unbundle.Proofs.Script.Slice
import Unbundle.Proofs.Script.Properties
import Unbundle.Proofs.Script.Cut
import Unbundle.Proofs.Bundle.Grammar
import Unbundle.Proofs.Bundle.Slice
import Unbundle.Proofs.Bundle.Cut
import Unbundle.Proofs.Path.Walk
import Unbundle.Proofs.Path.Separators
import Unbundle.Proofs.Run.Unresolved
import Unbundle.Proofs.Script.Spelling
import Unbundle.Proofs.Bundle.Spelling
import Unbundle.Proofs.Disk.Between
import Unbundle.Proofs.Run.Protection
import Unbundle.Proofs.Run.Counters
import Unbundle.Proofs.Run.Parts
import Unbundle.Proofs.Run.Reregistration
import Unbundle.Proofs.Output.Between
import Unbundle.Proofs.Output.Taking
import Unbundle.Proofs.Output.Depth
import Unbundle.Proofs.Output.Order
import Unbundle.Proofs.Run.Listing
import Unbundle.Proofs.Sealed.Bounds
import Unbundle.Proofs.Path.Normal
import Unbundle.Proofs.Script.Matching
import Unbundle.Proofs.Script.Quotes
