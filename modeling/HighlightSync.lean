import HighlightSync.KeyTable.Request
import HighlightSync.Session.Basic
import HighlightSync.Proofs.Change
import HighlightSync.Proofs.Soundness
import HighlightSync.Proofs.Delivery
import HighlightSync.Proofs.History
import HighlightSync.Proofs.Edits
import HighlightSync.Proofs.ChangeLog
import HighlightSync.Proofs.Uniform
import HighlightSync.Proofs.Mirror
import HighlightSync.Proofs.Faults
import HighlightSync.Proofs.Spreading
import HighlightSync.Proofs.Search
import HighlightSync.Proofs.Closure
import HighlightSync.Proofs.Ledger
import HighlightSync.Proofs.MoveClosure
import HighlightSync.Proofs.Termination
import HighlightSync.Proofs.Links
import HighlightSync.Proofs.Flood
import HighlightSync.Proofs.MapperSwap
import HighlightSync.Proofs.Detachment
import HighlightSync.Proofs.Asking
import HighlightSync.Proofs.Sweep
import HighlightSync.Proofs.Sweeping
import HighlightSync.Proofs.TwoWay
import HighlightSync.Proofs.OneWay
import HighlightSync.Proofs.Depth
import HighlightSync.Proofs.Descent
import HighlightSync.Proofs.Guarded
import HighlightSync.Proofs.Settling
import HighlightSync.Proofs.Failures
import HighlightSync.Proofs.Order
import HighlightSync.Proofs.Frames
import HighlightSync.Proofs.Nesting
import HighlightSync.Proofs.FanOut
import HighlightSync.Proofs.Anchoring
import HighlightSync.Proofs.Wiring
import HighlightSync.Proofs.Deeds
import HighlightSync.Proofs.Dropped
import HighlightSync.Proofs.Weaving
import HighlightSync.Proofs.Likeness
import HighlightSync.Proofs.Alike
import HighlightSync.Proofs.SideBySide
import HighlightSync.Proofs.Lockstep
import HighlightSync.Proofs.Stages
import HighlightSync.Proofs.Bystanders
import HighlightSync.Proofs.Unison
import HighlightSync.Proofs.Limits
import HighlightSync.Proofs.Blanks
import HighlightSync.Proofs.Roll
import HighlightSync.Proofs.Rearranging
import HighlightSync.Proofs.Warnings
import HighlightSync.Proofs.Transposition
import HighlightSync.Proofs.Identities
import HighlightSync.Proofs.Reading
import HighlightSync.Proofs.Forwarding
import HighlightSync.Proofs.Provenance
import HighlightSync.Proofs.Legibility
