import Scriptling.Directory
import Scriptling.Main
import Scriptling.Proofs.Control
import Scriptling.Proofs.Lookups
import Scriptling.Proofs.Steps
import Scriptling.Proofs.Fuel
import Scriptling.Proofs.Nesting
import Scriptling.Proofs.Contents
import Scriptling.Proofs.Detached
import Scriptling.Proofs.Widening
import Scriptling.Proofs.Confinement
import Scriptling.Proofs.Piecewise
import Scriptling.Proofs.Descent
import Scriptling.Proofs.Recognition
import Scriptling.Proofs.Ambiguity
import Scriptling.Proofs.Receivers
import Scriptling.Proofs.Histories
import Scriptling.Proofs.Upholding
import Scriptling.Proofs.Activations
import Scriptling.Proofs.Instances
import Scriptling.Proofs.Regions
import Scriptling.Proofs.Regimes
import Scriptling.Proofs.Rejection
import Scriptling.Proofs.Footprint
import Scriptling.Proofs.Renaming
import Scriptling.Proofs.Mirrors
import Scriptling.Proofs.Twins
import Scriptling.Proofs.Lockstep
import Scriptling.Proofs.Placement
import Scriptling.Proofs.Spacing
import Scriptling.Proofs.Recovery
import Scriptling.Proofs.Numbering
import Scriptling.Proofs.Truncation
import Scriptling.Proofs.Initializers
import Scriptling.Proofs.Trees
import Scriptling.Proofs.Toplevel
import Scriptling.Proofs.Munch
import Scriptling.Proofs.Lines
import Scriptling.Proofs.Order
import Scriptling.Proofs.Culprits
import Scriptling.Proofs.Literals
import Scriptling.Proofs.Stretches
import Scriptling.Proofs.Interchange
import Scriptling.Proofs.Balance
import Scriptling.Proofs.Stops
import Scriptling.Proofs.Readback
