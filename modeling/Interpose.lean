import Interpose.Control.Walk
import Interpose.Plugin
import Interpose.Script.Run
import Interpose.Proofs.Registry.Run
import Interpose.Proofs.Splice.Balance
import Interpose.Proofs.Splice.Transparency
import Interpose.Proofs.Splice.Order
import Interpose.Stream.Linked
import Interpose.Proofs.Stream.Chain
import Interpose.Proofs.Stream.Linked
import Interpose.Proofs.Stream.Simulation
import Interpose.Proofs.Stream.Changes
import Interpose.Proofs.Stream.Refinement
import Interpose.Proofs.Stream.Labels
import Interpose.Proofs.Registry.Bulk
import Interpose.Proofs.Registry.InstallAll
import Interpose.Proofs.Registry.RollBack
import Interpose.Proofs.Registry.Evolves
import Interpose.Proofs.Registry.Assembled
import Interpose.Proofs.Registry.Reentry
import Interpose.Proofs.Registry.UninstallAll
import Interpose.Proofs.Plugin.Unload
import Interpose.Proofs.Dispatch.Enrolled
import Interpose.Proofs.Dispatch.Closure
import Interpose.Proofs.Plugin.Lifecycle
import Interpose.Proofs.Plugin.Several
import Interpose.Proofs.Control.Exploration
import Interpose.Proofs.Stream.RoundTrip
import Interpose.Proofs.Stream.Alike
import Interpose.Proofs.Registry.Dangling
import Interpose.Proofs.Pattern.Blind
import Interpose.Proofs.Splice.Renaming
import Interpose.Proofs.Control.SameFlow
import Interpose.Registry.Tables
import Interpose.Proofs.Registry.Tables
import Interpose.Proofs.Registry.Registration
import Interpose.Registry.Records
import Interpose.Proofs.Registry.Records
import Interpose.Proofs.Pattern.Window
import Interpose.Proofs.Pattern.Minimal
import Interpose.Proofs.Pattern.Scan
import Interpose.Proofs.Splice.Locate
import Interpose.Proofs.Pattern.Searches
import Interpose.Proofs.Splice.Refusal
import Interpose.Proofs.Splice.Branches
import Interpose.Proofs.Splice.Captures
import Interpose.Proofs.Splice.Liveness
import Interpose.Proofs.Control.Paths
import Interpose.Proofs.Registry.Restoring
import Interpose.Proofs.Stream.Cursors
import Interpose.Proofs.Stream.Fresh
import Interpose.Proofs.Pattern.Syntax
import Interpose.Proofs.Pattern.ShortForms
import Interpose.Proofs.Pattern.Listing
import Interpose.Proofs.Stream.Emission
import Interpose.Proofs.Control.Words
import Interpose.Proofs.Text.Parts
import Interpose.Proofs.Pattern.Composition
