import Storyboard.CommandLine
import Storyboard.Number.Exact
import Storyboard.Proofs.Number.Ordered
import Storyboard.Proofs.Sampling.InForce
import Storyboard.Proofs.Document.Extend
import Storyboard.Proofs.Pool.Reservation
import Storyboard.Proofs.Pool.Inventory
import Storyboard.Proofs.Sampling.Sample
import Storyboard.Proofs.Pool.Fades
import Storyboard.Proofs.Pool.Visibility
import Storyboard.Proofs.Scroll.Frames
import Storyboard.Proofs.Scroll.Seen
import Storyboard.Proofs.Scroll.Track
import Storyboard.Proofs.Scroll.Showing
import Storyboard.Proofs.Scroll.Stage
import Storyboard.Proofs.Scroll.Placement
import Storyboard.Proofs.Scroll.Reuse
import Storyboard.Proofs.Chain.Gather
import Storyboard.Proofs.Chain.Links
import Storyboard.Proofs.Run.Steps
import Storyboard.Proofs.Run.Evaluation
import Storyboard.Proofs.Chain.Value
import Storyboard.Proofs.Sampling.Arrangement
import Storyboard.Proofs.Chain.Sampling
import Storyboard.Proofs.Compaction
import Storyboard.Proofs.Pool.Calls
import Storyboard.Proofs.Pool.Peak
import Storyboard.Proofs.Chain.Places
import Storyboard.Proofs.Grouping
import Storyboard.Proofs.Expansion
import Storyboard.Proofs.Scroll.Stock
import Storyboard.Proofs.Scroll.Generation
import Storyboard.Proofs.Rearrangement
import Storyboard.Proofs.Scroll.Displacement
import Storyboard.Proofs.Scroll.Forward
import Storyboard.Proofs.Scroll.BaseTempo
import Storyboard.Proofs.Scroll.Faults
import Storyboard.Proofs.Scroll.Isolation
import Storyboard.Proofs.Number.Faithful
import Storyboard.Proofs.Writing.Number
import Storyboard.Proofs.Writing.Canonical
import Storyboard.Proofs.Writing.Command
import Storyboard.Proofs.Writing.Export
import Storyboard.Proofs.Timeline.Assembly
import Storyboard.Proofs.Timeline.Stored
import Storyboard.Proofs.Scroll.Windows
import Storyboard.Proofs.Scroll.Grid
import Storyboard.Proofs.Scroll.Integral
import Storyboard.Proofs.Beatmap.Tempo
import Storyboard.Proofs.Beatmap.Lanes
import Storyboard.Proofs.Number.Ranked
import Storyboard.Proofs.Number.Stored
import Storyboard.Proofs.Number.Zero
import Storyboard.Proofs.Chain.Drift
import Storyboard.Proofs.Chain.Stretches
import Storyboard.Proofs.Recovery
import Storyboard.Proofs.Scroll.Stretches
import Storyboard.Proofs.Scroll.Lines
import Storyboard.Proofs.Scroll.SingleNote
import Storyboard.Proofs.Pool.FadePass
import Storyboard.Proofs.Gear.Whole
import Storyboard.Proofs.Beatmap.FirstTempo
import Storyboard.Proofs.Easing.Pieces
import Storyboard.Proofs.Easing.Families
