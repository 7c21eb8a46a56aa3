import SqlFragments.Builder.Basic
import SqlFragments.Main
import SqlFragments.Proofs.Alike
import SqlFragments.Proofs.Caching
import SqlFragments.Proofs.Calls
import SqlFragments.Proofs.HandOut
import SqlFragments.Proofs.Lockstep
import SqlFragments.Proofs.Noninterference
import SqlFragments.Proofs.Pieces
import SqlFragments.Proofs.Reading
import SqlFragments.Proofs.Resolving
import SqlFragments.Proofs.Reads
import SqlFragments.Proofs.Runs
import SqlFragments.Proofs.Sound
import SqlFragments.Proofs.Stream
import SqlFragments.Proofs.Walk
import SqlFragments.Query.Compiled
import SqlFragments.Query.NamedParameters
import SqlFragments.Proofs.Parts
import SqlFragments.Proofs.Composition
import SqlFragments.Proofs.Keeping
import SqlFragments.Proofs.Histories
import SqlFragments.Proofs.OnePass
import SqlFragments.Proofs.Moments
import SqlFragments.Proofs.Registrations
import SqlFragments.Proofs.Alignment
import SqlFragments.Proofs.ReadBack
import SqlFragments.Proofs.Catalogue
import SqlFragments.Proofs.Deeds
import SqlFragments.Proofs.Targets
import SqlFragments.Proofs.SideBySide
import SqlFragments.Proofs.Twins
import SqlFragments.Proofs.Outcomes
import SqlFragments.Proofs.Setters
import SqlFragments.Proofs.OutOfSight
import SqlFragments.Proofs.Separation
import SqlFragments.Proofs.Mirroring
import SqlFragments.Proofs.Recording
import SqlFragments.Proofs.Raising
import SqlFragments.Proofs.OwnCache
import SqlFragments.Proofs.Visits
import SqlFragments.Proofs.Parameters
import SqlFragments.Proofs.Shape
import SqlFragments.Proofs.Placement
import SqlFragments.Proofs.Listing
import SqlFragments.Proofs.LineBreaks
import SqlFragments.Proofs.BuilderTargets
import SqlFragments.Proofs.Groupings
import SqlFragments.Proofs.Templates
import SqlFragments.Proofs.Walkthrough
