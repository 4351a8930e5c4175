import Phrasebook.Host.Folder
import Phrasebook.Main
import Phrasebook.Proofs.Decisions
import Phrasebook.Proofs.Derivation
import Phrasebook.Proofs.Distinct
import Phrasebook.Proofs.Ends
import Phrasebook.Proofs.Alike
import Phrasebook.Proofs.Expands
import Phrasebook.Proofs.Enumeration
import Phrasebook.Proofs.Draws
import Phrasebook.Proofs.DrawingSteps
import Phrasebook.Proofs.Occurrences
import Phrasebook.Proofs.Sampled
import Phrasebook.Proofs.Nesting
import Phrasebook.Proofs.Scripts
import Phrasebook.Proofs.Drawable
import Phrasebook.Proofs.Possibilities
import Phrasebook.Proofs.Validity
import Phrasebook.Proofs.Weights
import Phrasebook.Proofs.Tallies
import Phrasebook.Proofs.Counts
import Phrasebook.Proofs.Capacity
import Phrasebook.Proofs.CountOrder
import Phrasebook.Proofs.Bounds
import Phrasebook.Proofs.Placement
import Phrasebook.Proofs.Markers
import Phrasebook.Proofs.Bindings
import Phrasebook.Proofs.Mentions
import Phrasebook.Proofs.Coverage
import Phrasebook.Proofs.Synonyms
import Phrasebook.Proofs.Runs
import Phrasebook.Proofs.Schedules
import Phrasebook.Proofs.Picks
import Phrasebook.Proofs.Batches
import Phrasebook.Proofs.Faults
import Phrasebook.Proofs.Accounting
import Phrasebook.Proofs.Isolation
import Phrasebook.Proofs.Reached
import Phrasebook.Proofs.PlainExpansion
import Phrasebook.Proofs.Caching
import Phrasebook.Proofs.Correlation
import Phrasebook.Proofs.Strictness
import Phrasebook.Proofs.Consistency
import Phrasebook.Proofs.RoundTrip
import Phrasebook.Proofs.Arrangement
import Phrasebook.Proofs.InDegrees
import Phrasebook.Proofs.ReferenceOrder
import Phrasebook.Proofs.ExactCounts
import Phrasebook.Proofs.Inclusions
import Phrasebook.Proofs.Substitution
import Phrasebook.Proofs.Boundaries
import Phrasebook.Proofs.Residues
import Phrasebook.Proofs.Declared
import Phrasebook.Proofs.Metering
import Phrasebook.Proofs.Depth
import Phrasebook.Proofs.Limits
import Phrasebook.Proofs.Attempts
import Phrasebook.Proofs.Requests
import Phrasebook.Proofs.Trails
import Phrasebook.Proofs.Subsets
import Phrasebook.Proofs.Surfaces
import Phrasebook.Proofs.WellFormed
import Phrasebook.Proofs.Registration
import Phrasebook.Proofs.Groupings
import Phrasebook.Proofs.Merging
import Phrasebook.Proofs.Saturation
import Phrasebook.Proofs.Seeds
import Phrasebook.Proofs.Ceilings
