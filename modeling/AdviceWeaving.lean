import AdviceWeaving.Text.Grammar
import AdviceWeaving.Text.Printer
import AdviceWeaving.Json.Encode
import AdviceWeaving.Json.Decode
import AdviceWeaving.Recorder
import AdviceWeaving.Batch
import AdviceWeaving.Provenance
import AdviceWeaving.Main
import AdviceWeaving.Proofs.Steps
import AdviceWeaving.Proofs.Outline
import AdviceWeaving.Proofs.Bodies
import AdviceWeaving.Proofs.Declaring
import AdviceWeaving.Proofs.Profiles
import AdviceWeaving.Proofs.Transitions
import AdviceWeaving.Proofs.Splicing
import AdviceWeaving.Proofs.Insertion
import AdviceWeaving.Proofs.Exits
import AdviceWeaving.Proofs.Stage
import AdviceWeaving.Proofs.Injecting
import AdviceWeaving.Proofs.Admissions
import AdviceWeaving.Proofs.Admitting
import AdviceWeaving.Proofs.Following
import AdviceWeaving.Proofs.Walking
import AdviceWeaving.Proofs.Shape
import AdviceWeaving.Proofs.Flow
import AdviceWeaving.Proofs.Paths
import AdviceWeaving.Proofs.Depths
import AdviceWeaving.Proofs.Balance
import AdviceWeaving.Proofs.Legality
import AdviceWeaving.Proofs.Calls
import AdviceWeaving.Proofs.Machine
import AdviceWeaving.Proofs.Simulation
import AdviceWeaving.Proofs.Verified
import AdviceWeaving.Proofs.Meaning
import AdviceWeaving.Proofs.Operands
import AdviceWeaving.Proofs.Lexing
import AdviceWeaving.Proofs.Naming
import AdviceWeaving.Proofs.Spelling
import AdviceWeaving.Proofs.Rules
import AdviceWeaving.Proofs.Derivations
import AdviceWeaving.Proofs.Derivable
import AdviceWeaving.Proofs.Derived
import AdviceWeaving.Proofs.Parsing
import AdviceWeaving.Proofs.Scanned
import AdviceWeaving.Proofs.Parsed
import AdviceWeaving.Proofs.RoundTrip
import AdviceWeaving.Proofs.Unambiguity
import AdviceWeaving.Proofs.Lookahead
import AdviceWeaving.Proofs.JsonText
import AdviceWeaving.Proofs.JsonRecords
import AdviceWeaving.Proofs.JsonModules
import AdviceWeaving.Proofs.JsonRoundTrip
import AdviceWeaving.Proofs.Inert
import AdviceWeaving.Proofs.Respelling
import AdviceWeaving.Proofs.WovenText
import AdviceWeaving.Proofs.Idempotence
import AdviceWeaving.Proofs.Rereading
import AdviceWeaving.Proofs.Lockstep
import AdviceWeaving.Proofs.Unmarked
import AdviceWeaving.Proofs.Framing
import AdviceWeaving.Proofs.Isolation
import AdviceWeaving.Proofs.Congruence
import AdviceWeaving.Proofs.Selection
import AdviceWeaving.Proofs.Files
import AdviceWeaving.Proofs.Jobs
import AdviceWeaving.Proofs.Skipping
import AdviceWeaving.Proofs.Manifests
import AdviceWeaving.Proofs.Batches
import AdviceWeaving.Proofs.Reruns
import AdviceWeaving.Proofs.Reweaving
import AdviceWeaving.Proofs.Faults
import AdviceWeaving.Proofs.Rosters
import AdviceWeaving.Proofs.Watching
import AdviceWeaving.Proofs.Turns
import AdviceWeaving.Proofs.Showings
import AdviceWeaving.Proofs.HiddenMembers
import AdviceWeaving.Proofs.Growth
import AdviceWeaving.Proofs.Operations
import AdviceWeaving.Proofs.Handles
import AdviceWeaving.Proofs.Caches
import AdviceWeaving.Proofs.Stripping
import AdviceWeaving.Proofs.Definitions
import AdviceWeaving.Proofs.Spans
import AdviceWeaving.Proofs.Resolving
import AdviceWeaving.Proofs.Editing
import AdviceWeaving.Proofs.Removals
import AdviceWeaving.Proofs.Amounts
import AdviceWeaving.Proofs.Accounts
import AdviceWeaving.Proofs.LineBreaks
import AdviceWeaving.Proofs.Tiling
import AdviceWeaving.Proofs.Mnemonics
import AdviceWeaving.Proofs.Itinerary
