import HexLang.Main
import HexLang.Proofs.Nesting
import HexLang.Proofs.Steps
import HexLang.Proofs.Agreement
import HexLang.Proofs.Grammar
import HexLang.Proofs.Parsing
import HexLang.Proofs.Evaluation
import HexLang.Proofs.Segmentation
import HexLang.Proofs.Cutting
import HexLang.Proofs.Trimming
import HexLang.Proofs.WellFormed
import HexLang.Proofs.Verdict
import HexLang.Proofs.Runs
import HexLang.Proofs.Conversation
import HexLang.Proofs.Rereading
import HexLang.Proofs.Joining
import HexLang.Proofs.Log
import HexLang.Proofs.Isolation
import HexLang.Proofs.Footprint
import HexLang.Proofs.Reordering
import HexLang.Proofs.Blame
import HexLang.Proofs.Placement
import HexLang.Proofs.RightSide
import HexLang.Proofs.Substitution
import HexLang.Proofs.Literals
import HexLang.Proofs.Words
import HexLang.Proofs.TokenShape
import HexLang.Proofs.Spacing
import HexLang.Proofs.Formula
import HexLang.Proofs.SourceOrder
import HexLang.Proofs.Effect
import HexLang.Proofs.Listing
import HexLang.Proofs.Viability
import HexLang.Proofs.Coherence
import HexLang.Proofs.Layout
import HexLang.Proofs.Pointing
import HexLang.Proofs.Locality
import HexLang.Proofs.Tabulation
import HexLang.Proofs.Reporting
