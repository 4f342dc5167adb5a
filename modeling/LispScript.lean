import LispScript.Main
import LispScript.Proofs.Fragments
import LispScript.Proofs.Indentation
import LispScript.Proofs.Recursion
import LispScript.Proofs.Brackets
import LispScript.Proofs.Comments
import LispScript.Proofs.Gaps
import LispScript.Proofs.Lookahead
import LispScript.Proofs.Consumption
import LispScript.Proofs.Relevance
import LispScript.Proofs.Origins
import LispScript.Proofs.FunctionShapes
import LispScript.Proofs.Partition
import LispScript.Proofs.Paths
import LispScript.Proofs.Trees
import LispScript.Proofs.Watching
import LispScript.Proofs.Batches
import LispScript.Proofs.Outputs
import LispScript.Proofs.Artifacts
import LispScript.Proofs.WellMade
import LispScript.Proofs.Locations
import LispScript.Proofs.Diagnosis
import LispScript.Proofs.Identifiers
import LispScript.Proofs.Expressions
import LispScript.Proofs.Traversal
import LispScript.Proofs.Settling
import LispScript.Proofs.Skipping
import LispScript.Proofs.Handlers
import LispScript.Proofs.Tables
