import BuildGraph.Main
import BuildGraph.Proofs.Buildable
import BuildGraph.Proofs.BuildFile
import BuildGraph.Proofs.Collection
import BuildGraph.Proofs.Commands
import BuildGraph.Proofs.FileOrder
import BuildGraph.Proofs.Locality
import BuildGraph.Proofs.Overrides
import BuildGraph.Proofs.Composition
import BuildGraph.Proofs.Cycles
import BuildGraph.Proofs.Listing
import BuildGraph.Proofs.OutputPaths
import BuildGraph.Proofs.Waiting
import BuildGraph.Proofs.Contributions
import BuildGraph.Proofs.TemplateErrors
import BuildGraph.Proofs.Escapes
import BuildGraph.Proofs.LabelText
import BuildGraph.Proofs.BuildLine
import BuildGraph.Proofs.RuleText
import BuildGraph.Proofs.Repetitions
import BuildGraph.Proofs.Appending
import BuildGraph.Proofs.Application
import BuildGraph.Proofs.Resolution
import BuildGraph.Proofs.Reassembly
import BuildGraph.Proofs.References
import BuildGraph.Proofs.Coexistence
import BuildGraph.Proofs.NormalForm
import BuildGraph.Proofs.RoundTrips
