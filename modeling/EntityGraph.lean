import EntityGraph.Main
import EntityGraph.Proofs.Acceptance
import EntityGraph.Proofs.Agreement
import EntityGraph.Proofs.Composition
import EntityGraph.Proofs.Consistency
import EntityGraph.Proofs.Determination
import EntityGraph.Proofs.Escape
import EntityGraph.Proofs.Interleaving
import EntityGraph.Proofs.Malformed
import EntityGraph.Proofs.ReadBack.Compilation
import EntityGraph.Proofs.ReadBack.Days
import EntityGraph.Proofs.ReadBack.JsonDocument
import EntityGraph.Proofs.ReadBack.JsonView
import EntityGraph.Proofs.ReadBack.Normalization
import EntityGraph.Proofs.ReadBack.Yaml.Documents
import EntityGraph.Proofs.Rebuilding
import EntityGraph.Proofs.Reciprocity
import EntityGraph.Proofs.Redeclaration
import EntityGraph.Proofs.Resolution
import EntityGraph.Proofs.Retention
