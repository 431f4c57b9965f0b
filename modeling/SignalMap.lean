import SignalMap.FileTree
import SignalMap.Main
import SignalMap.Proofs.Resolution.Derivation
import SignalMap.Proofs.Resolution.Computation
import SignalMap.Proofs.Resolution.Meaning
import SignalMap.Proofs.Resolution.Diagnosis
import SignalMap.Proofs.Catalog.Mappings
import SignalMap.Proofs.Catalog.Loads
import SignalMap.Proofs.Session.Runs
import SignalMap.Proofs.Catalog.Freshness
import SignalMap.Proofs.Session.Provenance
import SignalMap.Proofs.Session.Transparency
import SignalMap.Proofs.Session.CurrentVersion
import SignalMap.Proofs.Expr.Completeness
import SignalMap.Proofs.Expr.Printing
import SignalMap.Proofs.Lookup.Keys
import SignalMap.Proofs.Lookup.Requests
import SignalMap.Proofs.Session.Rejection
import SignalMap.Proofs.Expr.Pointwise
import SignalMap.Proofs.Catalog.Retention
import SignalMap.Proofs.Session.Containment
import SignalMap.Proofs.Resolution.Safety
import SignalMap.Proofs.Resolution.Purity
import SignalMap.Proofs.Lookup.WrittenPaths
import SignalMap.Proofs.Loading.Spreading
import SignalMap.Proofs.Lookup.Rebinding
import SignalMap.Proofs.Selection.Slices
import SignalMap.Proofs.Resolution.Finiteness
import SignalMap.Proofs.Template.Splicing
import SignalMap.Proofs.Globals.Addresses
import SignalMap.Proofs.Value.Casting
import SignalMap.Proofs.Value.Arrays
import SignalMap.Proofs.Resolution.Wrapping
import SignalMap.Proofs.Lookup.Binding
import SignalMap.Proofs.Lookup.Parts
import SignalMap.Proofs.Catalog.Readiness
import SignalMap.Proofs.Session.Classification
import SignalMap.Proofs.Lookup.ListedKeys
import SignalMap.Proofs.Declaration.Parameters
import SignalMap.Proofs.Lookup.References
import SignalMap.Proofs.Template.Scopes
import SignalMap.Proofs.Template.Structure
import SignalMap.Proofs.Resolution.Shadowing
import SignalMap.Proofs.Expr.Blanks
import SignalMap.Proofs.HomeDirectory
import SignalMap.Proofs.Expr.FreeNames
import SignalMap.Proofs.Template.Failures
import SignalMap.Proofs.Resolution.Stack
import SignalMap.Proofs.Catalog.Coherence
import SignalMap.Proofs.Selection.Texts
import SignalMap.Proofs.Lookup.Noise
