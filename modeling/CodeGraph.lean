import CodeGraph.Analysis
import CodeGraph.Config.Layer
import CodeGraph.Config.Toml
import CodeGraph.Graph.Json
import CodeGraph.Proofs.Callers
import CodeGraph.Proofs.Comment.Analysis
import CodeGraph.Proofs.Constructor
import CodeGraph.Proofs.Model.Accounting
import CodeGraph.Proofs.Model.Exclusion
import CodeGraph.Proofs.Model.Root
import CodeGraph.Proofs.Namesakes
import CodeGraph.Proofs.Resolve.Budget
import CodeGraph.Proofs.Resolve.DefaultExport
import CodeGraph.Proofs.Resolve.Links
import CodeGraph.Proofs.Resolve.Receiver
import CodeGraph.Proofs.Resolve.Termination
import CodeGraph.Proofs.Restriction
import CodeGraph.Proofs.Shadowing
import CodeGraph.Tree.Listing
import CodeGraph.Proofs.Path.Join
import CodeGraph.Proofs.Resolve.Inheritance
import CodeGraph.Proofs.Model.Specifier
import CodeGraph.Proofs.Model.SyntaxErrors
import CodeGraph.Proofs.Diagnostics
import CodeGraph.Proofs.Layers
import CodeGraph.Proofs.Positions
import CodeGraph.Proofs.Json.Graph
import CodeGraph.Proofs.Path.Spelling
import CodeGraph.Proofs.CallSites
import CodeGraph.Proofs.Patterns
