import CodeGraph.Host.World
import CodeGraph.Main
import CodeGraph.Proofs.Analysis.Isolation
import CodeGraph.Proofs.Graph.History
import CodeGraph.Proofs.Outline.Occurrence
import CodeGraph.Proofs.Syntax.Comment
import CodeGraph.Proofs.Outline.Comment
import CodeGraph.Proofs.Analysis.NoScript
import CodeGraph.Proofs.Cache.Entry
import CodeGraph.Proofs.Cache.History
import CodeGraph.Proofs.Command.Agreement
import CodeGraph.Proofs.Command.Kept
import CodeGraph.Proofs.Analysis.Import
import CodeGraph.Proofs.Analysis.Degradation
import CodeGraph.Proofs.Analysis.Schedule
import CodeGraph.Proofs.Command.Robust
import CodeGraph.Proofs.Syntax.Scope
import CodeGraph.Proofs.Analysis.Scope
import CodeGraph.Proofs.Repository.Exchange
import CodeGraph.Proofs.Repository.Ingestion
import CodeGraph.Proofs.Analysis.Resolution
import CodeGraph.Proofs.Tree.Rebuilt
import CodeGraph.Proofs.Tree.Flat
import CodeGraph.Proofs.Scan.Agreement
import CodeGraph.Proofs.Repository.Folder
import CodeGraph.Proofs.Repository.Locator
import CodeGraph.Proofs.Analysis.Order
import CodeGraph.Proofs.Command.Trace
import CodeGraph.Proofs.Path.Canonical
import CodeGraph.Proofs.Graph.Scoring
import CodeGraph.Proofs.Repository.Traversal
