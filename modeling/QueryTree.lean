import QueryTree.Document
import QueryTree.Json.Printer
import QueryTree.Proofs.CteModularity
import QueryTree.Proofs.DanglingPicks
import QueryTree.Proofs.IndependentEdits
import QueryTree.Proofs.Session
import QueryTree.Proofs.SqlComposition
import QueryTree.Wire.Catalog
import QueryTree.Wire.Schema
import QueryTree.Proofs.PathScopes
import QueryTree.Proofs.SqlEdits
import QueryTree.Proofs.CteOrder
import QueryTree.Proofs.Renaming
import QueryTree.Proofs.Growth
import QueryTree.Proofs.Likeness
import QueryTree.Proofs.Picking
import QueryTree.Proofs.WireForms
import QueryTree.Proofs.JsonText
import QueryTree.Proofs.Generations
import QueryTree.Proofs.Grammar
import QueryTree.Proofs.HiddenPayloads
import QueryTree.Proofs.BuilderRuns
import QueryTree.Proofs.PathSearch
import QueryTree.Proofs.ViolationCounts
import QueryTree.Proofs.Positions
import QueryTree.Proofs.SqlSkeleton
import QueryTree.Proofs.PayloadEdits
import QueryTree.Proofs.OppositeEdits
import QueryTree.Proofs.SqlUnnamedColumns
import QueryTree.Proofs.MissingSources
import QueryTree.Proofs.DispatchLog
