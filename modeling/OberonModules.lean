import OberonModules.Console
import OberonModules.Diagnostic.Excerpt
import OberonModules.ImportAnalysis.Exercise
import OberonModules.Product
import OberonModules.Proofs.Acceptance
import OberonModules.Proofs.Acyclicity
import OberonModules.Proofs.Aliases
import OberonModules.Proofs.AnalysisTrace
import OberonModules.Proofs.ArenaLayout
import OberonModules.Proofs.BackwardScan
import OberonModules.Proofs.Calls
import OberonModules.Proofs.Carets
import OberonModules.Proofs.Chains
import OberonModules.Proofs.CollectedReports
import OberonModules.Proofs.CutCharacters
import OberonModules.Proofs.DeclaredModules
import OberonModules.Proofs.ExercisedTable
import OberonModules.Proofs.HandleOrder
import OberonModules.Proofs.Handles
import OberonModules.Proofs.Interleavings
import OberonModules.Proofs.Interruptions
import OberonModules.Proofs.LimitedOutput
import OberonModules.Proofs.LocatedOffsets
import OberonModules.Proofs.Placeholders
import OberonModules.Proofs.Places
import OberonModules.Proofs.ReadingOrder
import OberonModules.Proofs.ReceivingOnly
import OberonModules.Proofs.Reordering
import OberonModules.Proofs.SafeSlices
import OberonModules.Proofs.ScopeTrace
import OberonModules.Proofs.SwitchedOff
import OberonModules.Proofs.TargetUnits
import OberonModules.Proofs.UnitBoundaries
import OberonModules.ScopeTable.Exercise
