import Workbench.Asset.Table
import Workbench.Main
import Workbench.Proofs.BroughtOnce
import Workbench.Proofs.Epochs
import Workbench.Proofs.Errands
import Workbench.Proofs.FormatCommand
import Workbench.Proofs.FreshBuild
import Workbench.Proofs.Refusal
import Workbench.Proofs.ServedStore
import Workbench.Proofs.StaleOutputs
import Workbench.Proofs.Tape
import Workbench.Session.Script
import Workbench.Proofs.JsonText
import Workbench.Proofs.StagedWrites
import Workbench.Proofs.FolderStore
import Workbench.Proofs.FailedFetch
import Workbench.Proofs.Courses
import Workbench.Proofs.Lifetimes
import Workbench.Proofs.Bookkeeping
import Workbench.Proofs.Accounting
import Workbench.Proofs.WorkDirScan
import Workbench.Proofs.KeptStore
import Workbench.Proofs.Closure
import Workbench.Proofs.StaleDescriptors
import Workbench.Proofs.Leftovers
import Workbench.Proofs.FreshRuns
import Workbench.Proofs.WorkingDirectory
import Workbench.Proofs.FileSizes
import Workbench.Proofs.ScratchRoundTrip
import Workbench.Proofs.ManifestAppends
import Workbench.Proofs.WrittenImports
import Workbench.Proofs.ImportSections
import Workbench.Proofs.LinkBindings
import Workbench.Proofs.DiagnosticLines
import Workbench.Proofs.KeyOrigins
import Workbench.Proofs.ArchiveFiles
import Workbench.Proofs.PathArithmetic
import Workbench.Proofs.SubtreeMoves
import Workbench.Proofs.MissingDirectories
import Workbench.Proofs.TruthfulErrors
import Workbench.Proofs.WholeFiles
import Workbench.Proofs.RefusedDescriptors
import Workbench.Proofs.OutputAccounts
import Workbench.Proofs.FormattedSource
import Workbench.Proofs.SettledGate
import Workbench.Proofs.PathStructure
import Workbench.Proofs.RewrittenImports
import Workbench.Proofs.CoveredPackages
