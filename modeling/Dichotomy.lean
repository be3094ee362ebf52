import Dichotomy.Main
import Dichotomy.Check.Returns
import Dichotomy.Proofs.Row
import Dichotomy.Proofs.Rearrangement
import Dichotomy.Proofs.Reduced
import Dichotomy.Proofs.Walk
import Dichotomy.Proofs.CodeReturns
import Dichotomy.Proofs.Arrangement
import Dichotomy.Proofs.FlowchartParts
import Dichotomy.Proofs.FlowchartNumbering
import Dichotomy.Proofs.Optimality
import Dichotomy.Proofs.RenderedScore
import Dichotomy.Proofs.DifferenceFormula
import Dichotomy.Proofs.DifferenceSearch
import Dichotomy.Proofs.SwapCounters
import Dichotomy.Proofs.ExhaustiveSearch
import Dichotomy.Proofs.CanonicalForm
import Dichotomy.Proofs.CodeAnswers
import Dichotomy.Proofs.FlowchartAnswers
import Dichotomy.Proofs.OneSided
import Dichotomy.Proofs.Fillings
import Dichotomy.Proofs.SameCode
import Dichotomy.Proofs.ClosedFunctions
import Dichotomy.Proofs.Verdict
import Dichotomy.Proofs.OrderAction
import Dichotomy.Proofs.Renaming
import Dichotomy.Proofs.BuiltForm
import Dichotomy.Proofs.StoredDiagrams
import Dichotomy.Proofs.Sessions
import Dichotomy.Proofs.Runs
import Dichotomy.Proofs.ExitCode
import Dichotomy.Proofs.StandardOutput
import Dichotomy.Proofs.ReachedReturns
import Dichotomy.Proofs.StoreRuns
import Dichotomy.Proofs.KeptFunctions
import Dichotomy.Proofs.EssentialInputs
import Dichotomy.Proofs.ResolvedTables
import Dichotomy.Proofs.NormalForm
import Dichotomy.Proofs.ReadLiterals
import Dichotomy.Proofs.ReorderedFlowcharts
import Dichotomy.Proofs.FreeHalves
import Dichotomy.Proofs.ScoreBounds
import Dichotomy.Proofs.RenderedOnce
import Dichotomy.Proofs.LineRows
import Dichotomy.Proofs.WrittenTables
import Dichotomy.Proofs.BuildRequests
import Dichotomy.Proofs.RowNumbers
import Dichotomy.Proofs.Nesting
import Dichotomy.Proofs.MergeChains
import Dichotomy.Proofs.LeafPaths
import Dichotomy.Proofs.TableSize
