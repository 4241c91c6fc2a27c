import StoreBench.FileTree
import StoreBench.Main
import StoreBench.Proofs.Atomicity
import StoreBench.Proofs.ByteStreams
import StoreBench.Proofs.ClientNumbers
import StoreBench.Proofs.CursorReads
import StoreBench.Proofs.DistinctCandidates
import StoreBench.Proofs.Domains
import StoreBench.Proofs.EngineConfigurations
import StoreBench.Proofs.HandleCycles
import StoreBench.Proofs.HtapThreads
import StoreBench.Proofs.LayoutLaws
import StoreBench.Proofs.Linearization
import StoreBench.Proofs.LogLines
import StoreBench.Proofs.MergeRace
import StoreBench.Proofs.Merging
import StoreBench.Proofs.PropertyTexts
import StoreBench.Proofs.RecordNumbers
import StoreBench.Proofs.ReportedRates
import StoreBench.Proofs.Requests
import StoreBench.Proofs.Seeds
import StoreBench.Proofs.Selection
import StoreBench.Proofs.Selectivity
import StoreBench.Proofs.Tokens
import StoreBench.Proofs.Tolerance
import StoreBench.Proofs.TupleFleets
import StoreBench.Proofs.StoreSearches
import StoreBench.Proofs.Unanswered
import StoreBench.Proofs.Refills
