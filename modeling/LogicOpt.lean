import LogicOpt.Network.Generation
import LogicOpt.Network.Semantics
import LogicOpt.Network.Signature
import LogicOpt.Network.Text
import LogicOpt.Params.Text
import LogicOpt.Pass
import LogicOpt.Proofs.AcceptedCandidates
import LogicOpt.Proofs.Bookkeeping
import LogicOpt.Proofs.Candidates
import LogicOpt.Proofs.Changes
import LogicOpt.Proofs.CompleteForms
import LogicOpt.Proofs.ConeRemoval
import LogicOpt.Proofs.ConeRuns
import LogicOpt.Proofs.Cones
import LogicOpt.Proofs.Costs
import LogicOpt.Proofs.Cuts
import LogicOpt.Proofs.DanglingGates
import LogicOpt.Proofs.DecidedVerdicts
import LogicOpt.Proofs.DivisorBudget
import LogicOpt.Proofs.DivisorPools
import LogicOpt.Proofs.Divisors
import LogicOpt.Proofs.Draining
import LogicOpt.Proofs.Encodings
import LogicOpt.Proofs.Encounters
import LogicOpt.Proofs.EquivalentSignals
import LogicOpt.Proofs.EventStream
import LogicOpt.Proofs.ExactDontCares
import LogicOpt.Proofs.Firings
import LogicOpt.Proofs.Formulas
import LogicOpt.Proofs.GateCreation
import LogicOpt.Proofs.GateKinds
import LogicOpt.Proofs.GeneratedNetworks
import LogicOpt.Proofs.GreatestCones
import LogicOpt.Proofs.GreedyCuts
import LogicOpt.Proofs.Histories
import LogicOpt.Proofs.InsertedValues
import LogicOpt.Proofs.Insertion
import LogicOpt.Proofs.LiveValuations
import LogicOpt.Proofs.MajoritySearch
import LogicOpt.Proofs.MarkHistories
import LogicOpt.Proofs.NormalForms
import LogicOpt.Proofs.OptionTexts
import LogicOpt.Proofs.PassEquivalence
import LogicOpt.Proofs.PassFunction
import LogicOpt.Proofs.PassRuns
import LogicOpt.Proofs.PassSize
import LogicOpt.Proofs.Placement
import LogicOpt.Proofs.Postorders
import LogicOpt.Proofs.Ranking
import LogicOpt.Proofs.Redirection
import LogicOpt.Proofs.Relevelling
import LogicOpt.Proofs.Replacement
import LogicOpt.Proofs.ReportOnly
import LogicOpt.Proofs.Revival
import LogicOpt.Proofs.Roots
import LogicOpt.Proofs.Runs
import LogicOpt.Proofs.SafeDivisors
import LogicOpt.Proofs.Scheduling
import LogicOpt.Proofs.SearchFamilies
import LogicOpt.Proofs.Searches
import LogicOpt.Proofs.Sessions
import LogicOpt.Proofs.Settling
import LogicOpt.Proofs.Sharing
import LogicOpt.Proofs.Shrinking
import LogicOpt.Proofs.Simulations
import LogicOpt.Proofs.Simulators
import LogicOpt.Proofs.Substitution
import LogicOpt.Proofs.Survivors
import LogicOpt.Proofs.TableAlgebra
import LogicOpt.Proofs.TableTexts
import LogicOpt.Proofs.Tables
import LogicOpt.Proofs.Traversal
import LogicOpt.Proofs.Trimming
import LogicOpt.Proofs.Uniqueness
import LogicOpt.Proofs.Upkeep
import LogicOpt.Proofs.ValidCuts
import LogicOpt.Proofs.Validation
import LogicOpt.Proofs.Valuations
import LogicOpt.Proofs.Verdicts
import LogicOpt.Proofs.WindowLimits
import LogicOpt.Proofs.Turns
import LogicOpt.Proofs.WindowRuns
import LogicOpt.Proofs.WindowTables
import LogicOpt.Proofs.WordTables
import LogicOpt.TruthTable.Text
