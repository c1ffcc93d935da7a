import PropLogic.Formula.Parts
import PropLogic.NormalForm
import PropLogic.Proofs.CanonicalForm
import PropLogic.Proofs.CountExpansion
import PropLogic.Proofs.EquivalentImages
import PropLogic.Proofs.ErrorPosition
import PropLogic.Proofs.EvaluationFaults
import PropLogic.Proofs.ExhaustionLimits
import PropLogic.Proofs.FixedPoints
import PropLogic.Proofs.FormulaParts
import PropLogic.Proofs.InterleavedCalls
import PropLogic.Proofs.LongestPrefix
import PropLogic.Proofs.MachineWords
import PropLogic.Proofs.ModelClauses
import PropLogic.Proofs.ModelCount
import PropLogic.Proofs.NormalForms
import PropLogic.Proofs.PendingFormulas
import PropLogic.Proofs.PolishNotation
import PropLogic.Proofs.ReadingAhead
import PropLogic.Proofs.ReducedFormulas
import PropLogic.Proofs.ReducedInstances
import PropLogic.Proofs.Reduction
import PropLogic.Proofs.Renaming
import PropLogic.Proofs.Report
import PropLogic.Proofs.Requests
import PropLogic.Proofs.RuleInstances
import PropLogic.Proofs.ShortCuts
import PropLogic.Proofs.StandardNotation
import PropLogic.Proofs.StructuralRules
import PropLogic.Proofs.SubstitutedSets
import PropLogic.Proofs.TableLayout
import PropLogic.Proofs.TableLines
import PropLogic.Proofs.TextOrder
import PropLogic.Proofs.TextPrefixes
import PropLogic.Proofs.UniqueDecoding
import PropLogic.Rule
