import Formulary.Main
import Formulary.Proofs.CallArguments
import Formulary.Proofs.LowerCase
import Formulary.Proofs.Marking
import Formulary.Proofs.Meaning
import Formulary.Proofs.SingleValue
import Formulary.Proofs.Locality
import Formulary.Proofs.LookUps
import Formulary.Proofs.Scanning
import Formulary.Proofs.BracedNames
import Formulary.Proofs.Layout
import Formulary.Proofs.SignedOperands
import Formulary.Proofs.Search
import Formulary.Proofs.TreeTokens
import Formulary.Proofs.Attribution
import Formulary.Proofs.Columns
import Formulary.Proofs.FaultOrder
import Formulary.Proofs.Printing
import Formulary.Proofs.Respelling
import Formulary.Proofs.TrailingZeros
import Formulary.Proofs.RoundedDecimals
import Formulary.Proofs.Halves
import Formulary.Proofs.ExactPlaces
import Formulary.Proofs.RadixLiterals
import Formulary.Proofs.ZeroResults
import Formulary.Proofs.Nesting
import Formulary.Proofs.Comparisons
import Formulary.Proofs.Extremes
import Formulary.Proofs.ChainedOperands
import Formulary.Proofs.LeftOperands
