import LexProduct.Command.Arguments
import LexProduct.Command.Options
import LexProduct.Command.Run
import LexProduct.Counter
import LexProduct.Dimension
import LexProduct.EmptyPolicy
import LexProduct.Fault
import LexProduct.Grid
import LexProduct.Lexicographic
import LexProduct.Main
import LexProduct.MixedRadix.Bounded
import LexProduct.MixedRadix.Exact
import LexProduct.OpenPass
import LexProduct.Pass
import LexProduct.Pass.Drawing
import LexProduct.ProductError
import LexProduct.Text.Blank
import LexProduct.Text.Numeral
import LexProduct.Text.Values
import LexProduct.Word
import LexProduct.Proofs.MixedRadix.Forward
import LexProduct.Proofs.MixedRadix.Count
import LexProduct.Proofs.MixedRadix.InPlace
import LexProduct.Proofs.MixedRadix.Ranks
import LexProduct.Proofs.Counter
import LexProduct.Proofs.Tuples
import LexProduct.Proofs.Pass.Rank
import LexProduct.Proofs.Pass.Rest
import LexProduct.Proofs.Pass.Drawing
import LexProduct.Proofs.Call
import LexProduct.Proofs.Enumeration
import LexProduct.Proofs.Session
import LexProduct.Proofs.Exhaustion
import LexProduct.Proofs.Representation
import LexProduct.Proofs.Text.Values
import LexProduct.Proofs.Command
import LexProduct.Proofs.Registration
import LexProduct.Proofs.RandomAccess
import LexProduct.Proofs.Indices
import LexProduct.Proofs.MixedRadix.Order
import LexProduct.Proofs.Cardinality
import LexProduct.Proofs.Refusals
import LexProduct.Proofs.Strides
import LexProduct.Proofs.MixedRadix.Stray
