import StyleFunctions.Arguments
import StyleFunctions.Builtin
import StyleFunctions.Color.Adjustment
import StyleFunctions.Document.Codec
import StyleFunctions.Document.Help
import StyleFunctions.Library.Standard
import StyleFunctions.Proofs.Color.Channel
import StyleFunctions.Proofs.Color.Decoding
import StyleFunctions.Proofs.Color.Encoding
import StyleFunctions.Proofs.Color.Mix
import StyleFunctions.Proofs.Color.Written
import StyleFunctions.Proofs.Dimension.RoundTrip
import StyleFunctions.Proofs.Document.RoundTrip
import StyleFunctions.Proofs.Extreme.LikeUnits
import StyleFunctions.Proofs.Extreme.Position
import StyleFunctions.Proofs.Extreme.Reduction
import StyleFunctions.Proofs.Library.Adjustments
import StyleFunctions.Proofs.Library.Brightness
import StyleFunctions.Proofs.Library.Gamut
import StyleFunctions.Proofs.Library.Kinds
import StyleFunctions.Proofs.Library.Lists
import StyleFunctions.Proofs.Library.Published
import StyleFunctions.Proofs.Library.Rounding
import StyleFunctions.Proofs.Library.Sentinels
import StyleFunctions.Proofs.Library.Texts
import StyleFunctions.Proofs.ListItems.Again
import StyleFunctions.Proofs.ListItems.Joined
import StyleFunctions.Proofs.ListItems.Layout
import StyleFunctions.Proofs.ListItems.Mode
import StyleFunctions.Proofs.Quantity.Conversion
import StyleFunctions.Proofs.Quantity.Places
import StyleFunctions.Proofs.Quantity.Radians
import StyleFunctions.Proofs.Registry.Run
import StyleFunctions.Proofs.Registry.Similarity
import StyleFunctions.Proofs.Registry.Suggestions
import StyleFunctions.Scalar.Double
