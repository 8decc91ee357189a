import Tagged.Session.Run
import Tagged.Proofs.Binary64.Rounding
import Tagged.Proofs.Console.Lines
import Tagged.Proofs.Decimal.GeneralText
import Tagged.Proofs.Decimal.Significant
import Tagged.Proofs.Digits
import Tagged.Proofs.FloatText
import Tagged.Proofs.IntegerText
import Tagged.Proofs.Literal.Scan
import Tagged.Proofs.Session.Faults
import Tagged.Proofs.Session.Frame
import Tagged.Proofs.Session.Input
import Tagged.Proofs.Session.Trace
import Tagged.Proofs.Session.Unnoticed
import Tagged.Proofs.Literal.Grammar
import Tagged.Proofs.Literal.LongestMatch
import Tagged.Proofs.IntegerFloat
import Tagged.Proofs.Session.NulFree
import Tagged.Proofs.Console.Written
import Tagged.Proofs.Session.Output
import Tagged.Proofs.Session.Quiet
import Tagged.Proofs.Stores
import Tagged.Proofs.Session.Released
import Tagged.Proofs.Files.Write
import Tagged.Proofs.Session.Files
import Tagged.Proofs.Session.Events
import Tagged.Proofs.Session.Registry
import Tagged.Proofs.Console.OnePass
import Tagged.Proofs.Decimal.Nearest
import Tagged.Proofs.Decimal.Places
import Tagged.Proofs.FloatLayout
import Tagged.Proofs.Literal.PrefixLength
import Tagged.Proofs.Binary64.Kinds
import Tagged.Proofs.Literal.NotANumber
import Tagged.Proofs.Binary64.Nearest
import Tagged.Proofs.Binary64.Neighbours
import Tagged.Proofs.Literal.Scaling
import Tagged.Proofs.Literal.HexDigits
import Tagged.Proofs.Literal.Faithful
import Tagged.Proofs.Binary64.Truncated
import Tagged.Proofs.Literal.Spellings
import Tagged.Proofs.Console.WriteAll
import Tagged.Proofs.Literal.IntegerGrammar
import Tagged.Proofs.Utf8
import Tagged.Proofs.CaseMapping
import Tagged.Proofs.Binary64.ExactValue
import Tagged.Proofs.Conversions
import Tagged.Proofs.Extremes
import Tagged.Proofs.Session.Concatenation
import Tagged.Proofs.Console.Truncation
import Tagged.Proofs.Literal.DigitLoop
