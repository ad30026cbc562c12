import AccessRules.Address.Basic
import AccessRules.Address.Network
import AccessRules.Address.Read
import AccessRules.Address.Render
import AccessRules.Calendar.Date
import AccessRules.Condition.Basic
import AccessRules.Condition.Render
import AccessRules.Engine.Basic
import AccessRules.Engine.Operation
import AccessRules.Markup.Document
import AccessRules.Markup.Element
import AccessRules.Markup.Fault
import AccessRules.Markup.Reference
import AccessRules.Markup.Render
import AccessRules.Markup.Tag
import AccessRules.Markup.Token
import AccessRules.Proofs.Engine.Freshness
import AccessRules.Proofs.Markup.WrittenForm
import AccessRules.Proofs.Rule.Balance
import AccessRules.Proofs.Text.Search
import AccessRules.Rule.Bracket
import AccessRules.Rule.ClauseStore
import AccessRules.Rule.Fault
import AccessRules.Rule.Junction
import AccessRules.Rule.Limits
import AccessRules.Rule.Marker
import AccessRules.Rule.Reader
import AccessRules.Rule.Shape
import AccessRules.Settings.Basic
import AccessRules.Settings.Datum
import AccessRules.Settings.File
import AccessRules.Settings.Json
import AccessRules.Settings.Yaml.Document
import AccessRules.Settings.Yaml.Node
import AccessRules.Settings.Yaml.Place
import AccessRules.Settings.Yaml.Scalar
import AccessRules.Settings.Yaml.Tag
import AccessRules.Settings.Yaml.Token
import AccessRules.Subject.Basic
import AccessRules.Subject.Read
import AccessRules.Subject.Render
import AccessRules.Text.Basic
import AccessRules.Text.Blank
import AccessRules.Text.CodePoints
import AccessRules.Text.DecimalDigit
import AccessRules.Text.Invisible
import AccessRules.Text.Quoted
import AccessRules.Text.WordCharacter
import AccessRules.Proofs.Rule.Abridgement
import AccessRules.Proofs.Rule.KeywordBoundary
import AccessRules.Proofs.Rule.StrayBracket
import AccessRules.Proofs.Rule.Extraction
import AccessRules.Proofs.Rule.AcceptedBrackets
import AccessRules.Proofs.Rule.OperandSplit
import AccessRules.Proofs.Rule.Growth
import AccessRules.Proofs.Rule.Storage
import AccessRules.Proofs.Grammar.Expression
import AccessRules.Proofs.Grammar.Rendering
import AccessRules.Proofs.Grammar.Remains
import AccessRules.Proofs.Grammar.Shape
import AccessRules.Proofs.Grammar.Levels
import AccessRules.Proofs.Grammar.Excess
import AccessRules.Proofs.Grammar.Completeness
import AccessRules.Proofs.Rule.Twins
import AccessRules.Proofs.Rule.Division
import AccessRules.Proofs.Rule.Reading
import AccessRules.Proofs.Rule.Recovery
import AccessRules.Proofs.Grammar.Derivation
import AccessRules.Proofs.Grammar.OperandWords
import AccessRules.Proofs.Grammar.Replay
import AccessRules.Proofs.Grammar.Composition
import AccessRules.Proofs.Grammar.Soundness
import AccessRules.Proofs.Text.Number
import AccessRules.Proofs.Address.RoundTrip
import AccessRules.Proofs.Calendar.RoundTrip
import AccessRules.Proofs.Condition.ElementForm
import AccessRules.Proofs.Subject.ElementForm
import AccessRules.Proofs.Condition.ExactDepth
import AccessRules.Proofs.Rule.Agreement
import AccessRules.Proofs.Rule.WiderLimits
import AccessRules.Proofs.Rule.StoredText
import AccessRules.Proofs.Rule.LeafTokens
import AccessRules.Proofs.Rule.SingleTokens
import AccessRules.Proofs.Subject.QuotedName
import AccessRules.Proofs.Markup.Progress
import AccessRules.Proofs.Markup.ReadBack
import AccessRules.Proofs.Markup.Spelling
import AccessRules.Proofs.Markup.RoundTrip
import AccessRules.Proofs.Markup.Layout
import AccessRules.Proofs.Markup.Stability
import AccessRules.Proofs.Grammar.Display
import AccessRules.Proofs.Grammar.DisplayedRules
import AccessRules.Proofs.Markup.ReadAgain
import AccessRules.Proofs.Engine.Accounting
import AccessRules.Proofs.Subject.TextForm
import AccessRules.Proofs.Rule.InnerKeywords
import AccessRules.Proofs.Condition.DepthLimit
import AccessRules.Proofs.Address.Membership
import AccessRules.Proofs.Grammar.PlainTokens
import AccessRules.Proofs.Subject.OwnAddress
import AccessRules.Proofs.Subject.WrittenLeaves
import AccessRules.Proofs.Rule.IntactClauses
import AccessRules.Proofs.Rule.LosslessExtraction
import AccessRules.Proofs.Rule.Refusals
import AccessRules.Proofs.Grammar.Quotations
import AccessRules.Proofs.Address.LeadingBits
import AccessRules.Proofs.Address.Netmask
import AccessRules.Proofs.Rule.RespacedShapes
import AccessRules.Proofs.Rule.RespacedStores
import AccessRules.Proofs.Grammar.RespacedRules
import AccessRules.Proofs.Grammar.SpacedNegations
import AccessRules.Proofs.Rule.Passes
import AccessRules.Proofs.Rule.ReachedStores
import AccessRules.Proofs.Rule.Pairing
import AccessRules.Proofs.Rule.UnmatchedBrackets
