import TextGrammar.Advice
import TextGrammar.Command.Arguments
import TextGrammar.Command.Outcome
import TextGrammar.Command.Path
import TextGrammar.Command.Request
import TextGrammar.Data
import TextGrammar.Data.Operations
import TextGrammar.Data.Raised
import TextGrammar.Data.Slots
import TextGrammar.Datum
import TextGrammar.Drawing
import TextGrammar.English
import TextGrammar.English.Agreement
import TextGrammar.English.Article
import TextGrammar.English.BaseForms
import TextGrammar.English.Ordinal
import TextGrammar.English.Plural
import TextGrammar.English.Possessive
import TextGrammar.English.Punctuation
import TextGrammar.Expansion
import TextGrammar.Failure
import TextGrammar.Generator
import TextGrammar.Generator.Parsing
import TextGrammar.Generator.Questions
import TextGrammar.Generator.Report
import TextGrammar.Generator.Running
import TextGrammar.GrammarFile
import TextGrammar.Json
import TextGrammar.Json.Writing
import TextGrammar.Main
import TextGrammar.Modifier
import TextGrammar.Number.Amount
import TextGrammar.Number.Double
import TextGrammar.Number.Limit
import TextGrammar.Number.Log
import TextGrammar.Number.Numeral
import TextGrammar.Number.Reading
import TextGrammar.Number.Rounding
import TextGrammar.Number.Shortest
import TextGrammar.Outcomes.Complexity
import TextGrammar.Outcomes.Distribution
import TextGrammar.Outcomes.Merge
import TextGrammar.Proofs.Advice.Suggestions
import TextGrammar.Proofs.Advice.Topics
import TextGrammar.Proofs.Command.Failures
import TextGrammar.Proofs.English.Agreement
import TextGrammar.Proofs.English.Articles
import TextGrammar.Proofs.English.Capitals
import TextGrammar.Proofs.English.Counting
import TextGrammar.Proofs.English.Forms
import TextGrammar.Proofs.English.Guards
import TextGrammar.Proofs.English.Ordinals
import TextGrammar.Proofs.English.Passes
import TextGrammar.Proofs.English.Plurals
import TextGrammar.Proofs.English.Possessives
import TextGrammar.Proofs.Expansion.Chain
import TextGrammar.Proofs.Expansion.Choices
import TextGrammar.Proofs.Expansion.Depth
import TextGrammar.Proofs.Expansion.Ensured
import TextGrammar.Proofs.Expansion.Nesting
import TextGrammar.Proofs.Expansion.Plan
import TextGrammar.Proofs.Expansion.Reading
import TextGrammar.Proofs.Expansion.Record
import TextGrammar.Proofs.Expansion.Substitution
import TextGrammar.Proofs.Generator.Accounts
import TextGrammar.Proofs.Generator.Attempts
import TextGrammar.Proofs.Generator.Calls
import TextGrammar.Proofs.Generator.Clone
import TextGrammar.Proofs.Generator.Contexts
import TextGrammar.Proofs.Generator.Endless
import TextGrammar.Proofs.Generator.Frame
import TextGrammar.Proofs.Generator.Limits
import TextGrammar.Proofs.Generator.Modifiers
import TextGrammar.Proofs.Generator.Nesting
import TextGrammar.Proofs.Generator.Registration
import TextGrammar.Proofs.Generator.Replays
import TextGrammar.Proofs.Generator.Requests
import TextGrammar.Proofs.Generator.Retries
import TextGrammar.Proofs.Generator.Seed
import TextGrammar.Proofs.Generator.Sequences
import TextGrammar.Proofs.Generator.Validated
import TextGrammar.Proofs.Generator.Variations
import TextGrammar.Proofs.Number.Amount
import TextGrammar.Proofs.Number.Exact
import TextGrammar.Proofs.Number.Magnitude
import TextGrammar.Proofs.Number.Order
import TextGrammar.Proofs.Number.Share
import TextGrammar.Proofs.Number.Totals
import TextGrammar.Proofs.Number.Whole
import TextGrammar.Proofs.Number.Written
import TextGrammar.Proofs.Outcomes.Agreement
import TextGrammar.Proofs.Outcomes.Bound
import TextGrammar.Proofs.Outcomes.Capped
import TextGrammar.Proofs.Outcomes.Chance
import TextGrammar.Proofs.Outcomes.Counts
import TextGrammar.Proofs.Outcomes.Ending
import TextGrammar.Proofs.Outcomes.Listing
import TextGrammar.Proofs.Outcomes.Mass
import TextGrammar.Proofs.Outcomes.Nesting
import TextGrammar.Proofs.Outcomes.Product
import TextGrammar.Proofs.Outcomes.Tally
import TextGrammar.Proofs.Outcomes.Template
import TextGrammar.Proofs.Outcomes.Uncut
import TextGrammar.Proofs.Outcomes.Walk
import TextGrammar.Proofs.Outcomes.Warnings
import TextGrammar.Proofs.Random
import TextGrammar.Proofs.Random.Fairness
import TextGrammar.Proofs.Random.Period
import TextGrammar.Proofs.Reference
import TextGrammar.Proofs.Result
import TextGrammar.Proofs.Rule.Accepted
import TextGrammar.Proofs.Rule.Branches
import TextGrammar.Proofs.Rule.Filling
import TextGrammar.Proofs.Rule.Moderate
import TextGrammar.Proofs.Rule.Proportions
import TextGrammar.Proofs.Rule.Range
import TextGrammar.Proofs.Rule.Sequence
import TextGrammar.Proofs.Rule.Texts
import TextGrammar.Proofs.Rule.Weightless
import TextGrammar.Proofs.Rule.Weights
import TextGrammar.Proofs.Rule.WellFormed
import TextGrammar.Proofs.Rule.WholeSteps
import TextGrammar.Proofs.Store
import TextGrammar.Proofs.Store.Draws
import TextGrammar.Proofs.Store.WellFormed
import TextGrammar.Proofs.Text.Case
import TextGrammar.Proofs.Text.Classes
import TextGrammar.Proofs.Text.Occurrence
import TextGrammar.Proofs.Text.Pattern
import TextGrammar.Proofs.Text.Runs
import TextGrammar.Proofs.Text.WordPair
import TextGrammar.Proofs.Token
import TextGrammar.Proofs.Token.Canonical
import TextGrammar.Proofs.Token.Matches
import TextGrammar.Random
import TextGrammar.Rule
import TextGrammar.Rule.Definition
import TextGrammar.Rule.Draw
import TextGrammar.Rule.Kind
import TextGrammar.Rule.Range
import TextGrammar.Settings
import TextGrammar.Sorting
import TextGrammar.Store
import TextGrammar.Store.Validation
import TextGrammar.Table
import TextGrammar.Text.Blank
import TextGrammar.Text.Case
import TextGrammar.Text.Code
import TextGrammar.Text.Digit
import TextGrammar.Text.Encoding
import TextGrammar.Text.Pattern
import TextGrammar.Text.Pieces
import TextGrammar.Text.Printable
import TextGrammar.Text.Quoted
import TextGrammar.Text.Ranges
import TextGrammar.Text.Terminal
import TextGrammar.Text.Word
import TextGrammar.Token
