import CareerCompass.Scalar
import CareerCompass.Double
import CareerCompass.Catalog
import CareerCompass.Certainty
import CareerCompass.Text.Blank
import CareerCompass.Interview.Likert
import CareerCompass.RuleBase.Basic
import CareerCompass.RuleBase.Seeds
import CareerCompass.RuleBase.Standard
import CareerCompass.Facts
import CareerCompass.Inference.Basic
import CareerCompass.Inference.Ranking
import CareerCompass.Interview.Agenda
import CareerCompass.Interview.Session
import CareerCompass.Settings
import CareerCompass.Decimal.Binary
import CareerCompass.Decimal.Shortest
import CareerCompass.Decimal.Fixed
import CareerCompass.Decimal.Text
import CareerCompass.Text.Printable
import CareerCompass.Json.Value
import CareerCompass.Json.Cursor
import CareerCompass.Json.Reader
import CareerCompass.Text.Utf8
import CareerCompass.Text.Percent
import CareerCompass.Web.Uuid
import CareerCompass.Web.MediaType
import CareerCompass.Web.AnswerBody
import CareerCompass.Web.Route
import CareerCompass.Web.Message
import CareerCompass.Web.Framework
import CareerCompass.Web.Query
import CareerCompass.Web.View
import CareerCompass.Web.Server
import CareerCompass.Web.Standard
import CareerCompass.Proofs.Agenda.Runs
import CareerCompass.Proofs.TotalOrder
import CareerCompass.Proofs.Agenda.NextQuestion
import CareerCompass.Proofs.Session.Runs
import CareerCompass.Proofs.Session.Expansion
import CareerCompass.Proofs.Session.Interview
import CareerCompass.Proofs.Session.QuestionOrder
import CareerCompass.Proofs.Web.Store
import CareerCompass.Proofs.RuleBase.Validation
import CareerCompass.Proofs.Inference.Evidence
import CareerCompass.Proofs.Agenda.Growth
import CareerCompass.Proofs.Inference.Monotone
import CareerCompass.Proofs.Session.Reordering
import CareerCompass.Proofs.Certainty.Product
import CareerCompass.Proofs.Inference.Bounds
import CareerCompass.Proofs.Agenda.Seeds
import CareerCompass.Proofs.Inference.Ranking
import CareerCompass.Proofs.Settings
import CareerCompass.Proofs.Json.Tokens
import CareerCompass.Proofs.Web.AnswerBody
