import Shelf.Intake
import Shelf.Json.Reader
import Shelf.Proofs.Order.Float
import Shelf.Rehearsal
import Shelf.Rendering
import Shelf.Yaml.Source
import Shelf.Proofs.Json.Finite
import Shelf.Proofs.Order.Json
import Shelf.Proofs.Order.Records
import Shelf.Proofs.Action
import Shelf.Proofs.Decimal.Digits
import Shelf.Proofs.Params
import Shelf.Proofs.Outcome
import Shelf.Proofs.Plan
import Shelf.Proofs.Listing
import Shelf.Proofs.Uuid
import Shelf.Proofs.Text.Token
import Shelf.Proofs.Filter.FromParams
import Shelf.Proofs.Sort
import Shelf.Proofs.Projection
import Shelf.Proofs.Rendering.Keys
import Shelf.Proofs.Rendering.Selection
import Shelf.Proofs.Memory
import Shelf.Proofs.Service
import Shelf.Proofs.Session
import Shelf.Proofs.Record
import Shelf.Proofs.Patch.Single
import Shelf.Proofs.KeyedList
import Shelf.Proofs.Toggle
import Shelf.Proofs.Rewritten
import Shelf.Proofs.Mean
import Shelf.Proofs.Service.Detached
import Shelf.Proofs.Session.Lasting
import Shelf.Proofs.Session.Detached
import Shelf.Proofs.Session.NotFound
import Shelf.Proofs.Session.Failure
import Shelf.Proofs.Json.Equality
import Shelf.Proofs.Json.Members
import Shelf.Proofs.KeyedList.Run
import Shelf.Proofs.Session.FreshMean
import Shelf.Proofs.Rendering.Patch
import Shelf.Proofs.Decimal.Exact
import Shelf.Proofs.Decimal.Numeral
import Shelf.Proofs.Rendering.Literal
import Shelf.Proofs.Filter.Requests
import Shelf.Proofs.Params.Rearranged
import Shelf.Proofs.Decimal.Integer
import Shelf.Proofs.Order.Lawful
import Shelf.Proofs.Settings
import Shelf.Proofs.Page
import Shelf.Proofs.Page.Standing
import Shelf.Proofs.Patch.Stopping
import Shelf.Proofs.Patch.Lists
import Shelf.Proofs.Toggle.Commute
import Shelf.Proofs.KeyedList.Algebra
import Shelf.Proofs.Decimal.Nearest
import Shelf.Proofs.Decimal.Operations
import Shelf.Proofs.Decimal.Shortest
import Shelf.Proofs.Decimal.Printed
import Shelf.Proofs.Decimal.Tenths
import Shelf.Proofs.Decimal.HalfAway
import Shelf.Proofs.Filter.Flattened
import Shelf.Proofs.Filter.Found
import Shelf.Proofs.Mean.Value
import Shelf.Proofs.Mean.Finite
import Shelf.Proofs.Distinct
import Shelf.Proofs.Params.Bracketed
import Shelf.Proofs.Params.Edited
import Shelf.Proofs.Params.Object
import Shelf.Proofs.Projection.Returned
import Shelf.Proofs.Sort.Printed
import Shelf.Proofs.Rendering.Order
import Shelf.Proofs.Text.Dotted
import Shelf.Proofs.Record.Flat
import Shelf.Proofs.Rendering.Apart
