import Shozee.Run.Machine
import Shozee.Idempotency.Hook
import Shozee.Idempotency.Protocol
import Shozee.Idempotency.Ownership
import Shozee.Idempotency.Receipts
import Shozee.Idempotency.Readings
import Shozee.Idempotency.Periods
import Shozee.Idempotency.Lease
import Shozee.Events.Delivery
import Shozee.Events.Protocol
import Shozee.Events.ExactlyOnce
import Shozee.Events.Order
import Shozee.Events.Retries
import Shozee.Confirmation.Gate
import Shozee.Confirmation.Protocol
import Shozee.Confirmation.Provenance
import Shozee.Confirmation.Spending
import Shozee.Confirmation.Cards
import Shozee.Turns.Protocol
import Shozee.Turns.Locks
import Shozee.Turns.LifeCycle
import Shozee.Budget.Guard
import Shozee.Run.Entries
import Shozee.Budget.Protocol
import Shozee.Budget.Ledger
import Shozee.Budget.Conservation
import Shozee.Budget.Backing
import Shozee.Pause.Kit
import Shozee.Pause.Protocol
import Shozee.Pause.Slot
import Shozee.Pause.SingleClaim
import Shozee.Pause.Deadlines
import Shozee.Run.Grouping
import Shozee.Pipeline.Context
import Shozee.Events.Emit
import Shozee.Events.Sequences
import Shozee.Events.Discovery
import Shozee.Run.Transactions
import Shozee.Run.Transducer
import Shozee.RateLimit.TokenBucket
import Shozee.RateLimit.Agreement
import Shozee.RateLimit.Bound
import Shozee.Documents.Protocol
import Shozee.Documents.Numbers
import Shozee.Documents.Papers
import Shozee.Documents.Cancellation
import Shozee.Orders.Draft
import Shozee.Orders.Create
import Shozee.Pipeline.CallRules
import Shozee.Pipeline.Factories
import Shozee.Pipeline.Nested
import Shozee.Pipeline.Confinement
import Shozee.Signing.Protocol
import Shozee.Signing.Effects
import Shozee.Signing.Soundness
import Shozee.Signing.Knowledge
import Shozee.Signing.LifeCycle
import Shozee.Orders.Confirmed
import Shozee.Orders.AsShown
import Shozee.Files.Protocol
import Shozee.Files.Staging
import Shozee.Run.Traverse
import Shozee.Run.Worklist
import Shozee.Permissions.Prerequisites
import Shozee.Orders.Numbers
import Shozee.Orders.Write
import Shozee.Run.Rounding
import Shozee.Orders.Totals
import Shozee.Orders.Range
import Shozee.Orders.Allocation
import Shozee.Run.Lookup
import Shozee.Run.Uuid
import Shozee.Pricing.Resolve
import Shozee.Pricing.Reference
import Shozee.Pricing.Entries
import Shozee.Pricing.EntryKeys
import Shozee.Pricing.Upsert
import Shozee.Pricing.DefaultList
import Shozee.Pricing.OneDefault
import Shozee.Run.Calendar
import Shozee.Run.Keyset
import Shozee.Run.IsoDate
import Shozee.Validation.Pagination
import Shozee.Orders.Listing
import Shozee.Orders.Pages
import Shozee.Orders.Paging
import Shozee.Orders.Aggregate
import Shozee.Run.Sums
import Shozee.Orders.Buckets
import Shozee.Orders.Rollup
import Shozee.Run.Text
import Shozee.Sho.Gender
import Shozee.Sho.References
import Shozee.Sho.Focus
import Shozee.Sho.Resolution
import Shozee.Sho.Fitting
import Shozee.Sho.Binding
import Shozee.Sho.Silent
import Shozee.Run.CodeUnits
import Shozee.Run.Json
import Shozee.Audit.CanonicalJson
import Shozee.Jobs.Identity
import Shozee.Jobs.Enqueue
import Shozee.Run.TextOrder
import Shozee.Orders.DateFilter
import Shozee.Auth.OtpSend
import Shozee.Auth.Throttle
import Shozee.Sho.Numbers
import Shozee.Sho.Cardinals
import Shozee.Sho.DigitStrings
import Shozee.Run.Cheapest
import Shozee.Sho.Repairs
import Shozee.Sho.Lines
import Shozee.Sho.Readings
import Shozee.Validation.EntityRef
import Shozee.Catalog.LineReferences
import Shozee.Catalog.Candidates
import Shozee.Catalog.OneLine
import Shozee.Catalog.Batches
import Shozee.Catalog.OnlyMatch
import Shozee.Run.Merging
import Shozee.Sho.Tokenizer
import Shozee.Sho.Symbols
import Shozee.Sho.Characters
import Shozee.Sho.Encoding
import Shozee.Run.Bytes
import Shozee.Run.Walks
import Shozee.Pki.Asn1
import Shozee.Pki.Reading
import Shozee.Run.Utf8
import Shozee.Run.Patterns
import Shozee.Asic.Container
import Shozee.Asic.Reading
import Shozee.Asic.Verify
import Shozee.Asic.Vouching
import Shozee.Asic.Layout
import Shozee.Asic.RoundTrip
import Shozee.Asic.TwoReadings
import Shozee.Asic.Detached
import Shozee.Run.Windows
import Shozee.Search.Query
import Shozee.Search.Hits
import Shozee.Orders.SearchMatches
import Shozee.Orders.SearchWindow
import Shozee.Validation.CursorCodec
import Shozee.Run.Numerals
import Shozee.DocGeneration.AmountInWords
import Shozee.DocGeneration.Cardinals
import Shozee.DocGeneration.Readings
import Shozee.DocGeneration.InvoiceSum
import Shozee.Run.Addresses
import Shozee.Http.ClientIp
import Shozee.Http.Hextets
import Shozee.Http.Embedded
import Shozee.Http.PkiProxy
import Shozee.Companies.Prefix
import Shozee.References.Lookup
import Shozee.References.NumberTexts
import Shozee.References.Numbers
import Shozee.Customers.SearchMatches
import Shozee.Customers.SearchTexts
import Shozee.Customers.Identifiers
