import ConferenceLedger.Bytes
import ConferenceLedger.Codec.Basic
import ConferenceLedger.Curve.Edwards
import ConferenceLedger.Curve.Signature
import ConferenceLedger.Demo
import ConferenceLedger.Digest.Hmac
import ConferenceLedger.Digest.Sha2
import ConferenceLedger.Gateway.Config
import ConferenceLedger.Gateway.Message
import ConferenceLedger.Gateway.Server
import ConferenceLedger.Gateway.Service
import ConferenceLedger.Gateway.SocketAddress
import ConferenceLedger.Identity.Commitment
import ConferenceLedger.Identity.Form
import ConferenceLedger.Identity.Key
import ConferenceLedger.Json.Basic
import ConferenceLedger.Json.Form
import ConferenceLedger.Json.Reader
import ConferenceLedger.Json.Shape
import ConferenceLedger.Ledger.Award
import ConferenceLedger.Ledger.Booth
import ConferenceLedger.Ledger.Chain
import ConferenceLedger.Ledger.Custody
import ConferenceLedger.Ledger.Error
import ConferenceLedger.Ledger.Execution
import ConferenceLedger.Ledger.Genesis
import ConferenceLedger.Ledger.Meeting
import ConferenceLedger.Ledger.Operation
import ConferenceLedger.Ledger.Query
import ConferenceLedger.Ledger.Records
import ConferenceLedger.Ledger.Transaction
import ConferenceLedger.Log.Filter
import ConferenceLedger.Log.Line
import ConferenceLedger.Log.Rule
import ConferenceLedger.Main
import ConferenceLedger.Number.Double
import ConferenceLedger.Number.Power
import ConferenceLedger.Pattern.Escape
import ConferenceLedger.Pattern.Form
import ConferenceLedger.Pattern.Mode
import ConferenceLedger.Pattern.Set
import ConferenceLedger.Proofs.Codec.Delimiting
import ConferenceLedger.Proofs.Codec.Records
import ConferenceLedger.Proofs.Codec.RoundTrip
import ConferenceLedger.Proofs.Codec.Signing
import ConferenceLedger.Proofs.Codec.Steady
import ConferenceLedger.Proofs.Gateway.Desk
import ConferenceLedger.Proofs.Gateway.Limit
import ConferenceLedger.Proofs.Gateway.Messages
import ConferenceLedger.Proofs.Gateway.Register
import ConferenceLedger.Proofs.Gateway.Requests
import ConferenceLedger.Proofs.Gateway.Sessions
import ConferenceLedger.Proofs.Gateway.Tickets
import ConferenceLedger.Proofs.Json.Forms
import ConferenceLedger.Proofs.Json.Tokens
import ConferenceLedger.Proofs.Json.Values
import ConferenceLedger.Proofs.Ledger.Authority
import ConferenceLedger.Proofs.Ledger.Award
import ConferenceLedger.Proofs.Ledger.Contents
import ConferenceLedger.Proofs.Ledger.Custody
import ConferenceLedger.Proofs.Ledger.Delivery
import ConferenceLedger.Proofs.Ledger.Effects
import ConferenceLedger.Proofs.Ledger.Events
import ConferenceLedger.Proofs.Ledger.Execution
import ConferenceLedger.Proofs.Ledger.Footprint
import ConferenceLedger.Proofs.Ledger.Founding
import ConferenceLedger.Proofs.Ledger.Getters
import ConferenceLedger.Proofs.Ledger.History
import ConferenceLedger.Proofs.Ledger.Independence
import ConferenceLedger.Proofs.Ledger.Instalments
import ConferenceLedger.Proofs.Ledger.Keyings
import ConferenceLedger.Proofs.Ledger.Leaderboard
import ConferenceLedger.Proofs.Ledger.Legibility
import ConferenceLedger.Proofs.Ledger.Lifecycle
import ConferenceLedger.Proofs.Ledger.Listing
import ConferenceLedger.Proofs.Ledger.Numbering
import ConferenceLedger.Proofs.Ledger.Outcome
import ConferenceLedger.Proofs.Ledger.Placement
import ConferenceLedger.Proofs.Ledger.Reading
import ConferenceLedger.Proofs.Ledger.Refusals
import ConferenceLedger.Proofs.Ledger.Replay
import ConferenceLedger.Proofs.Ledger.Reputation
import ConferenceLedger.Proofs.Ledger.Responses
import ConferenceLedger.Proofs.Ledger.ScanOrder
import ConferenceLedger.Proofs.Ledger.Schema
import ConferenceLedger.Proofs.Ledger.Settled
import ConferenceLedger.Proofs.Ledger.SigningKeys
import ConferenceLedger.Proofs.Ledger.Soundness
import ConferenceLedger.Proofs.Ledger.Stock
import ConferenceLedger.Proofs.Ledger.Supply
import ConferenceLedger.Proofs.Ledger.Thresholds
import ConferenceLedger.Proofs.Ledger.TicketIds
import ConferenceLedger.Proofs.Ledger.Tiers
import ConferenceLedger.Proofs.Ledger.Upkeep
import ConferenceLedger.Proofs.Ledger.Verdicts
import ConferenceLedger.Proofs.Relay.Basic
import ConferenceLedger.Proofs.Relay.Drift
import ConferenceLedger.Proofs.Relay.Line
import ConferenceLedger.Proofs.Relay.Turns
import ConferenceLedger.Proofs.Store.Fingerprint
import ConferenceLedger.Proofs.Store.Lookup
import ConferenceLedger.Proofs.Store.Nesting
import ConferenceLedger.Proofs.Store.Overlay
import ConferenceLedger.Proofs.Store.Ranges
import ConferenceLedger.Proofs.Text.Hex
import ConferenceLedger.Proofs.Text.Spelling
import ConferenceLedger.Proofs.Text.Utf8
import ConferenceLedger.Proofs.Token.Acceptance
import ConferenceLedger.Proofs.Token.Settings
import ConferenceLedger.Record.Account
import ConferenceLedger.Record.Attendee
import ConferenceLedger.Record.Prize
import ConferenceLedger.Record.Scan
import ConferenceLedger.Relay.Basic
import ConferenceLedger.Relay.Calls
import ConferenceLedger.Relay.Client
import ConferenceLedger.Relay.Config
import ConferenceLedger.Relay.Rehearsal
import ConferenceLedger.Rsa.Armor
import ConferenceLedger.Rsa.Block
import ConferenceLedger.Rsa.PublicKey
import ConferenceLedger.Store.Access
import ConferenceLedger.Store.Basic
import ConferenceLedger.Store.Key
import ConferenceLedger.Store.Script
import ConferenceLedger.Store.View
import ConferenceLedger.Text.Alphanumeric
import ConferenceLedger.Text.Base64
import ConferenceLedger.Text.Blank
import ConferenceLedger.Text.Cut
import ConferenceLedger.Text.Decimal
import ConferenceLedger.Text.Duration
import ConferenceLedger.Text.Hex
import ConferenceLedger.Text.Utf8
import ConferenceLedger.Token.Auth
import ConferenceLedger.Token.Claims
import ConferenceLedger.Token.Header
