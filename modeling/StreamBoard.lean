import StreamBoard.Json.Printer
import StreamBoard.Rest.Route
import StreamBoard.Rest.Secret
import StreamBoard.Binary.Numeral
import StreamBoard.Socket.State
import StreamBoard.Socket.Reconnect
import StreamBoard.Board.View
import StreamBoard.Board.Store
import StreamBoard.Socket.Connection
import StreamBoard.Dispatch
import StreamBoard.Session
import StreamBoard.Url.Reader
import StreamBoard.Config
import StreamBoard.Dashboard
import StreamBoard.Main
import StreamBoard.Proofs.Ledger
import StreamBoard.Proofs.Table
import StreamBoard.Proofs.Json.Ordering
import StreamBoard.Proofs.Entity.Reading
import StreamBoard.Proofs.Entity.Settings
import StreamBoard.Proofs.Board.Field
import StreamBoard.Proofs.Board.LastWriter
import StreamBoard.Proofs.Board.LenientView
import StreamBoard.Proofs.Dispatch.Freshness
import StreamBoard.Proofs.Socket.Trace
import StreamBoard.Proofs.Socket.Payload
import StreamBoard.Proofs.Session.Replay
import StreamBoard.Proofs.Socket.Relay
import StreamBoard.Proofs.Dashboard.Synchrony
import StreamBoard.Proofs.Socket.Publication
import StreamBoard.Proofs.Json.Grammar
import StreamBoard.Proofs.Json.Strings
import StreamBoard.Proofs.Json.Numerals
import StreamBoard.Proofs.Json.Scalars
import StreamBoard.Proofs.Json.Reading
import StreamBoard.Proofs.Fragment
import StreamBoard.Proofs.Entity.Pipeline
import StreamBoard.Proofs.Entity.Agreement
import StreamBoard.Proofs.Json.Printing
import StreamBoard.Proofs.Entity.RoundTrip
import StreamBoard.Proofs.Board.Verbatim
import StreamBoard.Proofs.Entity.Preservation
import StreamBoard.Proofs.Board.Snapshot
import StreamBoard.Proofs.Board.Watching
import StreamBoard.Proofs.Board.Composition
import StreamBoard.Proofs.Text.Utf8
import StreamBoard.Proofs.Text.Percent
import StreamBoard.Proofs.Rest.Exchange
import StreamBoard.Proofs.Rest.Verdict
import StreamBoard.Proofs.Url.Plain
import StreamBoard.Proofs.Url.Address
import StreamBoard.Proofs.Url.Host
import StreamBoard.Proofs.Url.Authority
import StreamBoard.Proofs.Url.Web
import StreamBoard.Proofs.Url.RoundTrip
import StreamBoard.Proofs.Config.Endpoint
import StreamBoard.Proofs.Rest.Route
import StreamBoard.Proofs.Rest.Addressing
import StreamBoard.Proofs.Config.Origin
import StreamBoard.Proofs.Board.Rewriting
import StreamBoard.Proofs.Binary.Rounding
import StreamBoard.Proofs.Binary.Order
import StreamBoard.Proofs.Socket.Backoff
import StreamBoard.Proofs.Entity.Acceptance
import StreamBoard.Proofs.Rest.Echo
import StreamBoard.Proofs.Binary.Decimals
import StreamBoard.Proofs.Json.Decimals
import StreamBoard.Proofs.Json.Spelling
import StreamBoard.Proofs.Json.Truncation
import StreamBoard.Proofs.Dispatch.Truncation
import StreamBoard.Proofs.Board.Assignment
import StreamBoard.Proofs.Entity.Slots
import StreamBoard.Proofs.Board.Summary
