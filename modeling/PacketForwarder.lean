import PacketForwarder.Channel
import PacketForwarder.CommandLine.Arguments
import PacketForwarder.CommandLine.Options
import PacketForwarder.CommandLine.Run
import PacketForwarder.Downlink.Decode
import PacketForwarder.Downlink.Error
import PacketForwarder.Downlink.Policy
import PacketForwarder.Downlink.Request
import PacketForwarder.Frequency
import PacketForwarder.Json.Fault
import PacketForwarder.Json.Printer
import PacketForwarder.Json.Reader
import PacketForwarder.Json.Record
import PacketForwarder.Json.Skip
import PacketForwarder.Json.Value
import PacketForwarder.Log
import PacketForwarder.Main
import PacketForwarder.Modulation.Bandwidth
import PacketForwarder.Modulation.Basic
import PacketForwarder.Modulation.CodingRate
import PacketForwarder.Modulation.Datarate
import PacketForwarder.Number.Binary
import PacketForwarder.Number.Decimal
import PacketForwarder.Number.Fixed
import PacketForwarder.Number.Shortest
import PacketForwarder.Packet.Receive
import PacketForwarder.Packet.Transmit
import PacketForwarder.Proofs.Downlink.Acceptance
import PacketForwarder.Proofs.Downlink.Checks
import PacketForwarder.Proofs.Downlink.NonObjects
import PacketForwarder.Proofs.Downlink.Request
import PacketForwarder.Proofs.Downlink.TextAgreement
import PacketForwarder.Proofs.Frequency
import PacketForwarder.Proofs.HertzRoundTrip
import PacketForwarder.Proofs.Json.Grammar
import PacketForwarder.Proofs.Json.Members
import PacketForwarder.Proofs.Json.Numerals
import PacketForwarder.Proofs.Json.Positional
import PacketForwarder.Proofs.Json.Reading
import PacketForwarder.Proofs.Json.Readings
import PacketForwarder.Proofs.Json.Record
import PacketForwarder.Proofs.Json.Rounds
import PacketForwarder.Proofs.Json.Scalars
import PacketForwarder.Proofs.Json.Skipping
import PacketForwarder.Proofs.Json.TwoReaders
import PacketForwarder.Proofs.Json.ValueTexts
import PacketForwarder.Proofs.Json.Written
import PacketForwarder.Proofs.Modulation.Datarate
import PacketForwarder.Proofs.Number.Arithmetic
import PacketForwarder.Proofs.Number.Decimal
import PacketForwarder.Proofs.Number.Fixed
import PacketForwarder.Proofs.Number.Rounding
import PacketForwarder.Proofs.Outcome
import PacketForwarder.Proofs.RoundTrip
import PacketForwarder.Proofs.Text.Base64
import PacketForwarder.Proofs.Text.Bytes
import PacketForwarder.Proofs.Text.Runs
import PacketForwarder.Proofs.Time.Calendar
import PacketForwarder.Proofs.Time.Timestamp
import PacketForwarder.Proofs.Uplink.Meaning
import PacketForwarder.Proofs.Uplink.Report
import PacketForwarder.Proofs.Uplink.Syntax
import PacketForwarder.Proofs.Uplink.TwoEncoders
import PacketForwarder.Radio.Blocking
import PacketForwarder.Radio.Call
import PacketForwarder.Radio.Dialogue
import PacketForwarder.Radio.Forward
import PacketForwarder.Radio.Sample
import PacketForwarder.Radio.Script
import PacketForwarder.Text.Base64
import PacketForwarder.Text.Description
import PacketForwarder.Text.Printable
import PacketForwarder.Text.Quoted
import PacketForwarder.Text.Similarity
import PacketForwarder.Time.Date
import PacketForwarder.Time.Instant
import PacketForwarder.Uplink
import PacketForwarder.Proofs.Downlink.Scheduling
import PacketForwarder.Proofs.Downlink.Independence
import PacketForwarder.Proofs.PayloadText
import PacketForwarder.Proofs.Radio.Exchanges
import PacketForwarder.Proofs.Radio.Forwarding
import PacketForwarder.Proofs.Radio.Polling
import PacketForwarder.Proofs.Radio.Timeouts
import PacketForwarder.Proofs.Deviation
import PacketForwarder.Proofs.Downlink.FirstFailure
import PacketForwarder.Proofs.Downlink.Refusals
import PacketForwarder.Proofs.Downlink.ShownValues
import PacketForwarder.Proofs.HertzOrder
import PacketForwarder.Proofs.Number.Order
import PacketForwarder.Proofs.Time.GpsTime
import PacketForwarder.Proofs.Radio.Replay
import PacketForwarder.Proofs.Channel
import PacketForwarder.Proofs.CommandLine
import PacketForwarder.Proofs.ShownPacket
import PacketForwarder.Proofs.Text.Description
