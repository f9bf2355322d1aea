import ReplyCapture.Bytes.Basic
import ReplyCapture.Bytes.Hex
import ReplyCapture.Bytes.LittleEndian
import ReplyCapture.Calendar.Date
import ReplyCapture.Calendar.Instant
import ReplyCapture.Document.Decode
import ReplyCapture.Document.Encode
import ReplyCapture.Document.Error
import ReplyCapture.Document.Json
import ReplyCapture.Document.Raw
import ReplyCapture.Document.Structure
import ReplyCapture.Document.Tag
import ReplyCapture.Document.Text
import ReplyCapture.Document.Value
import ReplyCapture.Error
import ReplyCapture.Message.Error
import ReplyCapture.Message.Event
import ReplyCapture.Message.Frame
import ReplyCapture.Message.Header
import ReplyCapture.Message.Limits
import ReplyCapture.Message.OpCode
import ReplyCapture.Number.Binary64
import ReplyCapture.Number.Digits
import ReplyCapture.Number.Layout
import ReplyCapture.Number.Shortest
import ReplyCapture.Reply.Basic
import ReplyCapture.Reply.Cursor
import ReplyCapture.Reply.Decode
import ReplyCapture.Reply.Encode
import ReplyCapture.Reply.Query
import ReplyCapture.Reply.Render
import ReplyCapture.Reply.ReportedError
import ReplyCapture.Session
import ReplyCapture.Source.Basic
import ReplyCapture.Source.Reading
import ReplyCapture.Text.Remark
import ReplyCapture.Text.Utf8
import ReplyCapture.Proofs.Document.Wire
import ReplyCapture.Proofs.Document.Structure
import ReplyCapture.Proofs.Text.Utf8
import ReplyCapture.Proofs.Document.Decode
import ReplyCapture.Proofs.Document.Alignment
import ReplyCapture.Proofs.Source.Readings
import ReplyCapture.Proofs.Message.Frame
import ReplyCapture.Proofs.Message.Header
import ReplyCapture.Proofs.Message.Bounded
import ReplyCapture.Proofs.Reply.Body
import ReplyCapture.Proofs.Reply.Capture
import ReplyCapture.Proofs.Source.Stepwise
import ReplyCapture.Proofs.Reply.Message
import ReplyCapture.Proofs.Reply.RoundTrip
import ReplyCapture.Proofs.Reply.Stops
import ReplyCapture.Proofs.Reply.Recovery
import ReplyCapture.Proofs.Reply.Buffer
import ReplyCapture.Proofs.Reply.Delivery
import ReplyCapture.Proofs.Reply.Failing
import ReplyCapture.Proofs.Reply.Misdeclared
import ReplyCapture.Proofs.Document.Probe
import ReplyCapture.Proofs.Document.InBounds
import ReplyCapture.Proofs.Calendar.Instant
import ReplyCapture.Proofs.Document.Keys
import ReplyCapture.Proofs.Document.Storable
import ReplyCapture.Proofs.Document.NormalForm
import ReplyCapture.Proofs.Reply.History
import ReplyCapture.Proofs.Reply.Readable
import ReplyCapture.Proofs.Reply.Truncation
import ReplyCapture.Proofs.Reply.Limits
import ReplyCapture.Proofs.Number.Binary64
import ReplyCapture.Proofs.Document.Lookup
import ReplyCapture.Proofs.Reply.ErrorCode
import ReplyCapture.Proofs.Reply.CursorNumber
import ReplyCapture.Proofs.Reply.ReportedErrors
import ReplyCapture.Proofs.Reply.Accounts
import ReplyCapture.Proofs.Reply.Rendering
import ReplyCapture.Proofs.Reply.Line
import ReplyCapture.Proofs.Source.Refill
import ReplyCapture.Proofs.Bytes.Digits
import ReplyCapture.Proofs.Bytes.Dump
