import OrderedState.Json.Basic
import OrderedState.Decimal.Shortest
import OrderedState.Decimal.Layout
import OrderedState.Json.Text
import OrderedState.Text.Utf8
import OrderedState.Text.Escaped
import OrderedState.Text.Quoted
import OrderedState.Bytes.Hex
import OrderedState.Codec.Mismatch
import OrderedState.Json.Reader
import OrderedState.Codec.Value
import OrderedState.Codec.JsonFormat
import OrderedState.Msgpack.Writer
import OrderedState.Msgpack.Reader
import OrderedState.Codec.MsgpackFormat
import OrderedState.Codec.FromJson
import OrderedState.Request.Basic
import OrderedState.Error
import OrderedState.Request.Payload
import OrderedState.Config
import OrderedState.Store.Basic
import OrderedState.Codec.Format
import OrderedState.Query.Basic
import OrderedState.Query.Small
import OrderedState.Query.StoreSteps
import OrderedState.Query.Answer
import OrderedState.Table
import OrderedState.Controller.PairQueues
import OrderedState.Controller.Ownership
import OrderedState.Controller.Basic
import OrderedState.Session.Function
import OrderedState.Session.Handle
import OrderedState.Session.World
import OrderedState.Session.Run
import OrderedState.Session.Step
import OrderedState.Query.Scenario
import OrderedState.Proofs.Table
import OrderedState.Proofs.Machine
import OrderedState.Proofs.Invariant
import OrderedState.Proofs.Exclusion
import OrderedState.Proofs.Parking
import OrderedState.Proofs.Locality
import OrderedState.Proofs.Program
import OrderedState.Proofs.PairLine
import OrderedState.Proofs.Refinement
import OrderedState.Proofs.Drain
import OrderedState.Proofs.Custody
import OrderedState.Proofs.Context
import OrderedState.Proofs.Futures
import OrderedState.Proofs.ByteMap
import OrderedState.Proofs.StoreHistory
import OrderedState.Proofs.StoreFrame
import OrderedState.Proofs.Interpreter
import OrderedState.Proofs.BackPressure
import OrderedState.Proofs.Promises
import OrderedState.Proofs.Delivery
import OrderedState.Proofs.Combine
import OrderedState.Proofs.Submission
import OrderedState.Proofs.MapView
import OrderedState.Proofs.ReadyBuffer
import OrderedState.Proofs.Chaining
import OrderedState.Proofs.CombineHeld
