import Gigastt.Lib.Steps
import Gigastt.Pool.Code
import Gigastt.Pool.Trans
import Gigastt.Pool.Wf
import Gigastt.Pool.Custody
import Gigastt.Pool.Wakeup
import Gigastt.Base
import Gigastt.Decode.Code
import Gigastt.Decode.Plain
import Gigastt.Decode.Time
import Gigastt.Decode.Utterance
import Gigastt.Lib.Cut
import Gigastt.Words.Code
import Gigastt.Words.Boundary
import Gigastt.Streaming.Code
import Gigastt.Streaming.Runs
import Gigastt.Streaming.Delivery
import Gigastt.Streaming.Timestamps
import Gigastt.Server.Deadline
import Gigastt.Server.Transcribe
import Gigastt.Server.Slot
import Gigastt.Server.Origin
import Gigastt.Pool.Events
import Gigastt.Pool.Close
import Gigastt.Pool.Fifo
import Gigastt.Session.Code
import Gigastt.Session.Turns
import Gigastt.Session.Returns
import Gigastt.Session.Endings
import Gigastt.Lib.Dataflow
import Gigastt.Quantize.Code
import Gigastt.Quantize.Pass
import Gigastt.Quantize.Closed
import Gigastt.Quantize.Tensors
import Gigastt.Quantize.Meaning
import Gigastt.Quantize.Preserved
import Gigastt.Quantize.Success
import Gigastt.RateLimit.Code
import Gigastt.RateLimit.Key
import Gigastt.Lib.Quota
import Gigastt.RateLimit.Bound
import Gigastt.RateLimit.Window
import Gigastt.Session.Deframe
import Gigastt.Ffi.Code
import Gigastt.Ffi.Alignment
import Gigastt.Session.Settings
import Gigastt.Streaming.Atomic
import Gigastt.Lib.Windows
import Gigastt.Streaming.Frames
import Gigastt.Streaming.Timeline
import Gigastt.Lib.Files
import Gigastt.Model.Code
import Gigastt.Model.Trans
import Gigastt.Model.Alone
import Gigastt.Model.Race
import Gigastt.Model.Ensure
import Gigastt.Metrics.Code
import Gigastt.Metrics.Histograms
import Gigastt.Lib.TextFormat
import Gigastt.Metrics.Exposition
import Gigastt.Metrics.Scrape
import Gigastt.Lib.Rounding
import Gigastt.Quantize.Error
import Gigastt.RateLimit.Retry
import Gigastt.Server.Middleware
import Gigastt.Streaming.Cache
import Gigastt.Session.Configure
import Gigastt.Streaming.Buffer
import Gigastt.Streaming.Columns
import Gigastt.Words.Mean
import Gigastt.Decode.Blanks
import Gigastt.Audio.Cursor
import Gigastt.Lib.Str
import Gigastt.Session.Preview
import Gigastt.Words.Vocab
import Gigastt.Words.VocabFile
import Gigastt.Server.Address
import Gigastt.Server.Bind
import Gigastt.Quantize.Bounds
import Gigastt.Audio.Decoding
import Gigastt.Streaming.Scratch
import Gigastt.Decode.Passes
import Gigastt.Lib.Channel
import Gigastt.Server.Sse
import Gigastt.Server.SseTrans
import Gigastt.Server.SseContent
import Gigastt.Server.SseSlot
import Gigastt.Pool.Ledger
import Gigastt.Session.Ledger
import Gigastt.Pool.Frame
import Gigastt.Server.Connections
import Gigastt.Server.ConnSlots
import Gigastt.Server.ConnShutdown
import Gigastt.Server.ConnGauge
import Gigastt.Model.Commands
import Gigastt.Model.Job
import Gigastt.Model.Whole
import Gigastt.Model.Provision
import Gigastt.Metrics.Tally
import Gigastt.RateLimit.Eviction
import Gigastt.Metrics.Coherence
