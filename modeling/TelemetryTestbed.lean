import TelemetryTestbed.Analysis.Aggregate
import TelemetryTestbed.Analysis.GwStat
import TelemetryTestbed.Analysis.Manifest
import TelemetryTestbed.Analysis.Percentile
import TelemetryTestbed.Analysis.RunDatabase
import TelemetryTestbed.Analysis.RunFiles
import TelemetryTestbed.Analysis.SeqMetrics
import TelemetryTestbed.Analysis.Summary
import TelemetryTestbed.Analysis.Tables
import TelemetryTestbed.Experiments.Runner
import TelemetryTestbed.Gateway.Fifo
import TelemetryTestbed.Gateway.Payloads
import TelemetryTestbed.Gateway.Pipeline
import TelemetryTestbed.Gateway.Process
import TelemetryTestbed.Gateway.Queue
import TelemetryTestbed.Gateway.Stats
import TelemetryTestbed.Gateway.StatsLine
import TelemetryTestbed.Gateway.StatsThread
import TelemetryTestbed.Gateway.Wakeup
import TelemetryTestbed.Gateway.Writer
import TelemetryTestbed.Laws.Analysis.Aggregate
import TelemetryTestbed.Laws.Analysis.GwStat
import TelemetryTestbed.Laws.Analysis.Percentile
import TelemetryTestbed.Laws.Analysis.RunFiles
import TelemetryTestbed.Laws.Analysis.SeqMetrics
import TelemetryTestbed.Laws.Analysis.Tables
import TelemetryTestbed.Laws.Experiments.Aggregate
import TelemetryTestbed.Laws.Experiments.Manifest
import TelemetryTestbed.Laws.Experiments.Runner
import TelemetryTestbed.Laws.Gateway.Fifo
import TelemetryTestbed.Laws.Gateway.Flow
import TelemetryTestbed.Laws.Gateway.Iterations
import TelemetryTestbed.Laws.Gateway.Payloads
import TelemetryTestbed.Laws.Gateway.Persistence
import TelemetryTestbed.Laws.Gateway.Process
import TelemetryTestbed.Laws.Gateway.Shutdown
import TelemetryTestbed.Laws.Gateway.Stats
import TelemetryTestbed.Laws.Gateway.StatsLine
import TelemetryTestbed.Laws.Gateway.StatsThread
import TelemetryTestbed.Laws.Gateway.Wakeup
import TelemetryTestbed.Laws.Gateway.Writer
import TelemetryTestbed.Laws.Persistence.History
import TelemetryTestbed.Laws.Persistence.HistoryMemory
import TelemetryTestbed.Laws.Persistence.HistoryReply
import TelemetryTestbed.Laws.Persistence.Migration
import TelemetryTestbed.Laws.Persistence.Schema
import TelemetryTestbed.Laws.Persistence.StrMem
import TelemetryTestbed.Laws.Sim.Readings
import TelemetryTestbed.Laws.Sim.Robot
import TelemetryTestbed.Laws.Sim.Sensors
import TelemetryTestbed.Laws.Sim.Snapshot
import TelemetryTestbed.Laws.Sim.Ticks
import TelemetryTestbed.Laws.Telemetry.Replay
import TelemetryTestbed.Laws.Telemetry.RoundTrip
import TelemetryTestbed.Laws.Telemetry.Sample
import TelemetryTestbed.Laws.Telemetry.Utf8
import TelemetryTestbed.Laws.Ui.Buffer
import TelemetryTestbed.Laws.Ui.Interleaving
import TelemetryTestbed.Laws.Ui.Page
import TelemetryTestbed.Laws.WebSocket.AcceptKey
import TelemetryTestbed.Laws.WebSocket.Base64
import TelemetryTestbed.Laws.WebSocket.Broadcast
import TelemetryTestbed.Laws.WebSocket.Codec
import TelemetryTestbed.Laws.WebSocket.Conversation
import TelemetryTestbed.Laws.WebSocket.Digest
import TelemetryTestbed.Laws.WebSocket.FailStop
import TelemetryTestbed.Laws.WebSocket.Framing
import TelemetryTestbed.Laws.WebSocket.HandshakeFirst
import TelemetryTestbed.Laws.WebSocket.HeaderLookup
import TelemetryTestbed.Laws.WebSocket.Headers
import TelemetryTestbed.Laws.WebSocket.Lifecycle
import TelemetryTestbed.Laws.WebSocket.Limit
import TelemetryTestbed.Laws.WebSocket.Receive
import TelemetryTestbed.Laws.WebSocket.Records
import TelemetryTestbed.Laws.WebSocket.Release
import TelemetryTestbed.Laws.WebSocket.Request
import TelemetryTestbed.Laws.WebSocket.Segmentation
import TelemetryTestbed.Laws.WebSocket.Sending
import TelemetryTestbed.Laws.WebSocket.Steps
import TelemetryTestbed.Lib.Accumulator
import TelemetryTestbed.Lib.Adjacent
import TelemetryTestbed.Lib.Base64
import TelemetryTestbed.Lib.Block
import TelemetryTestbed.Lib.BlockHash
import TelemetryTestbed.Lib.Bytes
import TelemetryTestbed.Lib.Channel
import TelemetryTestbed.Lib.Csv
import TelemetryTestbed.Lib.Decimal
import TelemetryTestbed.Lib.Demand
import TelemetryTestbed.Lib.Dict
import TelemetryTestbed.Lib.Double
import TelemetryTestbed.Lib.DoubleArith
import TelemetryTestbed.Lib.DoubleInt
import TelemetryTestbed.Lib.Grouping
import TelemetryTestbed.Lib.HeaderLines
import TelemetryTestbed.Lib.Heap
import TelemetryTestbed.Lib.Json
import TelemetryTestbed.Lib.JsonDoc
import TelemetryTestbed.Lib.JsonNumber
import TelemetryTestbed.Lib.JsonSpelling
import TelemetryTestbed.Lib.JsonString
import TelemetryTestbed.Lib.LinkedList
import TelemetryTestbed.Lib.LittleEndian
import TelemetryTestbed.Lib.Monitor
import TelemetryTestbed.Lib.Mutex
import TelemetryTestbed.Lib.NetworkOrder
import TelemetryTestbed.Lib.OrderStatistics
import TelemetryTestbed.Lib.Ownership
import TelemetryTestbed.Lib.Printf
import TelemetryTestbed.Lib.PyText
import TelemetryTestbed.Lib.Regex
import TelemetryTestbed.Lib.Resources
import TelemetryTestbed.Lib.Run
import TelemetryTestbed.Lib.SampleStatistics
import TelemetryTestbed.Lib.Script
import TelemetryTestbed.Lib.Search
import TelemetryTestbed.Lib.Selection
import TelemetryTestbed.Lib.Sha1
import TelemetryTestbed.Lib.Stream
import TelemetryTestbed.Lib.Transaction
import TelemetryTestbed.Lib.Traversal
import TelemetryTestbed.Lib.Utf8
import TelemetryTestbed.Lib.WebSocketFrame
import TelemetryTestbed.Lib.Window
import TelemetryTestbed.Mqtt.Client
import TelemetryTestbed.Persistence.History
import TelemetryTestbed.Persistence.HistoryMemory
import TelemetryTestbed.Persistence.Schema
import TelemetryTestbed.Persistence.StateTable
import TelemetryTestbed.Persistence.StrBuf
import TelemetryTestbed.Persistence.StrMem
import TelemetryTestbed.Sim.Cache
import TelemetryTestbed.Sim.Motor
import TelemetryTestbed.Sim.Publisher
import TelemetryTestbed.Sim.Robot
import TelemetryTestbed.Sim.Sensors
import TelemetryTestbed.Telemetry.Json
import TelemetryTestbed.Telemetry.Types
import TelemetryTestbed.Ui.App
import TelemetryTestbed.Ui.Page
import TelemetryTestbed.WebSocket.Base64
import TelemetryTestbed.WebSocket.ClientList
import TelemetryTestbed.WebSocket.Codec
import TelemetryTestbed.WebSocket.Conversation
import TelemetryTestbed.WebSocket.Frame
import TelemetryTestbed.WebSocket.Handshake
import TelemetryTestbed.WebSocket.HeaderScan
import TelemetryTestbed.WebSocket.Limit
import TelemetryTestbed.WebSocket.Receive
import TelemetryTestbed.WebSocket.Server
import TelemetryTestbed.WebSocket.Session
import TelemetryTestbed.WebSocket.Sha1
