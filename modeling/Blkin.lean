import Blkin.Packed
import Blkin.Calls
import Blkin.Lineage
import Blkin.Spans
import Blkin.Endpoints
import Blkin.Transparency
import Blkin.ZTracer
import Blkin.Decimal
import Blkin.Inet
import Blkin.Base64
import Blkin.Codec
import Blkin.Python
import Blkin.Thrift
import Blkin.TTypes
import Blkin.BinaryProtocol
import Blkin.Formatter
import Blkin.Provider
import Blkin.Client
import Blkin.EndToEnd
import Blkin.Parents
import Blkin.BabeltraceZipkin
import Blkin.Children
import Blkin.Effects
import Blkin.Totality
import Blkin.Reuse
import Blkin.Width
import Blkin.Front
import Blkin.Threads
import Blkin.InitThreads
import Blkin.InitOnce
import Blkin.Json
import Blkin.BabeltraceJson
import Blkin.Draws
import Blkin.Messages
import Blkin.Rejections
import Blkin.Confluence
import Blkin.Duplex
import Blkin.Relay
import Blkin.Collector
import Blkin.Isolation
import Blkin.Lifetimes
import Blkin.Reading
import Blkin.Agreement
import Blkin.CommandLine
import Blkin.SharedMemory
import Blkin.TestThreads
import Blkin.Pipeline
import Blkin.Applications
