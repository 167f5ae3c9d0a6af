import BusDecode.Annotation
import BusDecode.Bits
import BusDecode.Halt
import BusDecode.Journal
import BusDecode.Numeral
import BusDecode.PinVector
import BusDecode.Sample
import BusDecode.Spi
import BusDecode.Stream.Sink
import BusDecode.Script.Basic
import BusDecode.Script.Loop
import BusDecode.Script.Play
import BusDecode.Channel.Receiver
import BusDecode.Channel.Sender
import BusDecode.Channel.Exchange
import BusDecode.Merger
import BusDecode.LineCursor
import BusDecode.Updi.Opcode
import BusDecode.Updi.SystemInfo
import BusDecode.Updi.Session
import BusDecode.Updi.Command
import BusDecode.Hvsp.Decoder
import BusDecode.Max7219
import BusDecode.Mcp23s17
import BusDecode.Graph.Builder
import BusDecode.Graph.Network
import BusDecode.Graph.Wiring
import BusDecode.Proofs.Delays
import BusDecode.Proofs.Exchange
import BusDecode.Proofs.Faults
import BusDecode.Proofs.Hvsp.Instructions
import BusDecode.Proofs.Hvsp.Glitches
import BusDecode.Proofs.Hvsp.Node
import BusDecode.Proofs.Hvsp.Order
import BusDecode.Proofs.Hvsp.Positions
import BusDecode.Proofs.Hvsp.Registers
import BusDecode.Proofs.Hvsp.Tiling
import BusDecode.Proofs.LineCursor.Calls
import BusDecode.Proofs.LineCursor.Falls
import BusDecode.Proofs.Max7219.Order
import BusDecode.Proofs.Max7219.Releases
import BusDecode.Proofs.Max7219.Retries
import BusDecode.Proofs.Mcp23s17
import BusDecode.Proofs.Merger.Faults
import BusDecode.Proofs.Merger.Runs
import BusDecode.Proofs.Updi.Refinement
import BusDecode.Proofs.Updi.RoundTrip
import BusDecode.Proofs.Updi.Tolerance
import BusDecode.Proofs.Updi.Acquisition
import BusDecode.Proofs.Updi.Coverage
import BusDecode.Proofs.Updi.Noise
import BusDecode.Proofs.Updi.Order
import BusDecode.Proofs.Updi.Period
import BusDecode.Proofs.Updi.Progress
import BusDecode.Proofs.Updi.Range
import BusDecode.Proofs.Receiver
import BusDecode.Proofs.Updi.SameLine
import BusDecode.Proofs.Updi.Sampling
import BusDecode.Proofs.Updi.Tally
import BusDecode.Proofs.Updi.Thinning
import BusDecode.Proofs.Graph.Builder
import BusDecode.Proofs.Graph.Wiring
import BusDecode.Proofs.Graph.Decoding
import BusDecode.Proofs.Graph.Decoders
import BusDecode.Proofs.Graph.Direct
import BusDecode.Proofs.Graph.Steps
import BusDecode.Proofs.Graph.Threads
import BusDecode.Proofs.Graph.Awaiting
import BusDecode.Proofs.Graph.Pipeline
import BusDecode.Proofs.Graph.Roles
import BusDecode.Proofs.Graph.Determinism
import BusDecode.Proofs.Graph.Verdict
