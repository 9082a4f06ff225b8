import FlashNext.Scatter
import FlashNext.Ragged
import FlashNext.KeyedStore
import FlashNext.Window
import FlashNext.CausalConv
import FlashNext.Segment
import FlashNext.PyError
import FlashNext.Patch
import FlashNext.Mat
import FlashNext.Str
import FlashNext.Ladder
import FlashNext.Blocks
import FlashNext.StrongTest
import FlashNext.Exits
import FlashNext.Strided
import FlashNext.Ranks
import FlashNext.ShortConv.Layer
import FlashNext.ShortConv.Request
import FlashNext.ShortConv.Prefill
import FlashNext.ShortConv.Decode
import FlashNext.ShortConv.Spec
import FlashNext.ShortConv.History
import FlashNext.ShortConv.Run
import FlashNext.ShortConv.Mixed
import FlashNext.ShortConv.Dispatch
import FlashNext.ShortConv.Batch
import FlashNext.ShortConv.Isolation
import FlashNext.ShortConv.Idle
import FlashNext.ShortConv.Wrapper
import FlashNext.ShortConv.Server
import FlashNext.NGram.Embedding
import FlashNext.NGram.Request
import FlashNext.NGram.Run
import FlashNext.NGram.Primes
import FlashNext.NGram.Hashing
import FlashNext.Ple.Load
import FlashNext.Ple.Table
import FlashNext.Ple.Complete
import FlashNext.Ple.Forward
import FlashNext.Ple.Embed
import FlashNext.Ple.Layer
import FlashNext.Ple.Serve
import FlashNext.Moe.Awq
import FlashNext.Moe.Layer
import FlashNext.Moe.WeightLoader
import FlashNext.Moe.Checkpoint
import FlashNext.Moe.Receive
import FlashNext.Moe.Faithful
import FlashNext.Moe.Mapping
import FlashNext.Moe.LoadWeights
import FlashNext.Moe.Names
import FlashNext.Moe.Spurious
import FlashNext.Moe.Reorder
import FlashNext.Moe.Layouts
import FlashNext.Moe.Tiles
import FlashNext.Moe.Scales
import FlashNext.Moe.TensorParallel
import FlashNext.Moe.ZeroPoints
import FlashNext.Moe.GptqZeros
import FlashNext.Moe.Gptq
import FlashNext.Moe.Whole
import FlashNext.Moe.Eplb
import FlashNext.Graphs.Manager
import FlashNext.Graphs.Shapes
import FlashNext.Graphs.Dispatch
import FlashNext.Graphs.Warmup
import FlashNext.Graphs.Reach
import FlashNext.Graphs.Profile
import FlashNext.Graphs.NoTrace
import FlashNext.Graphs.ModelManager
import FlashNext.Graphs.Outputs
import FlashNext.Graphs.Replay
import FlashNext.Warmup.Autotune
import FlashNext.Warmup.Lockstep
