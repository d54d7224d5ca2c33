import Pfng.Lib.Slots
import Pfng.Lib.Tiling
import Pfng.Tcm.Invariant
import Pfng.Tcm.Manager
import Pfng.Tcm.Safety
import Pfng.Tcm.Allocation
import Pfng.Tcm.History
import Pfng.Lib.Memory
import Pfng.Blocks
import Pfng.Iq2.Codec
import Pfng.Lib.Register
import Pfng.Iq2.Kernel
import Pfng.Iq2.Packing
import Pfng.Iq2.Accumulator
import Pfng.Iq2.Exactness
import Pfng.Q4K.Kernel
import Pfng.Q4K.Packing
import Pfng.Q4K.Accumulator
import Pfng.Q4K.Exactness
import Pfng.Lib.Rounding
import Pfng.Q4K.ScaleCodec
import Pfng.Q4K.Quantizer
import Pfng.Lib.Folds
import Pfng.Q4K.RoundTrip
import Pfng.Bench.Comparison
import Pfng.Bench.Run
import Pfng.Bench.Verdict
import Pfng.Q40.Reference
import Pfng.Q40.Ime1Activation
import Pfng.Q40.Ime1Packing
import Pfng.Q40.Ties
import Pfng.Ime
import Pfng.Q40.Adapter
import Pfng.Q40.Ime2Packing
import Pfng.Q40.ImeRr
import Pfng.Q40.ImeRrPacking
import Pfng.Q40.ImeRrProduct
import Pfng.Lib.Fresh
import Pfng.Q40.BatchReduction
import Pfng.Q40.BatchInvariant
import Pfng.Q40.BatchOperands
import Pfng.Q40.M8b
import Pfng.Q40.M8bRun
import Pfng.Q40.M8bPacking
import Pfng.Q40.M8bProduct
import Pfng.Lib.Blocking
import Pfng.Q40.Panels
import Pfng.Q40.M8bCb
import Pfng.Q40.M8bDpu
import Pfng.Q40.M8bDpuCb
import Pfng.Q40.M4
import Pfng.Q40.M4Kernel
import Pfng.Q40.M4Packing
import Pfng.Q40.M4Run
import Pfng.Iq2.Gemm
import Pfng.Iq2.Tile
import Pfng.Iq2.Matrix
import Pfng.Iq2.Product
import Pfng.Q4K.Gemm
import Pfng.Q4K.Parts
import Pfng.Q4K.Unscramble
import Pfng.Q4K.Tile
import Pfng.Q4K.Group
import Pfng.Q4K.Product
import Pfng.Bench.Arguments
import Pfng.Lib.Steps
import Pfng.Quantizers
import Pfng.Q4K.Reconstruction
import Pfng.Lib.Bytes
import Pfng.Q40.Upstream
import Pfng.Q40.M4Product
import Pfng.Q40.M4b
import Pfng.Q40.M4bProduct
import Pfng.Q40.HalfBlocks
import Pfng.Q40.HalfPacking
import Pfng.Q40.HalfRun
import Pfng.Q40.M4n32b
import Pfng.Q40.M4n32bProduct
import Pfng.Q40.M32n4
import Pfng.Q40.M32n4Product
import Pfng.Lib.Dict
import Pfng.Lib.Pattern
import Pfng.Perf.Annotate
import Pfng.Perf.Attribution
import Pfng.Lib.Pipeline
import Pfng.Q40.Rvv32
import Pfng.Q40.Rvv32Packing
import Pfng.Q40.Rvv32Product
import Pfng.Bench.Platform
import Pfng.Q40.VecDot
import Pfng.Iq2.VecDot
import Pfng.Q4K.VecDot
import Pfng.Bench.Protocol
import Pfng.Bench.Adapter
import Pfng.Bench.Reference
import Pfng.Q40.RvvReports
import Pfng.Q40.Ime1Reports
import Pfng.Q40.Ime2Reports
import Pfng.Q4K.Reports
import Pfng.Iq2.Reports
import Pfng.Bench.Counters
import Pfng.Bench.Options
import Pfng.Bench.CountedRun
import Pfng.Bench.Main
