import CuTile.Tensor.NestedPartition
import CuTile.Tensor.Disjointness
import CuTile.Tensor.Reshape
import CuTile.Launch.SingleFlight
import CuTile.Launch.KernelEvictionSafety
import CuTile.Launch.GridInference
import CuTile.Launch.PlanCache
import CuTile.Launch.RawReplay
import CuTile.Launch.JitCache
import CuTile.Compiler.TermSoundness
import CuTile.Compiler.RegionCarrySafety
import CuTile.Compiler.LoopTokens
import CuTile.Compiler.TokenBoundaries
import CuTile.Compiler.NameResolution
import CuTile.Compiler.BoundsPanics
import CuTile.Compiler.LoopIntervals
import CuTile.Compiler.DivisibilityCap
import CuTile.Compiler.ValueTree
import CuTile.Checks.HoistExactness
import CuTile.Checks.WithBounds
import CuTile.Schedule.MappedLaunch
import CuTile.Schedule.SubRange
import CuTile.Async.Reactor
import CuTile.Async.CudaGraph
import CuTile.Async.ExecuteOnceLiveness
import CuTile.Async.InFlightSafety
import CuTile.Bytecode.IndexPrediction
import CuTile.Bytecode.DecoderTotality
import CuTile.Bytecode.SectionFraming
import CuTile.Bytecode.TypeTable
import CuTile.Bytecode.ValueScopes
import CuTile.Tune.RequiredFirst
