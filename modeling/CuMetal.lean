import CuMetal.Ir.CallAgreement
import CuMetal.Ir.ReadSafety
import CuMetal.Ptx.ControlRefinement
import CuMetal.Ptx.RegisterRefinement
import CuMetal.Common.MetallibSafety
import CuMetal.Runtime.FatbinSafety
import CuMetal.Metal.IntegerSequences
import CuMetal.Metal.GridSyncFacts
import CuMetal.Metal.WideAtomicSerial
import CuMetal.Metal.MslRoundTrip
import CuMetal.Metal.HiddenAgreement
import CuMetal.Runtime.CopyAgreement
import CuMetal.Runtime.ReplayAgreement
import CuMetal.Runtime.PrintfDrain
import CuMetal.Runtime.EventFacts
import CuMetal.Runtime.AsyncFreeFacts
import CuMetal.Runtime.GraphMemoryFacts
import CuMetal.Runtime.RegistrationFacts
import CuMetal.Driver.SymbolIndices
import CuMetal.Driver.MemoryOrder
import CuMetal.Ptx.DeviceHeapFacts
import CuMetal.Ptx.LaunchFacts
import CuMetal.Metal.Shuffle
import CuMetal.Metal.IntegerConvert
import CuMetal.Metal.Comparison
import CuMetal.Metal.AnalyzeCfg
import CuMetal.Metal.AddressSpaces
import CuMetal.Driver.ModuleLifetimes
import CuMetal.Runtime.GraphUpdate
import CuMetal.Runtime.GraphInstances
import CuMetal.Runtime.CaptureStates
import CuMetal.Ir.AggregateFacts
import CuMetal.Ir.MemoryAddressFacts
import CuMetal.Runtime.PrintfArguments
import CuMetal.Runtime.MetadataRoundTrip
import CuMetal.Runtime.ResidencyFacts
import CuMetal.Runtime.UserObjectFacts
import CuMetal.Runtime.ArrayFacts
import CuMetal.Runtime.ChildArguments
import CuMetal.Metal.PrunedFunctions
import CuMetal.Metal.WeakCasSerial
import CuMetal.Runtime.TicketFacts
import CuMetal.Cumetalc.StubNames
import CuMetal.Ir.QualityOrder
import CuMetal.Runtime.SlicedLaunch
import CuMetal.Ptx.EmittedBlocks
import CuMetal.Runtime.BatchedGemm
import CuMetal.Driver.MemoryBounds
import CuMetal.Runtime.TriangularSolve
import CuMetal.Lib.BarrierRounds
import CuMetal.Runtime.BlockScan
