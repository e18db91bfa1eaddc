import Vllm.Proofs.Core.HashSound
import Vllm.Proofs.Engine.WaveProtocol
import Vllm.Proofs.Engine.Lora
import Vllm.Proofs.Engine.ScheduleCall
import Vllm.Proofs.Distributed.RingRun
import Vllm.Proofs.Multimodal.ShmCounts
import Vllm.Proofs.Multimodal.MirrorRun
import Vllm.Proofs.Core.Events
import Vllm.Proofs.Sched.RemoteKv
import Vllm.Proofs.Engine.InvalidBlocks
import Vllm.Proofs.Worker.SlotMapping
import Vllm.Proofs.Distributed.MultiConnector
import Vllm.Proofs.Engine.ParallelSampling
import Vllm.Proofs.Worker.LogitsState
import Vllm.Proofs.Distributed.RebalanceExecute
import Vllm.Proofs.Distributed.BroadcastFrame
import Vllm.Proofs.Multimodal.Hasher
import Vllm.Proofs.Multimodal.Inputs
import Vllm.Proofs.Sample.RejectionSampler
import Vllm.Proofs.Lora.WorkerManager
import Vllm.Proofs.Engine.FinishedInert
import Vllm.Proofs.Distributed.NixlRelease
import Vllm.Proofs.Worker.DpAgreement
import Vllm.Proofs.Core.SlidingWindowHit
import Vllm.Proofs.Attention.BatchRegions
import Vllm.Proofs.Attention.MicroBatch
import Vllm.Proofs.Attention.LocalAttention
import Vllm.Proofs.Distributed.StatelessGroup
import Vllm.Proofs.Worker.UbatchRun
import Vllm.Proofs.Core.FailedAllocation
import Vllm.Proofs.KVOffload.Protected
import Vllm.Proofs.Csrc.ScalarType
import Vllm.Proofs.Utils.Cache
import Vllm.Proofs.SpecDecode.NgramProposer
import Vllm.Proofs.Distributed.TensorMemoryPool
import Vllm.Proofs.Multimodal.Processing
import Vllm.Proofs.Distributed.EplbPolicy
import Vllm.Proofs.Core.BlockHashList
import Vllm.Proofs.Core.MaxModelLen
import Vllm.Proofs.ToolParsers.Utils
import Vllm.Proofs.SpecDecode.Eagle
import Vllm.Proofs.Reasoning.Streaming
import Vllm.Proofs.Distributed.KVEvents
import Vllm.Proofs.Attention.Mamba2Chunks
import Vllm.Proofs.Logprobs
import Vllm.Proofs.Worker.CudagraphDispatch
