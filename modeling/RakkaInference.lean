import RakkaInference.Machine.Runs
import RakkaInference.Machine.Words
import RakkaInference.Machine.MaxBag
import RakkaInference.Machine.Ledger
import RakkaInference.Machine.Slots
import RakkaInference.Machine.Endings
import RakkaInference.Machine.Slices
import RakkaInference.Machine.Radix
import RakkaInference.Machine.Packing
import RakkaInference.Machine.Loops
import RakkaInference.Machine.Shares
import RakkaInference.Machine.Chunks
import RakkaInference.Machine.Least
import RakkaInference.Machine.Pattern
import RakkaInference.Machine.Text
import RakkaInference.Machine.Drain
import RakkaInference.Machine.Logs
import RakkaInference.Machine.Decimal
import RakkaInference.Machine.Latest
import RakkaInference.Machine.Quoted
import RakkaInference.Machine.Woven
import RakkaInference.Machine.Once
import RakkaInference.Machine.Replace
import RakkaInference.Machine.PrefixCode
import RakkaInference.Machine.Results
import RakkaInference.Machine.Rounding
import RakkaInference.Machine.Floats
import RakkaInference.Machine.Records
import RakkaInference.Core.Error
import RakkaInference.Core.Request
import RakkaInference.Core.Tokens
import RakkaInference.Core.ErrorWire
import RakkaInference.Core.Base64
import RakkaInference.Core.Deployment
import RakkaInference.Core.Audio
import RakkaInference.Core.Records
import RakkaInference.Core.Wire
import RakkaInference.Remote.CircuitBreaker
import RakkaInference.Remote.BreakerRuns
import RakkaInference.Remote.BreakerPeriod
import RakkaInference.Remote.BreakerOpening
import RakkaInference.Remote.BreakerProbes
import RakkaInference.Remote.BreakerOverride
import RakkaInference.Remote.BreakerRetryAt
import RakkaInference.Remote.Queue
import RakkaInference.Remote.QueueOrder
import RakkaInference.Remote.Engine
import RakkaInference.Remote.EngineAccounts
import RakkaInference.Remote.EnginePool
import RakkaInference.Remote.EngineTally
import RakkaInference.Remote.RateLimit
import RakkaInference.Remote.RateWindow
import RakkaInference.Remote.RateCluster
import RakkaInference.Remote.Backoff
import RakkaInference.Remote.Retry
import RakkaInference.Remote.Worker
import RakkaInference.Remote.WorkerTrace
import RakkaInference.Remote.WorkerOutput
import RakkaInference.Remote.WorkerPool
import RakkaInference.Remote.PoolGates
import RakkaInference.Remote.BackoffLaw
import RakkaInference.Remote.EngineDrain
import RakkaInference.Remote.Session
import RakkaInference.Remote.PolicyWire
import RakkaInference.Providers.Prompts
import RakkaInference.Providers.Sse
import RakkaInference.Providers.Anthropic
import RakkaInference.Providers.OpenAi
import RakkaInference.Providers.Gemini
import RakkaInference.Providers.Refusals
import RakkaInference.Providers.Attempts
import RakkaInference.Speech.Downlink
import RakkaInference.Speech.Transcripts
import RakkaInference.Speech.Wav
import RakkaInference.Speech.Verbose
import RakkaInference.Speech.ElevenLabs
import RakkaInference.Speech.Rechunk
import RakkaInference.Speech.Transcribe
import RakkaInference.Speech.TranscribeLaw
import RakkaInference.Speech.TranscribeDrain
import RakkaInference.Speech.Synthesis
import RakkaInference.Speech.Whisper
import RakkaInference.Realtime.Coalesce
import RakkaInference.Realtime.OpenAi
import RakkaInference.Realtime.GeminiLive
import RakkaInference.Realtime.Terminal
import RakkaInference.Realtime.Keepalive
import RakkaInference.Realtime.Reconnect
import RakkaInference.Realtime.Relay
import RakkaInference.Runtime.Request
import RakkaInference.Runtime.Metrics
import RakkaInference.Runtime.Vllm
import RakkaInference.Runtime.Forward
import RakkaInference.Runtime.EngineCore
import RakkaInference.Runtime.AudioEngines
import RakkaInference.Runtime.RealtimeEngine
import RakkaInference.Runtime.DpCoordinator
import RakkaInference.Runtime.Worker
import RakkaInference.Runtime.Catalog
import RakkaInference.Runtime.Placement
import RakkaInference.Runtime.DeploymentWire
import RakkaInference.Runtime.Boot
import RakkaInference.Runtime.LocalRunners
import RakkaInference.Runtime.Gateway
import RakkaInference.Ort.Tensors
import RakkaInference.Ort.Generate
import RakkaInference.Ort.Stops
import RakkaInference.Ort.Text
import RakkaInference.Ort.Cache
import RakkaInference.Ort.Topology
import RakkaInference.Ort.KvPairing
import RakkaInference.Ort.Sampling
import RakkaInference.Ort.SamplingLaw
import RakkaInference.Ort.Front
import RakkaInference.Xtask.Release
import RakkaInference.Xtask.ReleaseRead
import RakkaInference.Xtask.ReleaseLaw
import RakkaInference.Xtask.Audit
import RakkaInference.Xtask.AuditBaseline
import RakkaInference.Xtask.AuditScan
import RakkaInference.Xtask.Bump
import RakkaInference.Xtask.BumpLines
import RakkaInference.Xtask.BumpLaw
