import LateBinding.Machine.Run
import LateBinding.Main
import LateBinding.Module.Builder
import LateBinding.Proofs.Codec.Built
import LateBinding.Proofs.Codec.Diagnosis
import LateBinding.Proofs.Codec.Truncation
import LateBinding.Proofs.Files.Extension
import LateBinding.Proofs.Machine.Footprint
import LateBinding.Proofs.Machine.Limits
import LateBinding.Proofs.Machine.Safety
import LateBinding.Proofs.Module.PoolCalls
import LateBinding.Proofs.Module.Stability
import LateBinding.Proofs.Registry.Refusal
import LateBinding.Proofs.Session.Chain
import LateBinding.Proofs.Session.Executions
import LateBinding.Proofs.Session.Failures
import LateBinding.Proofs.Session.Memoization
import LateBinding.Proofs.Threads.Race
import LateBinding.Proofs.Threads.Registration
import LateBinding.Proofs.Weaving.SecondPass
import LateBinding.Proofs.Weaving.Splicing
import LateBinding.Proofs.Weaving.TwoKinds
