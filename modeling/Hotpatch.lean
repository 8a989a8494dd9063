import Hotpatch.Session
import Hotpatch.Proofs.Disassembly.RoundTrip
import Hotpatch.Proofs.Disassembly.Shortest
import Hotpatch.Proofs.Disassembly.Sled
import Hotpatch.Proofs.Stub.Trampoline
import Hotpatch.Proofs.Stub.Placeholders
import Hotpatch.Proofs.Patching.Overlay
import Hotpatch.Proofs.Ownership.Run
import Hotpatch.Proofs.Atomicity.Run
import Hotpatch.Proofs.Branching.Run
import Hotpatch.Proofs.Sizing.Prediction
import Hotpatch.Proofs.Encoding.Acceptance
import Hotpatch.Proofs.Bracketing.Run
import Hotpatch.Proofs.Generation.Run
import Hotpatch.Proofs.Resolving.Run
import Hotpatch.Proofs.Resolving.Failures
import Hotpatch.Proofs.Reach.Run
import Hotpatch.Proofs.Patching.Redundant
import Hotpatch.Proofs.Protections.Run
import Hotpatch.Proofs.Loading.Stability
import Hotpatch.Proofs.Loading.OwnPath
import Hotpatch.Proofs.Reach.Moved
import Hotpatch.Proofs.Access.Run
import Hotpatch.Proofs.Stub.Run
