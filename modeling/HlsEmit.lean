import HlsEmit.Construction.Script
import HlsEmit.Json.Parse
import HlsEmit.Main
import HlsEmit.Proofs.AcceleratorCalls
import HlsEmit.Proofs.Accesses
import HlsEmit.Proofs.AffineChain
import HlsEmit.Proofs.AffineCondition
import HlsEmit.Proofs.AffineDivision
import HlsEmit.Proofs.AffineInputs
import HlsEmit.Proofs.Banks
import HlsEmit.Proofs.Construction
import HlsEmit.Proofs.Dangling
import HlsEmit.Proofs.DeclareOnce
import HlsEmit.Proofs.Elementwise.Program
import HlsEmit.Proofs.Formatting
import HlsEmit.Proofs.InRange
import HlsEmit.Proofs.Includes
import HlsEmit.Proofs.Indentation
import HlsEmit.Proofs.Independence
import HlsEmit.Proofs.Interfaces
import HlsEmit.Proofs.Metadata
import HlsEmit.Proofs.NameCalls
import HlsEmit.Proofs.Placement
import HlsEmit.Proofs.Preservation
import HlsEmit.Proofs.Rejection
import HlsEmit.Proofs.Reprint
import HlsEmit.Proofs.RoundTrip
import HlsEmit.Proofs.Runs
import HlsEmit.Proofs.Schedule
import HlsEmit.Proofs.Signatures
import HlsEmit.Proofs.Structure
import HlsEmit.Proofs.Substitution
