import CurveEngine.Peripheral
import CurveEngine.Session
import CurveEngine.Proofs.Acceptance
import CurveEngine.Proofs.Answers
import CurveEngine.Proofs.Arithmetic
import CurveEngine.Proofs.BusAgreement
import CurveEngine.Proofs.BusyProtocol
import CurveEngine.Proofs.Cancellation
import CurveEngine.Proofs.Causes
import CurveEngine.Proofs.CheckedArithmetic
import CurveEngine.Proofs.Checks
import CurveEngine.Proofs.ClockGating
import CurveEngine.Proofs.CompressedKeys
import CurveEngine.Proofs.Confinement
import CurveEngine.Proofs.Decompression
import CurveEngine.Proofs.DegenerateValues
import CurveEngine.Proofs.Domain
import CurveEngine.Proofs.Effects
import CurveEngine.Proofs.ExactFunctions
import CurveEngine.Proofs.Faults
import CurveEngine.Proofs.GroupLaw
import CurveEngine.Proofs.Isolation
import CurveEngine.Proofs.KeyAgreement
import CurveEngine.Proofs.KeyPairs
import CurveEngine.Proofs.Latency
import CurveEngine.Proofs.Lockstep
import CurveEngine.Proofs.Marshaling
import CurveEngine.Proofs.Nonces
import CurveEngine.Proofs.Outputs
import CurveEngine.Proofs.Recovery
import CurveEngine.Proofs.Refusals
import CurveEngine.Proofs.RootLadder
import CurveEngine.Proofs.SamplingRecords
import CurveEngine.Proofs.Schedule
import CurveEngine.Proofs.SignVerify
import CurveEngine.Proofs.SigningSchedule
import CurveEngine.Proofs.TwinArithmetic
import CurveEngine.Proofs.TwinPrograms
import CurveEngine.Proofs.Twins
import CurveEngine.Proofs.TwoStep
import CurveEngine.Proofs.Validation
import CurveEngine.Proofs.WakeUps
import CurveEngine.Proofs.Words
