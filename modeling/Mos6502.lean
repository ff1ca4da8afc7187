import Mos6502.Directory
import Mos6502.Main
import Mos6502.Proofs.Outcome
import Mos6502.Proofs.Operand
import Mos6502.Proofs.Effect
import Mos6502.Proofs.Dispatch
import Mos6502.Proofs.Step
import Mos6502.Proofs.Execute
import Mos6502.Proofs.History
import Mos6502.Proofs.Footprint
import Mos6502.Proofs.BreakFlag
import Mos6502.Proofs.LiveStack
import Mos6502.Proofs.Enclosure
import Mos6502.Proofs.Frame
import Mos6502.Proofs.Flags
import Mos6502.Proofs.Slicing
import Mos6502.Proofs.RunOutcome
import Mos6502.Proofs.Digits
import Mos6502.Proofs.StraightCode
import Mos6502.Proofs.CarryChain
import Mos6502.Proofs.ShiftChain
import Mos6502.Proofs.Faults
import Mos6502.Proofs.CycleCount
import Mos6502.Proofs.Log
import Mos6502.Proofs.Reads
import Mos6502.Proofs.NextAddress
import Mos6502.Proofs.Budget
import Mos6502.Proofs.ReadForms
import Mos6502.Proofs.SumDifference
import Mos6502.Proofs.Comparison
import Mos6502.Proofs.ModifyForms
import Mos6502.Idle
import Mos6502.Proofs.Idle
import Mos6502.Proofs.ClampedCount
import Mos6502.Proofs.RunEnds
import Mos6502.Proofs.Loading
import Mos6502.Proofs.Numeral
import Mos6502.Proofs.Arguments
