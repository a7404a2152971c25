import LogicChip.Proofs.Assembly.Composition
import LogicChip.Proofs.Assembly.ProgramText
import LogicChip.Proofs.Constant.Remainder
import LogicChip.Proofs.Generator.Replay
import LogicChip.Proofs.Generator.Resumption
import LogicChip.Proofs.Generator.Subtractive
import LogicChip.Proofs.Machine.Population
import LogicChip.Proofs.Operation.Expression
import LogicChip.Proofs.Operation.Packing
import LogicChip.Proofs.Wire.Restoration
import LogicChip.Proofs.Constant.Collision
import LogicChip.Proofs.Operation.Check
import LogicChip.Proofs.Instruction.Refusal
import LogicChip.Proofs.Assembly.Grammar
import LogicChip.Proofs.Operation.PackedText
import LogicChip.Proofs.Assembly.Spacing
import LogicChip.Proofs.Assembly.OperandLine
import LogicChip.Proofs.Assembly.TokenValue
import LogicChip.Proofs.Assembly.ConstantOperand
import LogicChip.Proofs.Long.CheckedField
import LogicChip.Proofs.Operation.UnsignedShift
import LogicChip.Proofs.Wire.FieldBytes
import LogicChip.Proofs.Binary64.Place
import LogicChip.Proofs.Operation.Modulus
import LogicChip.Proofs.Operation.Approximation
import LogicChip.Proofs.Long.CheckedLowWord
