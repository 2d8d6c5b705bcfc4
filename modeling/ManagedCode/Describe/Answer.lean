import ManagedCode.Describe.Type
import ManagedCode.Machine.Fault

/-!
# Descriptions of answers

The answer of an operation that can fail: its value under `ok`, or the name and the
text of its fault.
-/

namespace ManagedCode

namespace Document

/-- The answer of an operation that has succeeded. -/
def ok [Describe α] (a : α) : Document :=
  record [("ok", a)]

/-- A fault by its name and its text. -/
def fault (name message : String) : Document :=
  record [("error", name), ("message", message)]

end Document

instance : Describe BuildError := ⟨fun e => .fault e.kind e.message⟩

instance : Describe EmitError := ⟨fun e => describe (BuildError.emission e)⟩

instance : Describe AttributeError := ⟨fun e => describe (BuildError.attributeFault e)⟩

instance [Describe ε] [Describe α] : Describe (Except ε α) where
  describe
    | .ok a => .ok a
    | .error e => describe e

end ManagedCode
