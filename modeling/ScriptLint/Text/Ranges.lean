import ScriptLint.Text.Bytes

namespace ScriptLint

namespace Text

abbrev Ranges := List (Nat × Nat)

def Ranges.mem (ranges : Ranges) (c : Char) : Bool :=
  ranges.any fun (low, high) => low ≤ c.toNat && c.toNat ≤ high

end Text

end ScriptLint
