/-!
# Words

Whatever is kept in memory is counted and indexed by signed words of 64
bits.
-/

namespace Worksheet

def FitsWord (n : Int) : Prop :=
  -9223372036854775808 ≤ n ∧ n < 9223372036854775808

instance (n : Int) : Decidable (FitsWord n) :=
  inferInstanceAs (Decidable (_ ∧ _))

end Worksheet
