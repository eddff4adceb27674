import DebRelease.Text.Bytes

namespace DebRelease.Bytes

/-- The two lower-case digits of each byte. -/
def hex (bytes : Bytes) : String :=
  String.ofList (bytes.flatMap fun b =>
    [Nat.digitChar (b.toNat / 16), Nat.digitChar (b.toNat % 16)])

end DebRelease.Bytes
