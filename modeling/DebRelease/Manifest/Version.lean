import DebRelease.Failure
import DebRelease.Json.Printer

namespace DebRelease.Manifest

/-- The manifest with its version set, every other member and the order of the members kept; it is
    printed anew. -/
def setVersion (manifest : Bytes) (version : String) : Except Failure Bytes := do
  match ← (Json.parse manifest).mapError .manifest with
  | .object members =>
    let text := Json.print (.object (Json.Members.set members "version" (.string version)))
    pure (Bytes.ofText (text ++ "\n"))
  | _ => throw (.plain "top-level value is not a JSON object")

end DebRelease.Manifest
