import DebRelease.Proofs.Manifest.CrashSafety
import DebRelease.Proofs.Manifest.Versioned

namespace DebRelease.Manifest.Guard

open FileTree

variable {σ : Type} {cwd : WorkingDir} {manifest : Path} {version : String} {s after : Session σ} {g : Guard}
    {content : Bytes}

end DebRelease.Manifest.Guard
