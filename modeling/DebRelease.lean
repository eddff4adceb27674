import DebRelease.Main
import DebRelease.Proofs.Checksum.Distinct
import DebRelease.Proofs.FileTree.FailedMove
import DebRelease.Proofs.Manifest.AllOrNothing
import DebRelease.Proofs.Manifest.CrashSafety
import DebRelease.Proofs.Manifest.Interleaving
import DebRelease.Proofs.Manifest.SetVersion
import DebRelease.Proofs.Program.ExitCode
import DebRelease.Proofs.Run.Footprint
import DebRelease.Proofs.Run.Packaging
import DebRelease.Proofs.ReleaseFile.Overlay
import DebRelease.Proofs.Run.Stale
import DebRelease.Proofs.Run.Verbosity
import DebRelease.Proofs.Path.Lexical
import DebRelease.Proofs.Config.Normal
import DebRelease.Proofs.Run.Precedence
import DebRelease.Proofs.Checksum.Artifacts
import DebRelease.Proofs.Tool.Pipe
