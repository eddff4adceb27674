import DebRelease.Path.Basic

namespace DebRelease.SearchPath

/-- The separator `:`. -/
def colon : UInt8 := 0x3A

/-- The directories of a search path, empty ones included. -/
def split (bytes : Bytes) : List Path :=
  (Bytes.splitOn colon bytes).map Path.mk

/-- The search path with the given directories, unless a separator occurs in one of them. -/
def join? (dirs : List Path) : Option Bytes :=
  if dirs.any (·.bytes.contains colon) then none
  else some (Bytes.joinWith colon (dirs.map Path.bytes))

end DebRelease.SearchPath
