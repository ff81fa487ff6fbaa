/-
The program: its arguments, its files and what it prints.
-/
import StyleInliner.CommandLine

namespace StyleInliner

/-- The reason that the system gave, in words and as a number. -/
def FileError.ofSystem : IO.Error → FileError
  | .alreadyExists _ code reason => refused reason code.toNat
  | .otherError code reason => refused reason code.toNat
  | .resourceBusy code reason => refused reason code.toNat
  | .resourceVanished code reason => refused reason code.toNat
  | .unsupportedOperation code reason => refused reason code.toNat
  | .hardwareFault code reason => refused reason code.toNat
  | .unsatisfiedConstraints code reason => refused reason code.toNat
  | .illegalOperation code reason => refused reason code.toNat
  | .protocolError code reason => refused reason code.toNat
  | .timeExpired code reason => refused reason code.toNat
  | .interrupted _ code reason => refused reason code.toNat
  | .noFileOrDirectory _ code reason => refused reason code.toNat
  | .invalidArgument _ code reason => refused reason code.toNat
  | .permissionDenied _ code reason => refused reason code.toNat
  | .resourceExhausted _ code reason => refused reason code.toNat
  | .inappropriateType _ code reason => refused reason code.toNat
  | .noSuchThing _ code reason => refused reason code.toNat
  | .unexpectedEof => refused "unexpected end of file" 0
  | .userError reason => refused reason 0

/-- The files of the system. -/
def systemFiles : Files IO where
  read path := do
    try return .ok (← IO.FS.readBinFile path) catch e => return .error (.ofSystem e)
  write path text := do
    try return .ok (← IO.FS.writeFile path text) catch e => return .error (.ofSystem e)

end StyleInliner

/-- Runs the command line. -/
def main (arguments : List String) : IO UInt32 := do
  let ending ← StyleInliner.runCommand StyleInliner.systemFiles arguments
  IO.print ending.output
  IO.eprint ending.errors
  return ending.code.toUInt32
