import PagedIndex.Workload.Duration
import PagedIndex.Workload.Run
import PagedIndex.Workload.Usage

namespace PagedIndex.Main

open Workload

def ioError : IO.Error → IoError
  | .noFileOrDirectory .. => .notFound
  | .permissionDenied .. => .permissionDenied
  | .inappropriateType _ 21 _ => .isDirectory
  | .inappropriateType _ 20 _ => .notDirectory
  | .invalidArgument _ 36 _ => .nameTooLong
  | .invalidArgument _ 22 _ => .invalidArgument
  | e => .other (toString e)

-- A file keeps what is written to it only if its length can be set.
def emptyStore (path : String) : IO Backing := do
  try
    (← IO.FS.Handle.mk path .readWrite).truncate
    return .file .empty
  catch _ => return .null .device

def createFile (path : String) : IO (Except IoError Backing) := do
  try
    IO.FS.writeBinFile path .empty
    return .ok (← emptyStore path)
  catch e => return .error (ioError e)

-- Warnings are always shown, the rest on request.
def reportEvent (debug : Bool) (e : Event) : IO Unit :=
  if debug || e.level == .warn then IO.eprintln e.line else pure ()

def console (debug : Bool) : Console IO where
  say := IO.println
  report := reportEvent debug
  now := IO.monoNanosNow
  elapsed start := return describeDuration ((← IO.monoNanosNow) - start)
  createFile := createFile
  randomSeed := return UInt64.ofNat (← IO.rand 0 (UInt64.size - 1))

-- The bytes of a file, from its first block on.
def contents (f : ByteFile) : ByteArray :=
  (f.length / pageSize).fold (fun n _ bytes => bytes ++ ⟨(f.block n).bytes.toArray⟩) .empty

def saveFile (o : Options) (store : Backing) : IO Unit :=
  match o.dataFile?, store with
  | some path, .file store => IO.FS.writeBinFile path (contents store.file)
  | _, _ => pure ()

def runWorkload (o : Options) : IO UInt32 := do
  let ending ← run (console o.debug) o
  saveFile o ending.store
  ending.errorLines.forM IO.eprintln
  return ending.code.toUInt32

end PagedIndex.Main

def main (args : List String) : IO UInt32 := do
  match PagedIndex.Workload.readArguments args with
  | .run options => PagedIndex.Main.runWorkload options
  | .help =>
    PagedIndex.Workload.usageLines.forM IO.println
    return 0
  | .version =>
    IO.println PagedIndex.Workload.versionLine
    return 0
  | .misuse =>
    IO.eprintln "error: the arguments were not understood; for more, try --help"
    return 2
