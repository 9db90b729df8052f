import TensorGraph.CommandLine

/-! # The program -/

open TensorGraph

/-- What opening a path leads to. Directories open, but cannot be read. -/
def openPath (path : String) : IO File := do
  try
    let bytes ← IO.FS.readBinFile path
    return .opened [.piece bytes.toList]
  catch
    | .noFileOrDirectory .. => return .absent
    | .permissionDenied .. => return .absent
    | _ => return .opened [.failure]

def main (args : List String) : IO UInt32 := do
  let file ← match args with
    | [] => pure File.absent
    | path :: _ => openPath path
  let report := CommandLine.run args fun _ => file
  IO.print report.output
  match report.error with
  | some line => IO.eprintln line
  | none => if args.isEmpty then IO.eprintln "No input file provided"
  return report.code
