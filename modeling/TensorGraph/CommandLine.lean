import TensorGraph.Load.Loader
import TensorGraph.Graph.Text

/-! # Command line

The program takes the path of a model, loads the model into a graph named for the path, and writes
the versions of the model and the listing of the graph. -/

namespace TensorGraph.CommandLine

/-- What a run writes, and its exit code. -/
structure Report where
  code : UInt32
  output : String := ""
  /-- The line that tells why the run failed. -/
  error : Option String := none
  deriving DecidableEq

/-- The exit code of a run that ends without a `Report`: no path is given, or a fault occurs. -/
def abortCode : UInt32 := 101

/-- The line for a load error: its `LoadError.category` and `LoadError.message`. -/
def errorLine (e : LoadError) : String := s!"{e.category.text} error: {e.message}"

/-- The text for a loaded model. -/
def summary (m : Loaded) (g : Graph) : Except GraphError String := do
  let listing ← g.listing
  let head := s!"ir_version {m.irVersion.toInt}, opset {m.opsetVersion.toInt}, "
  return head ++ s!"{m.outputs.length} outputs\n" ++ listing

/-- The `Report` of a run that fails: its `errorLine`, or nothing but `abortCode` where the failure
is a fault. -/
def failed (e : LoadError) : Report :=
  if e.isFault then { code := abortCode } else { code := 1, error := some (errorLine e) }

/-- The `Report` on the model at a path. -/
def report (path : String) (file : File) : Report :=
  match loadFile .standalone path file (Graph.empty path) with
  | (.error e, _) => failed e
  | (.ok m, g) =>
    match summary m g with
    | .ok output => { code := 0, output }
    | .error e => failed (.graph e)

/-- A run with the given arguments; `openFile` gives what opening a path leads to. -/
def run (args : List String) (openFile : String → File) : Report :=
  match args with
  | [] => { code := abortCode }
  | path :: _ => report path (openFile path)

end TensorGraph.CommandLine
