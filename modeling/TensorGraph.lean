import TensorGraph.Main
import TensorGraph.Proofs.Graph.Refusal
import TensorGraph.Proofs.Graph.Undo
import TensorGraph.Proofs.Load.Grouping
import TensorGraph.Proofs.Load.Lent
import TensorGraph.Proofs.Load.Reading
import TensorGraph.Proofs.Load.Relocation
import TensorGraph.Proofs.Load.Ownership
import TensorGraph.Proofs.Load.Reordering
import TensorGraph.Proofs.Load.Results
import TensorGraph.Proofs.Load.Shadowing
import TensorGraph.Proofs.Load.FirstFailure
import TensorGraph.Proofs.Lowering.Attributes
import TensorGraph.Proofs.Lowering.Frame
import TensorGraph.Proofs.Lowering.GlobalPooling
import TensorGraph.Proofs.Lowering.Squeeze
import TensorGraph.Proofs.Lowering.Sum
import TensorGraph.Proofs.Lowering.Supported
import TensorGraph.Proofs.Meaning.Convolution
import TensorGraph.Proofs.Meaning.Product
import TensorGraph.Proofs.Onnx.Format
import TensorGraph.Proofs.Onnx.Schema
import TensorGraph.Proofs.Lowering.Target
import TensorGraph.Proofs.Tensor.Transposition
