import TensorGraph.Graph.Draft
import TensorGraph.Binary32.Decimal

/-! # Graph listings

A listing has one line for the graph and one line for each node: its handle, what it computes, its
name, its operands and its result type. -/

namespace TensorGraph

open Text

/-- What a node computes, with its parameters, as `listing` shows it. -/
def NodeKind.text : NodeKind → String
  | parameter _ => "Variable"
  | transpose shuffle => "Transpose" ++ sizes shuffle
  | convolution window group =>
    s!"Convolution(kernel={window.kernel}, stride={window.stride}, " ++
      s!"pads={window.pads.text}, group={group})"
  | pool kind window =>
    s!"Pool{kind.text}(kernel={window.kernel}, stride={window.stride}, pads={window.pads.text})"
  | squeeze axes => "Squeeze" ++ sizes axes
  | expandDims axes => "ExpandDims" ++ sizes axes
  | batchNormalization channel epsilon momentum =>
    s!"BatchNormalization(channel={channel}, epsilon={epsilon.text}, momentum={momentum.text})"
  | concat axis => s!"Concat(axis={axis})"
  | matMul => "MatMul"
  | broadcast axis => s!"Broadcast(axis={axis})"
  | arithmetic op => op.text
  | unary op => op.text
  | softMax axis => s!"SoftMax(axis={axis})"
  | reshape => "Reshape"
  | save => "Save"

namespace Graph

/-- The line of a node. -/
def nodeLine (g : Graph) (id : NodeId) (node : Node) : Except GraphError String := do
  let type ← g.resolve node.type
  let operands := ", ".intercalate (node.operands.map NodeId.text)
  return s!"  {id.text} = {node.kind.text} \"{node.name}\" ({operands}) : {type.text}\n"

/-- The listing of a graph: a `nodeLine` for each node. -/
def listing (g : Graph) : Except GraphError String := do
  let lines ← g.entries.mapM fun (id, node) => g.nodeLine id node
  return s!"graph {g.name} ({g.nodes.length} nodes)\n" ++ String.join lines

end Graph
end TensorGraph
