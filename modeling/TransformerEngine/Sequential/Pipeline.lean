import TransformerEngine.Sequential.Unit
import TransformerEngine.Sequential.Split.Coverage

namespace transformer_engine.sequential

variable {α : Type}

/-- The `mode` argument of `get_fused_op_list`. -/
inductive Mode where
  | inference | forward | backward
  deriving DecidableEq, Repr

/-- A `ComputePipeline`: the fused inference list and the self-contained units. -/
structure ComputePipeline (α : Type) where
  _inf : List (Item α)
  functions : List (SelfContainedOp α)

namespace ComputePipeline

/-- `ComputePipeline.__init__` on the ops after `copy_op_list` and `name_ops`.
`get_fused_op_list` (the `fusions` module) is not under src/; `force_use_bf16` retypes
attributes the model does not hold; `model_parallel_transform` always raises. A pop
from an empty list in `split_into_self_contained` is an `IndexError`. -/
def init [DecidableEq α] (get_fused_op_list : List α → Mode → List (Item α)) (world_size : Nat)
    (ops : List α) : Except String (ComputePipeline α) :=
  if world_size > 1 then .error "NotImplementedError"
  else
    match split_into_self_contained (get_fused_op_list ops .forward)
        (get_fused_op_list ops .backward) with
    | some functions => .ok ⟨get_fused_op_list ops .inference, functions⟩
    | none => .error "IndexError"

/-- `self.forward = tuple(op for f in self.functions for op in f.fwds)`. -/
def forward (p : ComputePipeline α) : List (Item α) := p.functions.flatMap SelfContainedOp.fwds

/-- `self.backward = tuple(op for f in self.functions for op in f.bwds)`. -/
def backward (p : ComputePipeline α) : List (Item α) := p.functions.flatMap SelfContainedOp.bwds

/-- `run_inference(x)`: `x = op.inference(x)` over the fused inference list. -/
def run_inference {X V : Type} (be : Backend α X V) (p : ComputePipeline α) (x : X) : X :=
  p._inf.foldl (fun x op => be.inference op x) x

end ComputePipeline

end transformer_engine.sequential
