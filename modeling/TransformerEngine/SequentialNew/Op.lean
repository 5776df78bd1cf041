import Mathlib.Data.List.Basic
import TransformerEngine.Except

namespace transformer_engine.sequential_new

/-- `PType`: how a tensor is spread over the distributed group (`enums` is not under
src/; these are the members `ops.py` names). -/
inductive PType where
  | NA | NRS | NCS | PA
  deriving DecidableEq, Repr

/-- `Parallelism = tuple[PType, PType]`: the layout of the input and of the output. -/
abbrev Parallelism := PType × PType

namespace ParallelismClass

def NORMAL : Parallelism := (.NA, .NA)
def ROWP : Parallelism := (.NRS, .NRS)
def COLP : Parallelism := (.NCS, .NCS)
def CGEMM : Parallelism := (.NA, .NCS)
def RGEMM : Parallelism := (.NCS, .PA)
def S : Parallelism := (.NA, .NRS)
def RS : Parallelism := (.PA, .NRS)
def AG : Parallelism := (.NRS, .NA)
def AR : Parallelism := (.PA, .NA)

end ParallelismClass

/-- A parameter initializer: `f.zeros`, `f.ones`, or an `init_method` given to the op. -/
inductive ParamInitializer where
  | zeros | ones | method (k : Nat)
  deriving DecidableEq, Repr

/-- A `TensorDescriptor(shape, initializer, dtype)`; `none` is the `None` initializer of
a write-only tensor. -/
structure TensorDescriptor (D : Type) where
  shape : List Nat
  init : Option ParamInitializer
  dtype : D
  deriving DecidableEq, Repr

/-- The tensor attributes the ops declare and read by name. -/
inductive Field where
  | act | mu | rsigma | weight | weight_grad | bias | bias_grad | weight_t | x_t
  | fwd_residue | bwd_residue
  deriving DecidableEq, Repr

/-- The op classes with a training protocol, with their constructor arguments. A
`ResidualBegin` names its `end` and a `ResidualEnd` its `begin` by instance. -/
inductive OpKind (D : Type) where
  | Identity
  | Transpose
  | LayerNorm (param_type : D) (features : Nat) (zero_centered_gamma : Bool)
  | Gemm (param_dtype : D) (in_features out_features : Nat) (init_method : Nat)
  | Bias (param_dtype : D) (features : Nat) (init_method : Nat)
  | ResidualBegin (end_ : Option Nat)
  | ResidualEnd (begin : Nat)
  | Dropout
  | Gelu
  | Relu
  | Cast
  | Scatter
  | ReduceScatter
  | AllGather
  | AllReduce
  deriving DecidableEq, Repr

/-- An `Op` after type inference: its instance, its class, its types, and the attributes
`set_environment`, `set_parallelism` and `set_input_shape` set (`none` is `Unset`; a
`dist_group_size` of `some none` is an op outside any distributed group). -/
structure Op (D : Type) where
  id : Nat
  kind : OpKind D
  input_type : D
  output_type : D
  dist_group_size? : Option (Option Nat)
  parallellism? : Option Parallelism
  input_shape? : Option (List Nat)
  deriving DecidableEq, Repr

variable {D : Type}

namespace Op

/-- The `dist_group_size` property. -/
def dist_group_size (op : Op D) : Except String Nat :=
  match op.dist_group_size? with
  | none => .error "AssertionError"
  | some none => .error "Operation is not distributed, but distributed group size is requested"
  | some (some n) => .ok n

/-- The `parallellism` property. -/
def parallellism (op : Op D) : Except String Parallelism :=
  match op.parallellism? with
  | none => .error "AssertionError"
  | some p => .ok p

/-- The `input_shape` property. -/
def input_shape (op : Op D) : Except String (List Nat) :=
  match op.input_shape? with
  | none => .error "AssertionError"
  | some s => .ok s

end Op

/-- `shape[-k]`. -/
def neg_index (shape : List Nat) (k : Nat) : Except String Nat :=
  if k ≤ shape.length ∧ 0 < k then .ok (shape.getD (shape.length - k) 0) else .error "IndexError"

/-- The split in `_pre_describe_tensors`: check that `workers` divides the feature count,
then `//=` it. -/
def split_features (features workers : Nat) (msg : String) : Except String Nat :=
  if workers = 0 then .error "ZeroDivisionError"
  else if features % workers ≠ 0 then .error msg
  else .ok (features / workers)

namespace Op

/-- `_pre_describe_tensors()`: `Gemm` and `Bias` split their feature counts over the
group; every other op here is an `EnvObliviousOp` and does nothing. -/
def _pre_describe_tensors (op : Op D) : Except String (Op D) :=
  match op.kind with
  | .Gemm param_dtype in_features out_features init_method => do
    let p ← op.parallellism
    if p ∉ [ParallelismClass.NORMAL, ParallelismClass.RGEMM, ParallelismClass.CGEMM] then
      throw "AssertionError"
    let workers ← if p ∈ [ParallelismClass.RGEMM, ParallelismClass.CGEMM] then op.dist_group_size
      else pure 1
    if p = ParallelismClass.RGEMM then
      let n ← split_features in_features workers
        "Number of input features must be divisible by the distributed group size"
      pure { op with kind := .Gemm param_dtype n out_features init_method }
    else if p = ParallelismClass.CGEMM then
      let n ← split_features out_features workers
        "Number of output features must be divisible by the distributed group size"
      pure { op with kind := .Gemm param_dtype in_features n init_method }
    else pure op
  | .Bias param_dtype features init_method => do
    let p ← op.parallellism
    if p ∉ [ParallelismClass.NORMAL, ParallelismClass.ROWP, ParallelismClass.COLP] then
      throw "AssertionError"
    let workers ← if p = ParallelismClass.COLP then op.dist_group_size else pure 1
    let n ← split_features features workers
      "Number of features must be divisible by the distributed group size"
    pure { op with kind := .Bias param_dtype n init_method }
  | _ => pure op

/-- `set_input_shape(input_shape)`. -/
def set_input_shape (op : Op D) (input_shape : List Nat) : Except String (Op D) :=
  _pre_describe_tensors { op with input_shape? := some input_shape }

/-- `describe_params()`. -/
def describe_params (op : Op D) : List (Field × TensorDescriptor D) :=
  match op.kind with
  | .LayerNorm param_type features zero_centered_gamma =>
    [(.weight, ⟨[features], some (if zero_centered_gamma then .zeros else .ones), param_type⟩),
      (.bias, ⟨[features], some .zeros, param_type⟩)]
  | .Gemm param_dtype in_features out_features init_method =>
    [(.weight, ⟨[in_features, out_features], some (.method init_method), param_dtype⟩)]
  | .Bias param_dtype features init_method =>
    [(.bias, ⟨[features], some (.method init_method), param_dtype⟩)]
  | _ => []

/-- `row_split_shape(shape, workers)`. -/
def row_split_shape (shape : List Nat) (workers : Nat) : Except String (List Nat) := do
  if shape.length < 2 then throw "AssertionError"
  let rows ← neg_index shape 2
  let cols ← neg_index shape 1
  if workers = 0 then throw "ZeroDivisionError"
  if rows % workers ≠ 0 then throw "AssertionError"
  pure (shape.take (shape.length - 2) ++ [rows / workers, cols])

/-- `row_merge_shape(shape, workers)`. -/
def row_merge_shape (shape : List Nat) (workers : Nat) : Except String (List Nat) := do
  if shape.length < 2 then throw "AssertionError"
  let rows ← neg_index shape 2
  let cols ← neg_index shape 1
  pure (shape.take (shape.length - 2) ++ [rows * workers, cols])

/-- `describe_activation_shape()` (`_act_shape()` of `Transpose` and `Gemm`). -/
def describe_activation_shape (op : Op D) : Except String (List Nat) := do
  let s ← op.input_shape
  match op.kind with
  | .Transpose => do
    let last ← neg_index s 1
    let second ← neg_index s 2
    pure (s.take (s.length - 2) ++ [last, second])
  | .Gemm _ _ out_features _ => pure (s.dropLast ++ [out_features])
  | .Scatter | .ReduceScatter => row_split_shape s (← op.dist_group_size)
  | .AllGather => row_merge_shape s (← op.dist_group_size)
  | _ => pure s

/-- `describe_supplementary_tensors_training()`; `fp32` is `DType.FP32`. -/
def describe_supplementary_tensors_training (fp32 : D) (op : Op D) :
    Except String (List (Field × TensorDescriptor D)) :=
  match op.kind with
  | .Transpose => do
    let s ← op.input_shape
    let act ← op.describe_activation_shape
    pure (if s ≠ act then [(.act, ⟨act, none, op.output_type⟩)] else [])
  | .LayerNorm .. => do
    let s ← op.input_shape
    let rows ← neg_index s 2
    pure [(.act, ⟨s, none, op.output_type⟩), (.mu, ⟨[rows], none, fp32⟩),
      (.rsigma, ⟨[rows], none, fp32⟩)]
  | .Gemm param_dtype in_features out_features _ => do
    let act ← op.describe_activation_shape
    let s ← op.input_shape
    let last ← neg_index s 1
    let second ← neg_index s 2
    pure [(.act, ⟨act, none, op.output_type⟩),
      (.weight_t, ⟨[out_features, in_features], none, param_dtype⟩),
      (.x_t, ⟨[last, second], none, op.input_type⟩)]
  | .ResidualBegin _ => do pure [(.fwd_residue, ⟨← op.input_shape, none, op.input_type⟩)]
  | .ResidualEnd _ => do pure [(.bwd_residue, ⟨← op.input_shape, none, op.input_type⟩)]
  | .Gelu | .Relu => do pure [(.act, ⟨← op.input_shape, none, op.input_type⟩)]
  | .Cast => do pure [(.act, ⟨← op.input_shape, none, op.output_type⟩)]
  | .Scatter | .ReduceScatter | .AllGather | .AllReduce => do
    pure [(.act, ⟨← op.describe_activation_shape, none, op.output_type⟩)]
  | _ => pure []

/-- `describe_supplementary_tensors_inference()`. -/
def describe_supplementary_tensors_inference [DecidableEq D] (fp32 : D) (op : Op D) :
    Except String (List (Field × TensorDescriptor D)) :=
  match op.kind with
  | .Gemm .. => do
    if op.output_type ≠ op.input_type then
      pure [(.act, ⟨← op.describe_activation_shape, none, op.output_type⟩)]
    else
      let s ← op.input_shape
      let act ← op.describe_activation_shape
      pure (if s ≠ act then [(.act, ⟨act, none, op.output_type⟩)] else [])
  | .ResidualEnd _ => pure []
  | .LayerNorm .. | .Gelu | .Relu => do
    if op.output_type ≠ op.input_type then
      pure [(.act, ⟨← op.input_shape, none, op.output_type⟩)]
    else pure []
  | _ => op.describe_supplementary_tensors_training fp32

end Op

end transformer_engine.sequential_new
