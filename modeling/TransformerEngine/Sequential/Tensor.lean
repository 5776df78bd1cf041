import Mathlib.Data.List.Basic

namespace transformer_engine.sequential

/-- The `torch.dtype`s the training path distinguishes. -/
inductive TorchDType where
  | uint8 | int8 | int16 | int32 | int64 | float16 | bfloat16 | float32 | float64 | bool
  deriving DecidableEq, Repr

/-- `dtype.itemsize`: the bytes of one element. -/
def TorchDType.itemsize : TorchDType → Nat
  | .uint8 | .int8 | .bool => 1
  | .int16 | .float16 | .bfloat16 => 2
  | .int32 | .float32 => 4
  | .int64 | .float64 => 8

/-- A contiguous `torch.Tensor`: its element type, its shape and its raw bytes. -/
structure TorchTensor where
  dtype : TorchDType
  shape : List Nat
  bytes : List UInt8
  deriving DecidableEq, Repr

/-- `t.view(dtype)` (torch, not under src/) of a contiguous `t`: the bytes reinterpreted, the
last dimension rescaled by the ratio of the item sizes. To another item size torch raises
`RuntimeError` on a 0-dimensional tensor and, to a larger one, when the last dimension's bytes
are not a multiple of the new item size. -/
def TorchTensor.view (t : TorchTensor) (dtype : TorchDType) : Except String TorchTensor :=
  if t.dtype.itemsize = dtype.itemsize then .ok { t with dtype := dtype }
  else
    match t.shape.getLast? with
    | none => .error "RuntimeError"
    | some n =>
      if n * t.dtype.itemsize % dtype.itemsize = 0 then
        .ok ⟨dtype, t.shape.dropLast ++ [n * t.dtype.itemsize / dtype.itemsize], t.bytes⟩
      else .error "RuntimeError"

/-- Transformer Engine's `DType`. -/
inductive DType where
  | Byte | Int32 | Int64 | Float32 | Float16 | BFloat16 | Float8E4M3 | Float8E5M2
  deriving DecidableEq, Repr

/-- An `nvte.Tensor`: the data with its FP8 scaling metadata. -/
structure NvteTensor where
  dtype : DType
  data : TorchTensor
  amax : TorchTensor
  scale : TorchTensor
  scale_inv : TorchTensor
  deriving DecidableEq, Repr

/-- Modelled from the spec: `nvte.is_fp8` (not under src/) holds of the two 8-bit
floating point formats. -/
def is_fp8 (t : NvteTensor) : Bool := t.dtype == .Float8E4M3 || t.dtype == .Float8E5M2

/-- `torch.Tensor().cuda()`: an empty one-dimensional tensor of the default dtype. -/
def empty_tensor : TorchTensor := ⟨.float32, [0], []⟩

/-- `make_nvte_tensor(t)`; `torch_to_te_dtype` lives in `nvte/dtype.py`, not under src/. -/
def make_nvte_tensor (torch_to_te_dtype : TorchDType → DType) (t : TorchTensor) : NvteTensor :=
  ⟨torch_to_te_dtype t.dtype, t, empty_tensor, empty_tensor, empty_tensor⟩

/-- `SQUISH_TABLE`, in the order of its items. -/
def SQUISH_TABLE : List (TorchDType × TorchDType) :=
  [(.int8, .float16), (.bfloat16, .float32), (.float32, .float64)]

/-- `UNSQUISH_TABLE = {v: k for k, v in SQUISH_TABLE.items()}`. -/
def UNSQUISH_TABLE : List (TorchDType × TorchDType) := SQUISH_TABLE.map fun p => (p.2, p.1)

/-- `_squish(t)`: `t.data.view` to the wider dtype `SQUISH_TABLE` maps to. -/
def _squish (t : TorchTensor) : Except String TorchTensor :=
  match SQUISH_TABLE.lookup t.dtype with
  | some d => t.view d
  | none => .error "Invalid dtype of gradient for FP8 tensor."

/-- `_unsquish(t)`: the `assert t.data.dtype in UNSQUISH_TABLE`, then the view back. -/
def _unsquish (t : TorchTensor) : Except String TorchTensor :=
  match UNSQUISH_TABLE.lookup t.dtype with
  | some d => t.view d
  | none => .error "AssertionError"

end transformer_engine.sequential
