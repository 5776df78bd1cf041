import TransformerEngine.Sequential.Pipeline
import TransformerEngine.Sequential.Tensor
import TransformerEngine.Except

namespace transformer_engine.sequential

/-! The training path of `apply`: every unit through `ComputePipelineFunction`, an
`autograd.Function`, and back through autograd. As written it never runs a unit: `apply` first
looks up `pipeline.next_iteration`, which `ComputePipeline` does not define; each forward
rebuilds its input with a four-argument `nvte.Tensor`, whose constructor takes five; and
autograd hands each backward one gradient per output of its forward, five, where it takes
one. -/

variable {α : Type}

/-- What the training path takes from outside src/: the numeric backend, the op names
`name_ops` gave, `torch_to_te_dtype` (`nvte/dtype.py`) and `require_grad()` (inherited from
`Op`). -/
structure Runtime (α : Type) where
  backend : Backend α NvteTensor NvteTensor
  name : α → List Char
  torch_to_te_dtype : TorchDType → DType
  require_grad : SelfContainedOp α → List NvteTensor

namespace ComputePipeline

/-- Looking up an attribute `ComputePipeline` does not have: it sets `_inf`, `functions`,
`forward` and `backward` and defines `run_inference` and `__repr__`, nothing else. -/
def missing_attribute (_p : ComputePipeline α) : Except String Unit := .error "AttributeError"

/-- `pipeline.next_iteration`, which `apply` calls first. -/
def next_iteration (p : ComputePipeline α) : Except String Unit := p.missing_attribute

/-- `pipeline.meta_fwd`, which every `ForwardArgs` of `apply` is given. -/
def meta_fwd (p : ComputePipeline α) : Except String Unit := p.missing_attribute

/-- `pipeline.meta_bwd`, likewise. -/
def meta_bwd (p : ComputePipeline α) : Except String Unit := p.missing_attribute

end ComputePipeline

/-- An argument of an `nvte.Tensor(...)` call. -/
inductive TensorArg where
  | dtype (d : DType)
  | tensor (t : TorchTensor)

/-- `nvte.Tensor(*args)`: `Tensor.__init__(self, dtype, data, amax, scale, scale_inv)`
(`nvte/tensor.py`) takes the dtype and the four tensors; other arguments raise `TypeError`. -/
def nvte.Tensor : List TensorArg → Except String NvteTensor
  | [.dtype d, .tensor data, .tensor amax, .tensor scale, .tensor scale_inv] =>
    .ok ⟨d, data, amax, scale, scale_inv⟩
  | _ => .error "TypeError"

/-- Built from torch tensors alone, as `apply` and `ComputePipelineFunction.forward` build it,
an `nvte.Tensor` raises: its first argument is no dtype. -/
theorem nvte.Tensor_of_tensors (ts : List TorchTensor) :
    nvte.Tensor (ts.map .tensor) = .error "TypeError" := by
  cases ts <;> rfl

/-- A `ForwardArgs`. A `BackwardComm` is named by the number of the iteration of `apply`
that made it; every call of `apply` makes fresh ones. The FP8 meta-tensor providers come from
`pipeline.meta_fwd` and `pipeline.meta_bwd`, which raise, and are left out. -/
structure ForwardArgs (α : Type) where
  is_exposed_x_squished_now : Bool
  upcoming_backward : Option Nat
  next_upcoming_backward : Nat
  op : SelfContainedOp α

/-- The attributes `ComputePipelineFunction.forward` sets on `ctx`. -/
structure FunctionCtx (α : Type) where
  nvte_ctx : Context NvteTensor
  nvte_op : SelfContainedOp α
  nvte_squish_outgoing_dgrad : Bool
  nvte_unsquish_incoming_dgrad : Bool
  nvte_upcoming_backward_comm : Option Nat
  nvte_preceding_backward_comm : Nat

/-- `get_exposed_y(exposed_x, nvte_y)`: the history of `exposed_x` over the data of
`nvte_y`; the model keeps the data. -/
def get_exposed_y (_exposed_x : TorchTensor) (nvte_y : NvteTensor) : TorchTensor := nvte_y.data

/-- What `ComputePipelineFunction.forward` leaves: its `ctx`, the exposed output, and the
tensor `_args.op.forward` received and the one it returned. -/
structure ForwardResult (α : Type) where
  ctx : FunctionCtx α
  exposed_y : TorchTensor
  nvte_x : NvteTensor
  nvte_y : NvteTensor

/-- `ComputePipelineFunction.forward(ctx, exposed_x, *tensor_mess)`, with `_args` the
module global `apply` set. -/
def ComputePipelineFunction.forward (rt : Runtime α) (_args : ForwardArgs α)
    (exposed_x : TorchTensor) (tensor_mess : List TorchTensor) : Except String (ForwardResult α) := do
  let nvte_x ← nvte.Tensor ((tensor_mess.drop (tensor_mess.length - 4)).map .tensor)
  let r := _args.op.forward rt.backend rt.name nvte_x
  let exposed_y := get_exposed_y exposed_x r.1
  let ctx (unsquish : Bool) : FunctionCtx α :=
    ⟨r.2, _args.op, _args.is_exposed_x_squished_now, unsquish, _args.upcoming_backward,
      _args.next_upcoming_backward⟩
  if exposed_y.dtype = .int8 then
    (_squish exposed_y).map fun y => ⟨ctx true, y, nvte_x, r.1⟩
  else pure ⟨ctx false, exposed_y, nvte_x, r.1⟩

/-- Every forward of `ComputePipelineFunction` raises `TypeError` before its unit runs, whatever
it is handed: `nvte.Tensor(*tensor_mess[-4:])` passes the four tensors without the dtype. -/
theorem ComputePipelineFunction.forward_raises (rt : Runtime α) (_args : ForwardArgs α)
    (exposed_x : TorchTensor) (tensor_mess : List TorchTensor) :
    ComputePipelineFunction.forward rt _args exposed_x tensor_mess = .error "TypeError" := by
  simp only [ComputePipelineFunction.forward, nvte.Tensor_of_tensors, error_bind]

/-- What `ComputePipelineFunction.backward` leaves: `exposed_dgrad`, `param_grads`, and the
`BackwardComm`s afterwards. -/
structure BackwardResult where
  exposed_dgrad : TorchTensor
  param_grads : List NvteTensor
  comm : Nat → Option NvteTensor

/-- The tuple `ComputePipelineFunction.backward` returns: `(*torch_grads, None, None, None)`. -/
def BackwardResult.grads (b : BackwardResult) : List (Option TorchTensor) :=
  some b.exposed_dgrad :: b.param_grads.map (fun g => some g.data) ++ [none, none, none]

/-- `nvte_grad`: the gradient the backward after this one relayed, or, in the first
backward of the pipeline, the incoming gradient, unsquished if this unit squished its
output. -/
def incoming_grad (rt : Runtime α) (ctx : FunctionCtx α) (grad_output : TorchTensor) :
    Option NvteTensor → Except String NvteTensor
  | some t => .ok t
  | none =>
    (if ctx.nvte_unsquish_incoming_dgrad then _unsquish grad_output else .ok grad_output).map
      (make_nvte_tensor rt.torch_to_te_dtype)

/-- `# Store real gradient for next backward in pipeline`. -/
def relay_data_grad (ctx : FunctionCtx α) (data_grad : NvteTensor)
    (comm : Nat → Option NvteTensor) : Except String (Nat → Option NvteTensor) :=
  match ctx.nvte_upcoming_backward_comm with
  | none => if is_fp8 data_grad then .error "AssertionError" else .ok comm
  | some j => .ok (Function.update comm j (some data_grad))

/-- `# Check if outgoing gradient needs to be squished`. -/
def exposed_dgrad (ctx : FunctionCtx α) (data_grad : NvteTensor) : Except String TorchTensor :=
  if ctx.nvte_squish_outgoing_dgrad then _squish data_grad.data else .ok data_grad.data

/-- `ComputePipelineFunction.backward(ctx, grad_output)` called with the gradients
`grad_outputs`; `comm` holds the `nvte_grad_output` of every `BackwardComm`. It takes one
gradient: any other number of them raises `TypeError`. -/
def ComputePipelineFunction.backward (rt : Runtime α) (ctx : FunctionCtx α)
    (grad_outputs : List TorchTensor) (comm : Nat → Option NvteTensor) :
    Except String BackwardResult :=
  match grad_outputs with
  | [grad_output] => do
    let nvte_grad ← incoming_grad rt ctx grad_output (comm ctx.nvte_preceding_backward_comm)
    let r := ctx.nvte_op.backward rt.backend rt.name ctx.nvte_ctx nvte_grad
    let comm' ← relay_data_grad ctx r.1 comm
    if r.2.1.any is_fp8 then .error "AssertionError"
    else
      let dgrad ← exposed_dgrad ctx r.1
      pure ⟨dgrad, r.2.1, comm'⟩
  | _ => .error "TypeError"

theorem ComputePipelineFunction.backward_of_length_ne_one {rt : Runtime α} {ctx : FunctionCtx α}
    {grad_outputs : List TorchTensor} (h : grad_outputs.length ≠ 1)
    (comm : Nat → Option NvteTensor) :
    ComputePipelineFunction.backward rt ctx grad_outputs comm = .error "TypeError" := by
  rcases grad_outputs with _ | ⟨g, _ | ⟨g', gs⟩⟩
  · rfl
  · exact absurd rfl h
  · rfl

/-- The `_args` of iteration `i` of `apply`, where `prev` is the `_args` of the iteration
before and the new `BackwardComm` is numbered `i`. -/
def make_args (i : Nat) (prev : Option (ForwardArgs α)) (x : TorchTensor) (nvte_x : NvteTensor)
    (contained_op : SelfContainedOp α) : ForwardArgs α :=
  if i = 0 then ⟨false, none, i, contained_op⟩
  else ⟨x.dtype != nvte_x.data.dtype, prev.map ForwardArgs.next_upcoming_backward, i, contained_op⟩

/-- `exposed_tensors`: the data of the tensors `require_grad()` gives, none of them FP8. -/
def exposed_tensors (nvte_tensors : List NvteTensor) : Except String (List TorchTensor) :=
  nvte_tensors.mapM fun t => if is_fp8 t then .error "AssertionError" else .ok t.data

/-- The training loop of `apply`, from iteration `i` on, with `prev` the `_args` before: the
output, and what every forward returned, which autograd records. -/
def apply_loop (rt : Runtime α) (pipeline : ComputePipeline α) : Nat → Option (ForwardArgs α) →
    List (SelfContainedOp α) → TorchTensor → NvteTensor →
    Except String (TorchTensor × List (ForwardResult α))
  | _, _, [], x, _ => .ok (x, [])
  | i, prev, contained_op :: ops, x, nvte_x => do
    pipeline.meta_fwd
    pipeline.meta_bwd
    let _args := make_args i prev x nvte_x contained_op
    let exposed ← exposed_tensors (rt.require_grad contained_op)
    let r ← ComputePipelineFunction.forward rt _args x
      (exposed ++ [nvte_x.data, nvte_x.amax, nvte_x.scale, nvte_x.scale_inv])
    let nvte_x' ← nvte.Tensor
      ([r.nvte_y.data, r.nvte_y.amax, r.nvte_y.scale, r.nvte_y.scale_inv].map .tensor)
    let rest ← apply_loop rt pipeline (i + 1) (some _args) ops r.exposed_y nvte_x'
    pure (rest.1, r :: rest.2)

/-- `apply(x, pipeline, True)`: `pipeline.next_iteration()`, then the loop over the units. -/
def apply_training (rt : Runtime α) (p : ComputePipeline α) (x : TorchTensor) :
    Except String (TorchTensor × List (ForwardResult α)) := do
  p.next_iteration
  apply_loop rt p 0 none p.functions x (make_nvte_tensor rt.torch_to_te_dtype x)

/-- `apply(x, pipeline, training)`. -/
def apply (rt : Runtime α) (p : ComputePipeline α) (x : TorchTensor) (training : Bool) :
    Except String TorchTensor :=
  if training then (apply_training rt p x).map Prod.fst
  else
    let y := p.run_inference rt.backend (make_nvte_tensor rt.torch_to_te_dtype x)
    if is_fp8 y then .error "AssertionError" else .ok y.data

/-- `torch.zeros_like(t)`. -/
def zeros_like (t : TorchTensor) : TorchTensor := { t with bytes := t.bytes.map fun _ => 0 }

/-- The gradients autograd hands the backward of a unit whose forward returned `r`: one for
each of the five outputs, `g` for `exposed_y` and zeros for the four tensors of `nvte_y`, which
nothing after the last unit reads. -/
def output_grads (r : ForwardResult α) (g : TorchTensor) : List TorchTensor :=
  g :: [r.nvte_y.data, r.nvte_y.amax, r.nvte_y.scale, r.nvte_y.scale_inv].map zeros_like

/-- Autograd running the backwards of the forwards `rs` from the last back, each with the
gradients of its outputs: for `exposed_y` the first entry the one after it returned, the last
one `g`. Returns the gradient of the first input and the `BackwardComm`s. -/
def backward_chain (rt : Runtime α) : List (ForwardResult α) → TorchTensor →
    (Nat → Option NvteTensor) → Except String (TorchTensor × (Nat → Option NvteTensor))
  | [], g, comm => .ok (g, comm)
  | r :: rs, g, comm => do
    let rest ← backward_chain rt rs g comm
    let b ← ComputePipelineFunction.backward rt r.ctx (output_grads r rest.1) rest.2
    pure (b.exposed_dgrad, b.comm)

/-- The backward pass of one training call: fresh `BackwardComm`s, host gradient `g`. -/
def run_backward (rt : Runtime α) (rs : List (ForwardResult α)) (g : TorchTensor) :
    Except String (TorchTensor × (Nat → Option NvteTensor)) :=
  backward_chain rt rs g fun _ => none

theorem backward_chain_cons_raises (rt : Runtime α) (r : ForwardResult α)
    (rs : List (ForwardResult α)) (g : TorchTensor) (comm : Nat → Option NvteTensor) :
    backward_chain rt (r :: rs) g comm = .error "TypeError" := by
  induction rs generalizing r with
  | nil =>
    simp only [backward_chain, ok_bind]
    rw [ComputePipelineFunction.backward_of_length_ne_one (by simp [output_grads])]
    rfl
  | cons r' rs ih => simp only [backward_chain] at ih ⊢; rw [ih]; rfl

/-- A training call of `apply` raises `AttributeError` at `pipeline.next_iteration()`, before
any unit runs forward, for every pipeline and input; and autograd's backward of any recorded
forwards raises `TypeError` at the first, the last unit's, before any item backward runs. -/
theorem apply_training_raises (rt : Runtime α) (p : ComputePipeline α) (x : TorchTensor) :
    apply rt p x true = .error "AttributeError" ∧
      ∀ r rs g comm, backward_chain rt (r :: rs) g comm = .error "TypeError" :=
  ⟨rfl, backward_chain_cons_raises rt⟩

end transformer_engine.sequential
