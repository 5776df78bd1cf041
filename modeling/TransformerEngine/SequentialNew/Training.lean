import TransformerEngine.SequentialNew.Kernel

namespace transformer_engine.sequential_new

/-- A training generator split at its two yields: the calls it makes before the first, the
tensor it yields there, and, for the gradient it is resumed with, the calls it makes before
the second together with the tensor it yields then. -/
structure Training where
  fwd : List Call
  y : Buf
  bwd : Buf → List Call × Buf

variable {D : Type}

namespace Op

/-- The `environment` property; `set_environment` sets it together with `dist_group_size`. -/
def environment (op : Op D) : Except String Unit :=
  match op.dist_group_size? with
  | none => .error "AssertionError"
  | some _ => .ok ()

/-- `training(x)`: the calls of every op class with a training protocol, by the tensors they
name. -/
def training (op : Op D) (x : Buf) : Except String Training :=
  let i := op.id
  let a := Buf.field i
  match op.kind with
  | .Identity => pure ⟨[], x, fun grad => ([], grad)⟩
  | .Transpose => do
    let s ← op.input_shape
    let act ← op.describe_activation_shape
    if s ≠ act then
      pure ⟨[⟨.transpose, i, [x], [a .act]⟩], a .act,
        fun grad => ([⟨.transpose, i, [grad], [x]⟩], x)⟩
    else
      pure ⟨[⟨.transpose, i, [x], [x]⟩], x,
        fun grad => ([⟨.transpose, i, [grad], [grad]⟩], grad)⟩
  | .LayerNorm .. =>
    pure ⟨[⟨.layer_norm, i, [x, a .weight, a .bias], [a .act, a .mu, a .rsigma]⟩], a .act,
      fun grad => ([⟨.dlayer_norm, i, [grad, x, a .weight, a .mu, a .rsigma],
        [grad, a .weight_grad, a .bias_grad]⟩], grad)⟩
  | .Gemm .. =>
    pure ⟨[⟨.transpose, i, [a .weight], [a .weight_t]⟩, ⟨.gemm, i, [x, a .weight], [a .act]⟩],
      a .act, fun grad => ([⟨.gemm, i, [grad, a .weight_t], [x]⟩,
        ⟨.gemm, i, [grad, a .x_t], [a .weight_grad]⟩], x)⟩
  | .Bias .. =>
    pure ⟨[⟨.add, i, [x, a .bias], [x]⟩], x,
      fun grad => ([⟨.copy, i, [grad], [a .bias_grad]⟩], grad)⟩
  | .ResidualBegin end_ =>
    match end_ with
    | none => throw "AssertionError"
    | some e =>
      pure ⟨[⟨.copy, i, [x], [a .fwd_residue]⟩], x,
        fun grad => ([⟨.add, i, [.field e .bwd_residue, grad], [.field e .bwd_residue]⟩],
          .field e .bwd_residue)⟩
  | .ResidualEnd begin =>
    pure ⟨[⟨.add, i, [.field begin .fwd_residue, x], [.field begin .fwd_residue]⟩],
      .field begin .fwd_residue, fun grad => ([⟨.copy, i, [grad], [a .bwd_residue]⟩], grad)⟩
  | .Dropout =>
    pure ⟨[⟨.dropout, i, [x], [x]⟩], x, fun grad => ([⟨.dropout, i, [grad], [grad]⟩], grad)⟩
  | .Gelu =>
    pure ⟨[⟨.gelu, i, [x], [a .act]⟩], a .act,
      fun grad => ([⟨.dgelu, i, [grad, x], [grad]⟩], grad)⟩
  | .Relu =>
    pure ⟨[⟨.relu, i, [x], [a .act]⟩], a .act,
      fun grad => ([⟨.drelu, i, [grad, x], [grad]⟩], grad)⟩
  | .Cast =>
    pure ⟨[⟨.cast, i, [x], [a .act]⟩], a .act, fun grad => ([⟨.cast, i, [grad], [x]⟩], x)⟩
  | .Scatter => do
    op.environment
    pure ⟨[⟨.scatter, i, [x], [a .act]⟩], a .act, fun grad => ([⟨.gather, i, [grad], [x]⟩], x)⟩
  | .ReduceScatter => do
    op.environment
    pure ⟨[⟨.reduce_scatter, i, [x], [a .act]⟩], a .act,
      fun grad => ([⟨.all_gather, i, [grad], [x]⟩], x)⟩
  | .AllGather => do
    op.environment
    pure ⟨[⟨.all_gather, i, [x], [a .act]⟩], a .act,
      fun grad => ([⟨.reduce_scatter, i, [grad], [x]⟩], x)⟩
  | .AllReduce => do
    op.environment
    pure ⟨[⟨.all_reduce, i, [x], [a .act]⟩], a .act, fun grad => ([], grad)⟩

/-- `inference(x)`: the calls it makes and the tensor it returns. -/
def inference [DecidableEq D] (op : Op D) (x : Buf) : Except String (List Call × Buf) :=
  let i := op.id
  let a := Buf.field i
  match op.kind with
  | .Identity => pure ([], x)
  | .Transpose => do
    let s ← op.input_shape
    let act ← op.describe_activation_shape
    if s ≠ act then pure ([⟨.transpose, i, [x], [a .act]⟩], a .act)
    else pure ([⟨.transpose, i, [x], [x]⟩], x)
  | .LayerNorm .. =>
    if op.output_type ≠ op.input_type then
      pure ([⟨.layer_norm_inf, i, [x, a .weight, a .bias], [a .act]⟩], a .act)
    else pure ([⟨.layer_norm_inf, i, [x, a .weight, a .bias], [x]⟩], x)
  | .Gemm .. => do
    if op.output_type ≠ op.input_type then
      pure ([⟨.gemm, i, [x, a .weight], [a .act]⟩], a .act)
    else
      let s ← op.input_shape
      let act ← op.describe_activation_shape
      if s ≠ act then pure ([⟨.gemm, i, [x, a .weight], [a .act]⟩], a .act)
      else pure ([⟨.gemm, i, [x, a .weight], [x]⟩], x)
  | .Bias .. => pure ([⟨.add, i, [x, a .bias], [x]⟩], x)
  | .ResidualBegin _ => pure ([⟨.copy, i, [x], [a .fwd_residue]⟩], x)
  | .ResidualEnd begin =>
    pure ([⟨.add, i, [.field begin .fwd_residue, x], [.field begin .fwd_residue]⟩],
      .field begin .fwd_residue)
  | .Dropout => pure ([⟨.dropout, i, [x], [x]⟩], x)
  | .Gelu =>
    if op.output_type ≠ op.input_type then pure ([⟨.gelu, i, [x], [a .act]⟩], a .act)
    else pure ([⟨.gelu, i, [x], [x]⟩], x)
  | .Relu =>
    if op.output_type ≠ op.input_type then pure ([⟨.relu, i, [x], [a .act]⟩], a .act)
    else pure ([⟨.relu, i, [x], [x]⟩], x)
  | .Cast => pure ([⟨.cast, i, [x], [a .act]⟩], a .act)
  | .Scatter => do
    op.environment
    pure ([⟨.scatter, i, [x], [a .act]⟩], a .act)
  | .ReduceScatter => do
    op.environment
    pure ([⟨.reduce_scatter, i, [x], [a .act]⟩], a .act)
  | .AllGather => do
    op.environment
    pure ([⟨.all_gather, i, [x], [a .act]⟩], a .act)
  | .AllReduce => do
    op.environment
    pure ([⟨.all_reduce, i, [x], [a .act]⟩], a .act)

/-- The instances whose tensors the op names before its first yield (and in `inference`):
its own, and for a `ResidualEnd` its `begin`'s. -/
def fwd_refs (op : Op D) : List Nat :=
  match op.kind with
  | .ResidualEnd begin => [op.id, begin]
  | _ => [op.id]

/-- The instances whose tensors the op names after its first yield: its own, and for a
`ResidualBegin` its `end`'s. -/
def bwd_refs (op : Op D) : List Nat :=
  match op.kind with
  | .ResidualBegin (some e) => [op.id, e]
  | _ => [op.id]

end Op

/-- The fields a kernel may write: all but the parameters `weight` and `bias`, which the
generators only read, and `x_t`, which only `Gemm` names. -/
def Field.written : Field → Bool
  | .act | .mu | .rsigma | .weight_grad | .bias_grad | .weight_t | .fwd_residue | .bwd_residue => true
  | .weight | .bias | .x_t => false

/-- Every tensor of the instances `ids` satisfies `R`, and every `written` one also `W`. -/
def FieldsSatisfy (ids : List Nat) (R W : Buf → Prop) : Prop :=
  ∀ i ∈ ids, ∀ f, R (.field i f) ∧ (f.written → W (.field i f))

/-- The tensors `t` reads before its first yield satisfy `R`, those it writes or yields satisfy
`W` (and the yielded one `R`); resumed with a gradient satisfying `R'` and `W'`, the same holds
after it of `R'` and `W'`. -/
structure Training.Footprint (t : Training) (R W R' W' : Buf → Prop) : Prop where
  fwd : ∀ c ∈ t.fwd, (∀ b ∈ c.src, R b) ∧ ∀ b ∈ c.dst, W b
  y : R t.y ∧ W t.y
  bwd : ∀ g, R' g → W' g →
    (∀ c ∈ (t.bwd g).1, (∀ b ∈ c.src, R' b) ∧ ∀ b ∈ c.dst, W' b) ∧
      R' (t.bwd g).2 ∧ W' (t.bwd g).2

section Footprint

variable {op : Op D} {x : Buf} {R W R' W' : Buf → Prop}

/-- A generator reads only its input, its gradient, and tensors of the instances its
`fwd_refs` and `bwd_refs` list, and writes or yields only its input, its gradient, and the
`written` fields of those instances. -/
theorem Op.training_footprint {t : Training} (h : op.training x = .ok t) (hRx : R x)
    (hWx : W x) (hR : ∀ b, R b → R' b) (hW : ∀ b, W b → W' b)
    (hfwd : FieldsSatisfy op.fwd_refs R W) (hbwd : FieldsSatisfy op.bwd_refs R' W') :
    t.Footprint R W R' W' := by
  have hRx' := hR x hRx
  have hWx' := hW x hWx
  unfold Op.training at h
  unfold FieldsSatisfy Op.fwd_refs at hfwd
  unfold FieldsSatisfy Op.bwd_refs at hbwd
  cases hk : op.kind <;>
    simp only [hk, List.forall_mem_cons, List.not_mem_nil, false_implies, implies_true,
      and_true, forall_and] at h hfwd hbwd
  -- the guards of `Transpose`, `ResidualBegin` and the collectives
  case' Transpose =>
    obtain ⟨s, -, h⟩ := bind_eq_ok.mp h
    obtain ⟨act, -, h⟩ := bind_eq_ok.mp h
    split_ifs at h
  case' ResidualBegin e =>
    obtain _ | e := e
    · cases h
    simp only [List.forall_mem_cons, List.not_mem_nil, false_implies, implies_true,
      and_true] at hbwd
  case' Scatter | ReduceScatter | AllGather | AllReduce => obtain ⟨_, -, h⟩ := bind_eq_ok.mp h
  all_goals
    cases h
    exact ⟨by simp only [List.forall_mem_cons, List.not_mem_nil, false_implies, implies_true,
        and_true, and_self, Field.written, hRx, hWx, hfwd],
      by simp only [and_self, Field.written, hRx, hWx, hfwd],
      fun g hRg hWg => by simp only [List.forall_mem_cons, List.not_mem_nil, false_implies,
        implies_true, and_true, and_self, Field.written, hRx', hWx', hbwd, hRg, hWg]⟩

/-- `inference` reads only its input and tensors of the instances its `fwd_refs` list, and
writes or returns only its input and the `written` fields of those instances. -/
theorem Op.inference_footprint [DecidableEq D] {cs : List Call} {y : Buf}
    (h : op.inference x = .ok (cs, y)) (hRx : R x) (hWx : W x)
    (hfwd : FieldsSatisfy op.fwd_refs R W) :
    (∀ c ∈ cs, (∀ b ∈ c.src, R b) ∧ ∀ b ∈ c.dst, W b) ∧ R y ∧ W y := by
  unfold Op.inference at h
  unfold FieldsSatisfy Op.fwd_refs at hfwd
  cases hk : op.kind <;>
    simp only [hk, List.forall_mem_cons, List.not_mem_nil, false_implies, implies_true,
      and_true, forall_and] at h hfwd
  -- the guards of `Transpose`, `Gemm`, the ops that keep their type, and the collectives
  case' Transpose =>
    obtain ⟨s, -, h⟩ := bind_eq_ok.mp h
    obtain ⟨act, -, h⟩ := bind_eq_ok.mp h
    split_ifs at h
  case' Gemm =>
    split_ifs at h
    on_goal 2 =>
      obtain ⟨s, -, h⟩ := bind_eq_ok.mp h
      obtain ⟨act, -, h⟩ := bind_eq_ok.mp h
      split_ifs at h
  case' LayerNorm | Gelu | Relu => split_ifs at h
  case' Scatter | ReduceScatter | AllGather | AllReduce => obtain ⟨_, -, h⟩ := bind_eq_ok.mp h
  all_goals
    cases h
    simp only [List.forall_mem_cons, List.not_mem_nil, false_implies, implies_true, and_true,
      and_self, Field.written, hRx, hWx, hfwd]

end Footprint

end transformer_engine.sequential_new
