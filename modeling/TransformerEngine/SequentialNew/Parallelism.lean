import TransformerEngine.SequentialNew.Training

namespace transformer_engine.sequential_new

variable {D : Type}

/-- `ExecutionFlow = list["Op"]`: the ops that together stand for one op under one choice of
parallelism. -/
abbrev ExecutionFlow (D : Type) := List (Op D)

/-- `__single_parallel(parallelism, op)`: a copy of `op` with the parallelism set. -/
def single_parallel (parallelism : Parallelism) (op : Op D) : ExecutionFlow D :=
  [{ op with parallellism? := some parallelism }]

-- the partials of `__single_parallel` that `ops.py` names
def _normal : Op D → ExecutionFlow D := single_parallel ParallelismClass.NORMAL
def _row_parallel : Op D → ExecutionFlow D := single_parallel ParallelismClass.ROWP
def _column_parallel : Op D → ExecutionFlow D := single_parallel ParallelismClass.COLP
def _rgemm : Op D → ExecutionFlow D := single_parallel ParallelismClass.RGEMM
def _cgemm : Op D → ExecutionFlow D := single_parallel ParallelismClass.CGEMM
def _scatter : Op D → ExecutionFlow D := single_parallel ParallelismClass.S
def _reduce_scatter : Op D → ExecutionFlow D := single_parallel ParallelismClass.RS
def _all_gather : Op D → ExecutionFlow D := single_parallel ParallelismClass.AG
def _all_reduce : Op D → ExecutionFlow D := single_parallel ParallelismClass.AR

/-- `_rgemm_rs(op)`: the row-parallel `Gemm`, then a `ReduceScatter` (the new instance `fresh`)
in the `Gemm`'s environment, typed with its output type. -/
def _rgemm_rs (op : Op D) (fresh : Nat) : Except String (ExecutionFlow D) := do
  op.environment
  pure (_rgemm op ++ [⟨fresh, .ReduceScatter, op.output_type, op.output_type,
    op.dist_group_size?, some ParallelismClass.RS, none⟩])

/-- `_ag_cgemm(op)`: an `AllGather` (the new instance `fresh`) in the `Gemm`'s environment,
then the column-parallel `Gemm`. The `AllGather` is built with the `Gemm`'s input type and
then `set_types_inferred(op.output_type, op.output_type)`. -/
def _ag_cgemm (op : Op D) (fresh : Nat) : Except String (ExecutionFlow D) := do
  op.environment
  pure (⟨fresh, .AllGather, op.output_type, op.output_type, op.dist_group_size?,
    some ParallelismClass.AG, none⟩ :: _cgemm op)

/-- `describe_parallellism()`, by class: `PointwiseOp`s offer the three plain layouts,
`RowwiseOp`s two, `NonParallelOp`s one, a `Gemm` also the flows with a collective around it,
and each collective its own layout. The `Gemm`'s new collectives are the instances `fresh` and
`fresh + 1`. -/
def Op.describe_parallellism (op : Op D) (fresh : Nat) :
    Except String (List (ExecutionFlow D)) :=
  match op.kind with
  | .Transpose => pure [_normal op]
  | .LayerNorm .. => pure [_normal op, _row_parallel op]
  | .Gemm .. => do
    let rs ← _rgemm_rs op fresh
    let ag ← _ag_cgemm op (fresh + 1)
    pure [_normal op, _rgemm op, _cgemm op, rs, ag]
  | .Scatter => pure [_scatter op]
  | .ReduceScatter => pure [_reduce_scatter op]
  | .AllGather => pure [_all_gather op]
  | .AllReduce => pure [_all_reduce op]
  | .Identity | .Bias .. | .ResidualBegin _ | .ResidualEnd _ | .Dropout | .Gelu | .Relu
  | .Cast => pure [_normal op, _row_parallel op, _column_parallel op]

end transformer_engine.sequential_new
