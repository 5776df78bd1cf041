import TransformerEngine.SequentialNew.Run

namespace transformer_engine.sequential_new

/-! When `training` and `inference` raise: only on an op whose set-up is missing, whatever tensor
they are handed. The generators are advanced in list order, so a run raises the error of its first
such op. -/

variable {D : Type}

namespace Op

/-- What a `Transpose` raises before its first call: `input_shape` on an op without one, or
`shape[-2]` on a shape of fewer than two dimensions. -/
def transpose_error (op : Op D) : Option String :=
  match op.input_shape? with
  | none => some "AssertionError"
  | some s => if s.length < 2 then some "IndexError" else none

/-- What a collective raises before its first call: `environment` on an op without one. -/
def environment_error (op : Op D) : Option String :=
  match op.dist_group_size? with
  | none => some "AssertionError"
  | some _ => none

/-- What `training` raises before its first yield, if anything. -/
def training_error (op : Op D) : Option String :=
  match op.kind with
  | .Transpose => op.transpose_error
  | .ResidualBegin none => some "AssertionError"
  | .Scatter | .ReduceScatter | .AllGather | .AllReduce => op.environment_error
  | _ => none

/-- What `inference` raises, if anything: as `training`, but a `ResidualBegin` without its `end`
runs, and a `Gemm` that keeps its type reads its input shape. -/
def inference_error [DecidableEq D] (op : Op D) : Option String :=
  match op.kind with
  | .Transpose => op.transpose_error
  | .Gemm .. =>
    if op.output_type = op.input_type ∧ op.input_shape? = none then some "AssertionError" else none
  | .Scatter | .ReduceScatter | .AllGather | .AllReduce => op.environment_error
  | _ => none

variable {op : Op D} {x : Buf} {e : String}

/-- A `Transpose` reads its input shape and then its activation shape, and raises only there. -/
theorem transpose_bind_eq_error {β : Type} (hk : op.kind = .Transpose)
    {f : List Nat → List Nat → Except String β} (hf : ∀ s act e, f s act ≠ .error e) :
    (op.input_shape >>= fun s => op.describe_activation_shape >>= f s) = .error e ↔
      op.transpose_error = some e := by
  unfold transpose_error
  cases hs : op.input_shape? with
  | none => simp [input_shape, hs, error_bind]
  | some s =>
    simp only [input_shape, hs, ok_bind, describe_activation_shape, hk]
    rcases s with _ | ⟨a, _ | ⟨b, s⟩⟩ <;> simp [neg_index, ok_bind, error_bind, hf]

theorem environment_bind_eq_error {β : Type} {f : Unit → Except String β}
    (hf : ∀ e, f () ≠ .error e) :
    (op.environment >>= f) = .error e ↔ op.environment_error = some e := by
  unfold environment environment_error
  cases op.dist_group_size? <;> simp [ok_bind, error_bind, hf]

theorem training_eq_error_iff : op.training x = .error e ↔ op.training_error = some e := by
  unfold training training_error
  cases hk : op.kind
  case Transpose => exact transpose_bind_eq_error hk fun _ _ _ => by split_ifs <;> nofun
  case ResidualBegin end_ =>
    cases end_ <;> simp [throw, throwThe, MonadExceptOf.throw, pure_ne_error]
  case Scatter | ReduceScatter | AllGather | AllReduce => exact environment_bind_eq_error nofun
  all_goals simp [pure_ne_error]

theorem inference_eq_error_iff [DecidableEq D] :
    op.inference x = .error e ↔ op.inference_error = some e := by
  unfold inference inference_error
  cases hk : op.kind
  case Transpose => exact transpose_bind_eq_error hk fun _ _ _ => by split_ifs <;> nofun
  case Gemm =>
    by_cases ht : op.output_type = op.input_type
    · cases hs : op.input_shape? with
      | none => simp [ht, input_shape, hs, error_bind]
      | some s =>
        simp [ht, input_shape, describe_activation_shape, hs, hk, ok_bind]
        split_ifs <;> simp [pure_ne_error]
    · simp [ht, pure_ne_error]
  case LayerNorm | Gelu | Relu =>
    by_cases ht : op.output_type = op.input_type <;> simp [ht, pure_ne_error]
  case Scatter | ReduceScatter | AllGather | AllReduce => exact environment_bind_eq_error nofun
  all_goals simp [pure_ne_error]

end Op

theorem forward_phase_eq_error_iff_first {ops : List (Op D)} {x : Buf} {e : String} :
    forward_phase ops x = .error e ↔ ops.findSome? Op.training_error = some e := by
  induction ops generalizing x with
  | nil => simp [forward_phase, pure_ne_error]
  | cons op ops ih =>
    rw [List.findSome?_cons]
    cases h : op.training x with
    | error e' =>
      rw [Op.training_eq_error_iff.mp h]
      simp [forward_phase, h, error_bind]
    | ok t =>
      have hnone : op.training_error = none := Option.eq_none_iff_forall_not_mem.mpr
        fun _ he => absurd (h.symm.trans (Op.training_eq_error_iff.mpr he)) nofun
      rw [hnone, ← ih]
      simp only [forward_phase, h, ok_bind]
      cases forward_phase ops t.y <;> simp [ok_bind, error_bind, pure_ne_error]

theorem inference_run_eq_error_iff_first [DecidableEq D] {ops : List (Op D)} {x : Buf}
    {e : String} : inference_run ops x = .error e ↔ ops.findSome? Op.inference_error = some e := by
  induction ops generalizing x with
  | nil => simp [inference_run, pure_ne_error]
  | cons op ops ih =>
    rw [List.findSome?_cons]
    cases h : op.inference x with
    | error e' =>
      rw [Op.inference_eq_error_iff.mp h]
      simp [inference_run, h, error_bind]
    | ok r =>
      have hnone : op.inference_error = none := Option.eq_none_iff_forall_not_mem.mpr
        fun _ he => absurd (h.symm.trans (Op.inference_eq_error_iff.mpr he)) nofun
      rw [hnone, ← ih]
      simp only [inference_run, h, ok_bind]
      cases inference_run ops r.2 <;> simp [ok_bind, error_bind, pure_ne_error]

/-- The training forward phase fails fast and only on set-up: it raises exactly the error of its
first op whose set-up `training` needs is missing, and returns exactly when there is none,
whatever its input. -/
theorem forward_phase_outcome (ops : List (Op D)) (x : Buf) :
    (∀ e, forward_phase ops x = .error e ↔ ops.findSome? Op.training_error = some e) ∧
      ((∃ r, forward_phase ops x = .ok r) ↔ ∀ op ∈ ops, op.training_error = none) := by
  refine ⟨fun _ => forward_phase_eq_error_iff_first, ?_⟩
  simp only [exists_ok_iff, Ne, forward_phase_eq_error_iff_first, ← List.findSome?_eq_none_iff]
  exact Option.eq_none_iff_forall_not_mem.symm

/-- `inference` over a list fails fast and only on set-up: it raises exactly the error of its
first op whose set-up `inference` needs is missing, and returns exactly when there is none,
whatever its input. -/
theorem inference_run_outcome [DecidableEq D] (ops : List (Op D)) (x : Buf) :
    (∀ e, inference_run ops x = .error e ↔ ops.findSome? Op.inference_error = some e) ∧
      ((∃ r, inference_run ops x = .ok r) ↔ ∀ op ∈ ops, op.inference_error = none) := by
  refine ⟨fun _ => inference_run_eq_error_iff_first, ?_⟩
  simp only [exists_ok_iff, Ne, inference_run_eq_error_iff_first, ← List.findSome?_eq_none_iff]
  exact Option.eq_none_iff_forall_not_mem.symm

end transformer_engine.sequential_new
