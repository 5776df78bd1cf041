import TransformerEngine.SequentialNew.Op

namespace transformer_engine.sequential_new

variable {D : Type}

/-- Dividing a multiple of `workers` by `workers` a second time changes it, unless
`workers` is one or the count is zero. -/
theorem div_div_eq_div_iff {n workers : Nat} (hw : 0 < workers) (hn : n % workers = 0) :
    n / workers / workers = n / workers ↔ workers = 1 ∨ n = 0 := by
  constructor
  · intro h
    by_cases hw1 : workers = 1
    · exact .inl hw1
    · right
      have hq : n / workers = 0 := by
        by_contra hq
        exact absurd h (Nat.div_lt_self (Nat.pos_of_ne_zero hq) (by omega)).ne
      have := Nat.div_add_mod n workers
      rw [hq, hn] at this
      omega
  · rintro (rfl | rfl) <;> simp

namespace Op

/-- The number of ways `_pre_describe_tensors` splits the op's features: the group size
for a row- or column-parallel `Gemm` and a column-parallel `Bias`, one otherwise. -/
def workers (op : Op D) : Nat :=
  match op.kind, op.parallellism?, op.dist_group_size? with
  | .Gemm .., some p, some (some w) =>
    if p = ParallelismClass.RGEMM ∨ p = ParallelismClass.CGEMM then w else 1
  | .Bias .., some p, some (some w) => if p = ParallelismClass.COLP then w else 1
  | _, _, _ => 1

/-- The feature count `_pre_describe_tensors` divides by `workers`. -/
def split_count (op : Op D) : Nat :=
  match op.kind, op.parallellism? with
  | .Gemm _ in_features out_features _, some p =>
    if p = ParallelismClass.RGEMM then in_features
    else if p = ParallelismClass.CGEMM then out_features else 0
  | .Bias _ features _, some p => if p = ParallelismClass.COLP then features else 0
  | _, _ => 0

end Op

/-- The class with its split feature count set to `n`. -/
def OpKind.with_split_count : OpKind D → Option Parallelism → Nat → OpKind D
  | .Gemm pd i o m, some p, n =>
    if p = ParallelismClass.RGEMM then .Gemm pd n o m
    else if p = ParallelismClass.CGEMM then .Gemm pd i n m else .Gemm pd i o m
  | .Bias pd f m, some p, n => if p = ParallelismClass.COLP then .Bias pd n m else .Bias pd f m
  | k, _, _ => k

/-- The op after a binding to `s` that left `n` as its split feature count. -/
def Op.rebind (op : Op D) (s : List Nat) (n : Nat) : Op D :=
  { op with input_shape? := some s, kind := op.kind.with_split_count op.parallellism? n }

theorem split_features_bind {features workers : Nat} {msg : String} {β : Type} (f : Nat → β) {b : β}
    (h : ((split_features features workers msg) >>= fun n => pure (f n)) = .ok b) :
    0 < workers ∧ features % workers = 0 ∧ b = f (features / workers) := by
  unfold split_features at h
  split at h
  · cases h
  · split at h
    · cases h
    · cases h
      exact ⟨Nat.pos_of_ne_zero ‹_›, by omega, rfl⟩

/-- A binding that returns sets the shape and divides the split feature count by the
number of workers, which divides it. -/
theorem Op.set_input_shape_eq_ok {op op' : Op D} {s : List Nat}
    (h : op.set_input_shape s = .ok op') :
    0 < op.workers ∧ op.split_count % op.workers = 0 ∧
      op' = op.rebind s (op.split_count / op.workers) := by
  obtain ⟨id, kind, it, ot, g, p, sh⟩ := op
  cases kind with
  | Gemm pd i o m =>
    cases p with
    | none => cases h
    | some p =>
      by_cases hR : p = ParallelismClass.RGEMM
      · subst hR
        obtain _ | _ | w := g
        · cases h
        · cases h
        · exact split_features_bind (fun n => _) h
      by_cases hC : p = ParallelismClass.CGEMM
      · subst hC
        obtain _ | _ | w := g
        · cases h
        · cases h
        · exact split_features_bind (fun n => _) h
      by_cases hN : p = ParallelismClass.NORMAL
      · subst hN
        cases h
        obtain _ | _ | w := g <;> exact ⟨Nat.one_pos, rfl, rfl⟩
      · have hnot : p ∉ [ParallelismClass.NORMAL, ParallelismClass.RGEMM, ParallelismClass.CGEMM] := by
          simp [hR, hC, hN]
        simp [Op.set_input_shape, Op._pre_describe_tensors, Op.parallellism, hnot, bind,
          Except.bind, throw, throwThe, MonadExceptOf.throw] at h
  | Bias pd f m =>
    cases p with
    | none => cases h
    | some p =>
      by_cases hC : p = ParallelismClass.COLP
      · subst hC
        obtain _ | _ | w := g
        · cases h
        · cases h
        · exact split_features_bind (fun n => _) h
      by_cases hok : p ∈ [ParallelismClass.NORMAL, ParallelismClass.ROWP, ParallelismClass.COLP]
      · simp only [Op.set_input_shape, Op._pre_describe_tensors, Op.parallellism, ok_bind, hok,
          hC, not_true_eq_false, if_false, pure_bind] at h
        obtain ⟨-, -, rfl⟩ := split_features_bind (fun n => _) h
        obtain _ | _ | w := g <;>
          simp [Op.workers, Op.split_count, Op.rebind, OpKind.with_split_count, hC]
      · simp [Op.set_input_shape, Op._pre_describe_tensors, Op.parallellism, hok, bind,
          Except.bind, throw, throwThe, MonadExceptOf.throw] at h
  | _ => cases h; simp [Op.workers, Op.split_count, Op.rebind, OpKind.with_split_count]

@[simp] theorem OpKind.with_split_count_twice (k : OpKind D) (p : Option Parallelism) (n m : Nat) :
    (k.with_split_count p n).with_split_count p m = k.with_split_count p m := by
  cases k <;> cases p <;> simp only [OpKind.with_split_count] <;> split_ifs <;>
    simp_all [OpKind.with_split_count]

namespace Op

@[simp] theorem workers_rebind (op : Op D) (s : List Nat) (n : Nat) :
    (op.rebind s n).workers = op.workers := by
  obtain ⟨id, kind, it, ot, g, p, sh⟩ := op
  cases kind <;> cases p <;> simp only [rebind, OpKind.with_split_count] <;> (try split_ifs) <;>
    obtain _ | _ | w := g <;> rfl

theorem split_count_rebind (op : Op D) (s : List Nat) (k : Nat) :
    (op.rebind s (op.split_count / k)).split_count = op.split_count / k := by
  obtain ⟨id, kind, it, ot, g, p, sh⟩ := op
  cases kind <;> cases p <;> simp only [rebind, OpKind.with_split_count, split_count] <;>
    (try split_ifs) <;> simp_all

@[simp] theorem rebind_rebind (op : Op D) (s s' : List Nat) (n m : Nat) :
    (op.rebind s n).rebind s' m = op.rebind s' m := by
  simp only [rebind, OpKind.with_split_count_twice]

/-- An op that splits its features describes its parameters by the split count. -/
theorem describe_params_rebind_inj {op : Op D} {s s' : List Nat} {n n' : Nat} (hw : op.workers ≠ 1)
    (h : (op.rebind s n).describe_params = (op.rebind s' n').describe_params) : n = n' := by
  obtain ⟨id, kind, it, ot, g, p, sh⟩ := op
  cases kind with
  | Gemm pd i o m =>
    cases p with
    | none => exact absurd rfl hw
    | some p =>
      simp only [rebind, OpKind.with_split_count, describe_params] at h
      split_ifs at h with hR hC
      · simpa using h
      · simpa using h
      · obtain _ | _ | w := g <;> simp [workers, hR, hC] at hw
  | Bias pd f m =>
    cases p with
    | none => exact absurd rfl hw
    | some p =>
      simp only [rebind, OpKind.with_split_count, describe_params] at h
      split_ifs at h with hC
      · simpa using h
      · obtain _ | _ | w := g <;> simp [workers, hC] at hw
  | _ => exact absurd rfl hw

end Op

/-- A `Gemm` with row-parallel weights over a group of two, bound twice to the same shape:
its input features are halved twice, so its weight is described as `1 × 4` where one
binding describes it as `2 × 4`. -/
theorem set_input_shape_twice_divides_again :
    let op : Op Nat :=
      ⟨0, .Gemm 0 4 4 0, 0, 0, some (some 2), some ParallelismClass.RGEMM, none⟩
    ((op.set_input_shape [2, 4]) >>= fun op => op.set_input_shape [2, 4]).map Op.describe_params =
        .ok [(.weight, ⟨[1, 4], some (.method 0), 0⟩)] ∧
      (op.set_input_shape [2, 4]).map Op.describe_params =
        .ok [(.weight, ⟨[2, 4], some (.method 0), 0⟩)] :=
  ⟨rfl, rfl⟩

/-- Binding a shape a second time leaves every description as binding the second shape
alone would, exactly when the op does not split its features over more than one worker
or has none to split: each binding divides the split feature count again. -/
theorem set_input_shape_rebind_iff [DecidableEq D] (fp32 : D) {op op₁ op₁₂ op₂ : Op D}
    {s₁ s₂ : List Nat} (h₁ : op.set_input_shape s₁ = .ok op₁)
    (h₁₂ : op₁.set_input_shape s₂ = .ok op₁₂) (h₂ : op.set_input_shape s₂ = .ok op₂) :
    (op₁₂.describe_params = op₂.describe_params ∧
      op₁₂.describe_activation_shape = op₂.describe_activation_shape ∧
      op₁₂.describe_supplementary_tensors_training fp32 =
        op₂.describe_supplementary_tensors_training fp32 ∧
      op₁₂.describe_supplementary_tensors_inference fp32 =
        op₂.describe_supplementary_tensors_inference fp32) ↔
      op.workers = 1 ∨ op.split_count = 0 := by
  obtain ⟨hw, hdvd, rfl⟩ := Op.set_input_shape_eq_ok h₁
  obtain ⟨-, -, rfl⟩ := Op.set_input_shape_eq_ok h₁₂
  obtain ⟨-, -, rfl⟩ := Op.set_input_shape_eq_ok h₂
  rw [Op.workers_rebind, Op.split_count_rebind, Op.rebind_rebind]
  constructor
  · rintro ⟨hparams, -⟩
    by_cases hw1 : op.workers = 1
    · exact .inl hw1
    · exact (div_div_eq_div_iff hw hdvd).mp (Op.describe_params_rebind_inj hw1 hparams)
  · intro h
    rw [(div_div_eq_div_iff hw hdvd).mpr h]
    exact ⟨rfl, rfl, rfl, rfl⟩

/-- The row-parallel `Gemm` over a group of two bound twice describes its tensors
otherwise than one binding does. -/
theorem set_input_shape_rebind_iff_rgemm :
    let op : Op Nat :=
      ⟨0, .Gemm 0 4 4 0, 0, 0, some (some 2), some ParallelismClass.RGEMM, none⟩
    ∃ op₁ op₁₂ op₂, op.set_input_shape [2, 4] = .ok op₁ ∧
      op₁.set_input_shape [2, 4] = .ok op₁₂ ∧ op.set_input_shape [2, 4] = .ok op₂ ∧
      ¬ (op₁₂.describe_params = op₂.describe_params ∧
        op₁₂.describe_activation_shape = op₂.describe_activation_shape ∧
        op₁₂.describe_supplementary_tensors_training 0 =
          op₂.describe_supplementary_tensors_training 0 ∧
        op₁₂.describe_supplementary_tensors_inference 0 =
          op₂.describe_supplementary_tensors_inference 0) := by
  intro op
  refine ⟨_, _, _, rfl, rfl, rfl, ?_⟩
  exact (@set_input_shape_rebind_iff Nat _ 0 op _ _ _ [2, 4] [2, 4] rfl rfl rfl).not.mpr
    (by decide)

end transformer_engine.sequential_new
