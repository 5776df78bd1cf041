import TransformerEngine.SequentialNew.Network

namespace transformer_engine.sequential_new

/-! The tensors the generators name against those the descriptors declare: the caller allocates
what `describe_params` and `describe_supplementary_tensors_*` declare and injects it with
`set_tensors_allocated`, so a tensor an op names and no descriptor declares is an attribute the
op never gets. -/

variable {D : Type}

namespace Op

/-- The attribute names the caller allocates for `op` in inference, from `describe_params` and
`describe_supplementary_tensors_inference`. -/
def inference_tensor_names [DecidableEq D] (fp32 : D) (op : Op D) : Except String (List Field) := do
  let ds ← op.describe_supplementary_tensors_inference fp32
  pure ((op.describe_params ++ ds).map Prod.fst)

/-- The attribute names the caller allocates for `op` in training, from `describe_params` and
`describe_supplementary_tensors_training`. -/
def training_tensor_names (fp32 : D) (op : Op D) : Except String (List Field) := do
  let ds ← op.describe_supplementary_tensors_training fp32
  pure ((op.describe_params ++ ds).map Prod.fst)

variable {op : Op D} {x y : Buf} {cs : List Call} {ns : List Field}

/-- Whether `op`'s backward writes gradients of its parameters: a `LayerNorm` its `weight_grad`
and `bias_grad`, a `Gemm` its `weight_grad`, a `Bias` its `bias_grad`. -/
def writes_param_grad (op : Op D) : Bool :=
  match op.kind with
  | .LayerNorm .. | .Gemm .. | .Bias .. => true
  | _ => false

/-- Every supplementary tensor declared for training has no initializer and is an activation,
a statistic, a residue, a transposed weight or `Gemm`'s `x_t`: never a parameter or one of
their gradients. -/
theorem describe_supplementary_tensors_training_fields (fp32 : D)
    {ds : List (Field × TensorDescriptor D)}
    (h : op.describe_supplementary_tensors_training fp32 = .ok ds) :
    ∀ p ∈ ds, p.2.init = none ∧
      (p.1.written = true ∧ p.1 ≠ .weight_grad ∧ p.1 ≠ .bias_grad ∨ p.1 = .x_t) := by
  unfold describe_supplementary_tensors_training at h
  cases hk : op.kind <;> simp only [hk] at h <;> repeat (obtain ⟨_, -, h⟩ := bind_eq_ok.mp h)
  all_goals
    cases h
    try split_ifs
    all_goals simp [Field.written]

/-- No descriptor declares a parameter gradient: `weight_grad` and `bias_grad` are attributes the
caller never injects. -/
theorem training_tensor_names_not_grad (fp32 : D) (hns : op.training_tensor_names fp32 = .ok ns) :
    Field.weight_grad ∉ ns ∧ Field.bias_grad ∉ ns := by
  obtain ⟨ds, hds, hns⟩ := bind_eq_ok.mp hns
  cases hns
  have hsupp := describe_supplementary_tensors_training_fields fp32 hds
  have hparams : ∀ p ∈ op.describe_params, p.1 = .weight ∨ p.1 = .bias := by
    unfold describe_params
    split <;> simp
  refine ⟨fun hmem => ?_, fun hmem => ?_⟩ <;> obtain ⟨p, hp, he⟩ := List.mem_map.mp hmem <;>
    rcases List.mem_append.mp hp with hp | hp
  · rcases hparams p hp with h | h <;> rw [he] at h <;> cases h
  · rcases (hsupp p hp).2 with ⟨-, h, h'⟩ | h <;> simp_all
  · rcases hparams p hp with h | h <;> rw [he] at h <;> cases h
  · rcases (hsupp p hp).2 with ⟨-, h, h'⟩ | h <;> simp_all

/-- A training generator names, before its first yield, its input, attributes of its own its
descriptors declare, and for a `ResidualEnd` its `begin`'s `fwd_residue`; resumed with `g`, it
names besides `g`, the gradients of its parameters if it writes them, and for a `ResidualBegin`
its `end`'s `bwd_residue`. -/
theorem training_names_declared (fp32 : D) {t : Training} (h : op.training x = .ok t)
    (hns : op.training_tensor_names fp32 = .ok ns) (g : Buf) :
    (∀ b ∈ t.y :: t.fwd.flatMap Call.bufs, b = x ∨ (∃ fld ∈ ns, b = .field op.id fld) ∨
      ∃ begin, op.kind = .ResidualEnd begin ∧ b = .field begin .fwd_residue) ∧
    (∀ b ∈ (t.bwd g).2 :: (t.bwd g).1.flatMap Call.bufs, b = x ∨ b = g ∨
      (∃ fld ∈ ns, b = .field op.id fld) ∨
      (op.writes_param_grad = true ∧ (b = .field op.id .weight_grad ∨ b = .field op.id .bias_grad)) ∨
      ∃ e, op.kind = .ResidualBegin (some e) ∧ b = .field e .bwd_residue) ∧
    (op.writes_param_grad = true → ∃ c ∈ (t.bwd g).1,
      Buf.field op.id .weight_grad ∈ c.bufs ∨ Buf.field op.id .bias_grad ∈ c.bufs) := by
  unfold training at h
  unfold training_tensor_names describe_supplementary_tensors_training describe_params at hns
  unfold writes_param_grad
  cases hk : op.kind <;> simp only [hk] at h hns ⊢
  case' Transpose =>
    obtain ⟨s, hs, h⟩ := bind_eq_ok.mp h
    obtain ⟨act, hact, h⟩ := bind_eq_ok.mp h
    simp only [hs, hact, ok_bind] at hns
    split_ifs at h
  case' ResidualBegin e =>
    obtain _ | e := e
    · cases h
  case' Scatter | ReduceScatter | AllGather | AllReduce => obtain ⟨_, -, h⟩ := bind_eq_ok.mp h
  all_goals
    obtain ⟨ds, hds, hns⟩ := bind_eq_ok.mp hns
    cases hns
    cases h
    simp only [bind_eq_ok, pure_eq_ok, ne_eq, if_pos, if_neg, not_false_eq_true, *] at hds
    first | subst hds | obtain ⟨_, -, rfl⟩ := hds | obtain ⟨_, -, _, -, _, -, _, -, rfl⟩ := hds
    simp only [Call.bufs, List.flatMap_nil, List.flatMap_cons, List.map_nil, List.map_cons,
      List.append_nil, List.nil_append, List.cons_append, List.singleton_append, List.mem_append,
      List.mem_cons, List.mem_singleton, List.not_mem_nil, Buf.field.injEq, OpKind.ResidualBegin.injEq,
      OpKind.ResidualEnd.injEq, Option.some.injEq, reduceCtorEq, Bool.false_eq_true, or_imp,
      forall_and, forall_eq, IsEmpty.forall_iff, implies_true, imp_self, exists_const, exists_false,
      exists_eq_left, exists_eq_left', exists_eq_or_imp, or_true, true_or, or_false, false_or, or_self,
      or_self_left, and_self, and_true, true_and, false_and, and_false]

theorem fwd_residue_mem_training_tensor_names (fp32 : D) {e : Option Nat}
    (hk : op.kind = .ResidualBegin e) (hns : op.training_tensor_names fp32 = .ok ns) :
    Field.fwd_residue ∈ ns := by
  simp only [training_tensor_names, describe_supplementary_tensors_training, describe_params,
    hk] at hns
  obtain ⟨_, hds, hns⟩ := bind_eq_ok.mp hns
  obtain ⟨_, -, hds⟩ := bind_eq_ok.mp hds
  cases hds
  cases hns
  simp

theorem bwd_residue_mem_training_tensor_names (fp32 : D) {b : Nat}
    (hk : op.kind = .ResidualEnd b) (hns : op.training_tensor_names fp32 = .ok ns) :
    Field.bwd_residue ∈ ns := by
  simp only [training_tensor_names, describe_supplementary_tensors_training, describe_params,
    hk] at hns
  obtain ⟨_, hds, hns⟩ := bind_eq_ok.mp hns
  obtain ⟨_, -, hds⟩ := bind_eq_ok.mp hds
  cases hds
  cases hns
  simp

variable [DecidableEq D]

/-- `inference` names its input, attributes of its own that its descriptors declare, and for a
`ResidualEnd` its `begin`'s `fwd_residue`: the in-place branches and the descriptors test the
same conditions. -/
theorem inference_names_declared (fp32 : D) (h : op.inference x = .ok (cs, y))
    (hns : op.inference_tensor_names fp32 = .ok ns) :
    ∀ b ∈ y :: cs.flatMap Call.bufs, b = x ∨ (∃ fld ∈ ns, b = .field op.id fld) ∨
      ∃ begin, op.kind = .ResidualEnd begin ∧ b = .field begin .fwd_residue := by
  unfold inference at h
  unfold inference_tensor_names describe_supplementary_tensors_inference
    describe_supplementary_tensors_training describe_params at hns
  cases hk : op.kind <;> simp only [hk] at h hns
  case' Transpose =>
    obtain ⟨s, hs, h⟩ := bind_eq_ok.mp h
    obtain ⟨act, hact, h⟩ := bind_eq_ok.mp h
    simp only [hs, hact, ok_bind] at hns
    split_ifs at h
  case' Gemm =>
    split_ifs at h hns
    on_goal 2 =>
      obtain ⟨s, hs, h⟩ := bind_eq_ok.mp h
      obtain ⟨act, hact, h⟩ := bind_eq_ok.mp h
      simp only [hs, hact, ok_bind] at hns
      split_ifs at h
  case' LayerNorm | Gelu | Relu => split_ifs at h
  case' Scatter | ReduceScatter | AllGather | AllReduce => obtain ⟨_, -, h⟩ := bind_eq_ok.mp h
  all_goals
    obtain ⟨ds, hds, hns⟩ := bind_eq_ok.mp hns
    cases hns
    cases h
    simp only [bind_eq_ok, pure_eq_ok, ne_eq, if_pos, if_neg, not_false_eq_true, *] at hds
    first | subst hds | obtain ⟨_, -, rfl⟩ := hds
    simp [Call.bufs, or_imp, forall_and]

theorem fwd_residue_mem_inference_tensor_names (fp32 : D) {e : Option Nat}
    (hk : op.kind = .ResidualBegin e) (hns : op.inference_tensor_names fp32 = .ok ns) :
    Field.fwd_residue ∈ ns := by
  simp only [inference_tensor_names, describe_supplementary_tensors_inference,
    describe_supplementary_tensors_training, describe_params, hk] at hns
  obtain ⟨_, hds, hns⟩ := bind_eq_ok.mp hns
  obtain ⟨_, -, hds⟩ := bind_eq_ok.mp hds
  cases hds
  cases hns
  simp

end Op

/-- A tensor the caller provides to `inference` over `ops`: the input, or an attribute an op of
`ops` declares for it. -/
def Allocated [DecidableEq D] (fp32 : D) (ops : List (Op D)) (b : Buf) : Prop :=
  b = .input ∨ ∃ op ∈ ops, ∃ fld, b = .field op.id fld ∧
    ∃ ns, op.inference_tensor_names fp32 = .ok ns ∧ fld ∈ ns

section Allocated

variable [DecidableEq D] (fp32 : D) (all : List (Op D))

/-- Over a list whose every `ResidualEnd` closes an open `ResidualBegin`, from an allocated input
and allocated open residues, `inference` names only allocated tensors. -/
theorem inference_run_allocated {ops : List (Op D)} {x y : Buf} {P : Finset Nat} {cs : List Call}
    (hall : ∀ op ∈ ops, op ∈ all)
    (hdesc : ∀ op ∈ ops, ∃ ns, op.inference_tensor_names fp32 = .ok ns)
    (hx : Allocated fp32 all x) (hP : ∀ b ∈ P, Allocated fp32 all (.field b .fwd_residue))
    (hopen : open_residuals P ops ≠ none) (h : inference_run ops x = .ok (cs, y)) :
    ∀ b ∈ y :: cs.flatMap Call.bufs, Allocated fp32 all b := by
  induction ops generalizing x P cs with
  | nil =>
    cases h
    simpa using hx
  | cons op ops ih =>
    obtain ⟨cs₁, y₁, cs₂, h₁, h₂, rfl⟩ := inference_run_cons_eq_ok.mp h
    obtain ⟨Q, hQ, hopen'⟩ := open_residuals_cons_ne_none.mp hopen
    rw [List.forall_mem_cons] at hall hdesc
    obtain ⟨ns, hns⟩ := hdesc.1
    -- what the op names is allocated
    have hstep : ∀ b ∈ y₁ :: cs₁.flatMap Call.bufs, Allocated fp32 all b := by
      intro b hb
      rcases op.inference_names_declared fp32 h₁ hns b hb with rfl | ⟨fld, hfld, rfl⟩ |
        ⟨begin, hk, rfl⟩
      · exact hx
      · exact .inr ⟨op, hall.1, fld, rfl, ns, hns, hfld⟩
      · exact hP begin (op.begin_mem_of_open_after hk hQ)
    have hQ' := op.forall_open_after hQ hP fun _ hk =>
      .inr ⟨op, hall.1, _, rfl, ns, hns, op.fwd_residue_mem_inference_tensor_names fp32 hk hns⟩
    have hrest := ih hall.2 hdesc.2 (hstep y₁ (List.mem_cons_self _ _)) hQ' hopen' h₂
    intro b hb
    simp only [List.flatMap_append, List.mem_cons, List.mem_append] at hb
    rcases hb with rfl | hb | hb
    · exact hrest _ (List.mem_cons_self _ _)
    · exact hstep b (List.mem_cons_of_mem _ hb)
    · exact hrest b (List.mem_cons_of_mem _ hb)

end Allocated

section Declared

variable [DecidableEq D]

/-- Over a list whose every `ResidualEnd` closes an open `ResidualBegin`, every tensor of an
instance that `inference` names is declared by that instance's `describe_params` or
`describe_supplementary_tensors_inference`: its in-place branches and its descriptors agree, and
a `ResidualEnd` reads only the `fwd_residue` its `begin` declares. -/
theorem inference_run_names_declared (fp32 : D) {ops : List (Op D)}
    (hopen : open_residuals ∅ ops ≠ none)
    (hdesc : ∀ op ∈ ops, ∃ ns, op.inference_tensor_names fp32 = .ok ns) {cs : List Call}
    {y : Buf} (h : inference_run ops .input = .ok (cs, y)) :
    ∀ c ∈ cs, ∀ j fld, Buf.field j fld ∈ c.bufs →
      ∃ op ∈ ops, op.id = j ∧ ∃ ns, op.inference_tensor_names fp32 = .ok ns ∧ fld ∈ ns := by
  intro c hc j fld hb
  have hall := inference_run_allocated fp32 ops (fun _ h => h) hdesc (.inl rfl)
    (fun _ h => absurd h (Finset.not_mem_empty _)) hopen h (.field j fld)
    (List.mem_cons_of_mem _ (List.mem_flatMap.mpr ⟨c, hc, hb⟩))
  rcases hall with h | ⟨op, hop, fld', he, hns⟩
  · cases h
  · cases he
    exact ⟨op, hop, rfl, hns⟩

/-- A residual block around a `Gemm` computed in place and a `Gelu` that changes the type: every
tensor inference names is declared. -/
theorem inference_run_names_declared_residual :
    let ops : List (Op Nat) :=
      [⟨0, .ResidualBegin (some 1), 0, 0, some none, some ParallelismClass.NORMAL, some [2, 4]⟩,
        ⟨2, .Gemm 0 4 4 0, 0, 0, some none, some ParallelismClass.NORMAL, some [2, 4]⟩,
        ⟨3, .Gelu, 0, 1, some none, some ParallelismClass.NORMAL, some [2, 4]⟩,
        ⟨1, .ResidualEnd 0, 1, 1, some none, some ParallelismClass.NORMAL, some [2, 4]⟩]
    ∃ cs y, inference_run ops .input = .ok (cs, y) ∧ ∀ c ∈ cs, ∀ j fld, Buf.field j fld ∈ c.bufs →
      ∃ op ∈ ops, op.id = j ∧ ∃ ns, op.inference_tensor_names 1 = .ok ns ∧ fld ∈ ns := by
  intro ops
  have hdesc : ∀ op ∈ ops, ∃ ns, op.inference_tensor_names 1 = .ok ns := by
    intro op hop
    simp only [ops, List.mem_cons, List.mem_singleton, List.not_mem_nil, or_false] at hop
    rcases hop with rfl | rfl | rfl | rfl <;> exact ⟨_, rfl⟩
  exact ⟨_, _, rfl, @inference_run_names_declared Nat instDecidableEqNat 1 ops (by decide) hdesc
    _ _ rfl⟩

end Declared

end transformer_engine.sequential_new
