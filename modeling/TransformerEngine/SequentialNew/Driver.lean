import TransformerEngine.SequentialNew.Gradient
import TransformerEngine.SequentialNew.Declared

namespace transformer_engine.sequential_new

/-! The training run as its caller drives it. A generator reads its tensors as attributes, which
exist only where `set_tensors_allocated` injected them; the caller (modelled from the spec: none
is under src/) allocates the input, the output gradient and what every op's `describe_params`
and `describe_supplementary_tensors_training` declare. An attribute nothing declared raises
`AttributeError` where the generator evaluates it, and Python evaluates a call's arguments
before it makes the call: the calls before it are made, that one is not, and nothing after. -/

variable {D : Type}

/-- Whether the caller allocates `b` for training `ops`. -/
def training_allocated (fp32 : D) (ops : List (Op D)) : Buf → Bool
  | .input | .output_grad => true
  | .field j fld => ops.any fun op => op.id == j &&
    match op.training_tensor_names fp32 with
    | .ok ns => decide (fld ∈ ns)
    | .error _ => false

/-- What a generator does between two resumptions, one step at a time: a kernel call, which
evaluates the tensors it names, and last the yield, which evaluates the tensor it hands on. -/
inductive Step where
  | call (c : Call)
  | yield (b : Buf)

/-- The tensors a step evaluates. -/
def Step.bufs : Step → List Buf
  | .call c => c.bufs
  | .yield b => [b]

/-- The kernel call a step makes, if any. -/
def Step.calls : Step → List Call
  | .call c => [c]
  | .yield _ => []

/-- A generator's calls up to a yield, then the yield. -/
def half_steps (cs : List Call) (y : Buf) : List Step := cs.map .call ++ [.yield y]

/-- The steps of the backward phase: the generators resumed in reverse list order, as
`backward_phase` resumes them. -/
def backward_steps : List Training → Buf → List Step
  | [], _ => []
  | t :: ts, g =>
    backward_steps ts g ++
      half_steps (t.bwd (backward_phase ts g).2).1 (t.bwd (backward_phase ts g).2).2

/-- The steps of a training run: the forward halves in list order, then the backward ones. -/
def training_steps (ts : List Training) (g : Buf) : List Step :=
  ts.flatMap (fun t => half_steps t.fwd t.y) ++ backward_steps ts g

/-- Runs `ss` in order until a step names a tensor that is not allocated: the calls made, and
whether every step ran. -/
def run_steps (alloc : Buf → Bool) : List Step → List Call × Bool
  | [] => ([], true)
  | s :: ss =>
    if s.bufs.all alloc then
      let r := run_steps alloc ss
      (s.calls ++ r.1, r.2)
    else ([], false)

/-- A training run of the generators `ts` on the tensors `alloc` allows, resumed with the
gradient `g`: the calls made, and the gradient tensor handed back or the error raised. -/
def training_run (alloc : Buf → Bool) (ts : List Training) (g : Buf) :
    List Call × Except String Buf :=
  let r := run_steps alloc (training_steps ts g)
  (r.1, if r.2 then .ok (backward_phase ts g).2 else .error "AttributeError")

section Steps

variable {alloc : Buf → Bool}

theorem half_steps_calls (cs : List Call) (y : Buf) : (half_steps cs y).flatMap Step.calls = cs := by
  induction cs with
  | nil => rfl
  | cons c cs ih => simpa [half_steps, Step.calls] using ih

theorem forall_half_steps_bufs {p : Buf → Prop} {cs : List Call} {y : Buf} :
    (∀ s ∈ half_steps cs y, ∀ b ∈ s.bufs, p b) ↔ ∀ b ∈ y :: cs.flatMap Call.bufs, p b := by
  simp only [half_steps, List.forall_mem_append, List.forall_mem_cons, List.forall_mem_map, Step.bufs,
    List.forall_mem_flatMap, List.not_mem_nil, false_implies, implies_true, true_and, and_true]
  exact and_comm

theorem backward_steps_calls (ts : List Training) (g : Buf) :
    (backward_steps ts g).flatMap Step.calls = (backward_phase ts g).1 := by
  induction ts with
  | nil => rfl
  | cons t ts ih => simp [backward_steps, backward_phase, ih, half_steps_calls]

/-- The calls of the steps are those of `training_trace`. -/
theorem training_steps_calls (ts : List Training) (g : Buf) :
    (training_steps ts g).flatMap Step.calls = training_trace ts g := by
  simp [training_steps, training_trace, backward_steps_calls, List.flatMap_assoc, half_steps_calls]

theorem run_steps_fst_isPrefix (ss : List Step) : (run_steps alloc ss).1 <+: ss.flatMap Step.calls := by
  induction ss with
  | nil => exact List.nil_prefix
  | cons s ss ih =>
    unfold run_steps
    split_ifs
    · exact (List.prefix_append_right_inj _).mpr ih
    · exact List.nil_prefix

/-- Every step runs exactly when every tensor a step names is allocated. -/
theorem run_steps_snd_iff (ss : List Step) :
    (run_steps alloc ss).2 = true ↔ ∀ s ∈ ss, ∀ b ∈ s.bufs, alloc b = true := by
  induction ss with
  | nil => simp [run_steps]
  | cons s ss ih =>
    by_cases hs : s.bufs.all alloc = true <;>
      simp only [run_steps, hs, ih, List.forall_mem_cons, ← List.all_eq_true, if_true, if_false,
        Bool.false_eq_true, false_and, true_and]

theorem run_steps_fst_of_snd {ss : List Step} (h : (run_steps alloc ss).2 = true) :
    (run_steps alloc ss).1 = ss.flatMap Step.calls := by
  induction ss with
  | nil => rfl
  | cons s ss ih =>
    unfold run_steps at h ⊢
    split_ifs at h ⊢
    exact congrArg (s.calls ++ ·) (ih h)

/-- Every call made names only allocated tensors. -/
theorem run_steps_allocated (ss : List Step) :
    ∀ c ∈ (run_steps alloc ss).1, ∀ b ∈ c.bufs, alloc b = true := by
  induction ss with
  | nil => exact fun _ h => nomatch h
  | cons s ss ih =>
    unfold run_steps
    split_ifs with hs
    · intro c hc
      rcases List.mem_append.mp hc with hc | hc
      · cases s with
        | call c' =>
          obtain rfl := List.mem_singleton.mp hc
          exact List.all_eq_true.mp hs
        | yield _ => cases hc
      · exact ih c hc
    · exact fun _ h => nomatch h

theorem training_run_fst_isPrefix (ts : List Training) (g : Buf) :
    (training_run alloc ts g).1 <+: training_trace ts g :=
  training_steps_calls ts g ▸ run_steps_fst_isPrefix _

theorem training_run_snd_eq_ok {ts : List Training} {g gb : Buf} :
    (training_run alloc ts g).2 = .ok gb ↔
      (run_steps alloc (training_steps ts g)).2 = true ∧ gb = (backward_phase ts g).2 := by
  by_cases h : (run_steps alloc (training_steps ts g)).2 <;> simp [training_run, h, eq_comm]

theorem training_run_snd_eq_error {ts : List Training} {g : Buf} :
    (training_run alloc ts g).2 = .error "AttributeError" ↔
      (run_steps alloc (training_steps ts g)).2 = false := by
  by_cases h : (run_steps alloc (training_steps ts g)).2 <;> simp [training_run, h]

end Steps

section Allocated

variable (fp32 : D) (all : List (Op D))

theorem training_allocated_field_iff {j : Nat} {fld : Field} :
    training_allocated fp32 all (.field j fld) = true ↔
      ∃ op ∈ all, op.id = j ∧ ∃ ns, op.training_tensor_names fp32 = .ok ns ∧ fld ∈ ns := by
  simp only [training_allocated, List.any_eq_true, Bool.and_eq_true, beq_iff_eq]
  refine exists_congr fun op => and_congr_right fun _ => and_congr_right fun _ => ?_
  cases op.training_tensor_names fp32 <;> simp

/-- The caller never allocates a parameter gradient, since no descriptor declares one. -/
theorem training_allocated_not_grad (j : Nat) :
    training_allocated fp32 all (.field j .weight_grad) = false ∧
      training_allocated fp32 all (.field j .bias_grad) = false := by
  simp only [← Bool.not_eq_true, training_allocated_field_iff]
  constructor <;> rintro ⟨op, -, -, ns, hns, hfld⟩
  exacts [(op.training_tensor_names_not_grad fp32 hns).1 hfld,
    (op.training_tensor_names_not_grad fp32 hns).2 hfld]

variable {fp32 all}

/-- Over ops of `all` whose descriptors return and none of which writes parameter gradients,
from an allocated input and allocated open residues, every step of the forward halves names only
allocated tensors, and so does every step of the backward halves resumed from an allocated
gradient, which hands back an allocated one. -/
theorem training_steps_allocated_of (hdesc : ∀ op ∈ all, ∃ ns, op.training_tensor_names fp32 = .ok ns)
    (hpair : residuals_paired all = true) {ops : List (Op D)} {P : Finset Nat} {x y : Buf}
    {ts : List Training} (hall : ∀ op ∈ ops, op ∈ all)
    (hnone : ∀ op ∈ ops, op.writes_param_grad = false) (hx : training_allocated fp32 all x)
    (hP : ∀ b ∈ P, training_allocated fp32 all (.field b .fwd_residue))
    (hopen : open_residuals P ops ≠ none) (h : forward_phase ops x = .ok (ts, y)) :
    (∀ t ∈ ts, ∀ s ∈ half_steps t.fwd t.y, ∀ b ∈ s.bufs, training_allocated fp32 all b) ∧
      ∀ g, training_allocated fp32 all g →
        (∀ s ∈ backward_steps ts g, ∀ b ∈ s.bufs, training_allocated fp32 all b) ∧
          training_allocated fp32 all (backward_phase ts g).2 := by
  induction ops generalizing x P ts with
  | nil =>
    cases h
    exact ⟨nofun, fun _ hg => ⟨nofun, hg⟩⟩
  | cons op ops ih =>
    obtain ⟨t, ts', ht, hrest, rfl⟩ := forward_phase_cons_eq_ok.mp h
    obtain ⟨Q, hQ, hopen'⟩ := open_residuals_cons_ne_none.mp hopen
    rw [List.forall_mem_cons] at hall hnone
    obtain ⟨ns, hns⟩ := hdesc op hall.1
    have hown : ∀ fld ∈ ns, training_allocated fp32 all (.field op.id fld) :=
      fun _ hfld => (training_allocated_field_iff fp32 all).mpr ⟨op, hall.1, rfl, ns, hns, hfld⟩
    -- the forward half names its input, its own tensors and an open `fwd_residue`
    have hfwd : ∀ b ∈ t.y :: t.fwd.flatMap Call.bufs, training_allocated fp32 all b := by
      intro b hb
      rcases (op.training_names_declared fp32 ht hns x).1 b hb with rfl | ⟨fld, hfld, rfl⟩ |
        ⟨begin, hk, rfl⟩
      · exact hx
      · exact hown fld hfld
      · exact hP begin (op.begin_mem_of_open_after hk hQ)
    have hQ' := op.forall_open_after hQ hP fun _ hk =>
      hown _ (op.fwd_residue_mem_training_tensor_names fp32 hk hns)
    obtain ⟨ihf, ihb⟩ := ih hall.2 hnone.2 (hfwd _ (List.mem_cons_self _ _)) hQ' hopen' hrest
    refine ⟨List.forall_mem_cons.mpr ⟨forall_half_steps_bufs.mpr hfwd, ihf⟩, fun g hg => ?_⟩
    obtain ⟨hsteps, hr⟩ := ihb g hg
    -- the backward half names besides its gradient only what it is declared or paired with
    have hbwd : ∀ b ∈ (t.bwd (backward_phase ts' g).2).2 ::
        (t.bwd (backward_phase ts' g).2).1.flatMap Call.bufs, training_allocated fp32 all b := by
      intro b hb
      rcases (op.training_names_declared fp32 ht hns _).2.1 b hb with rfl | rfl |
        ⟨fld, hfld, rfl⟩ | ⟨hw, -⟩ | ⟨e, hk, rfl⟩
      · exact hx
      · exact hr
      · exact hown fld hfld
      · exact absurd hw (by simp [hnone.1])
      · obtain ⟨op', hop', rfl, hk'⟩ := residuals_paired_mem hpair op hall.1 e hk
        obtain ⟨ns', hns'⟩ := hdesc op' hop'
        exact (training_allocated_field_iff fp32 all).mpr
          ⟨op', hop', rfl, ns', hns', op'.bwd_residue_mem_training_tensor_names fp32 hk' hns'⟩
    refine ⟨fun s hs => ?_, hbwd _ (List.mem_cons_self _ _)⟩
    rcases List.mem_append.mp hs with hs | hs
    exacts [hsteps s hs, forall_half_steps_bufs.mpr hbwd s hs]

end Allocated

section Network

variable {V : Type} [Add V] [Inhabited V] {sem : Nat → Kernel → List V → List V}

/-- On every op list of distinct instances in which every `ResidualEnd` closes an open
`ResidualBegin` and every `ResidualBegin` names a later `ResidualEnd` that names it back, whose
training descriptors return, whenever the forward halves return: the training run raises
`AttributeError` exactly when some op writes gradients of its parameters, which no descriptor
declares; otherwise it makes every call and hands back a tensor holding `backward_run`, on
every store. Kernels return one value per tensor they write. -/
theorem training_run_backward (hsem : ∀ i k vs, (sem i k vs).length = k.outputs) (fp32 : D)
    {ops : List (Op D)} (hids : (ops.map Op.id).Nodup) (hopen : open_residuals ∅ ops ≠ none)
    (hpair : residuals_paired ops = true)
    (hdesc : ∀ op ∈ ops, ∃ ns, op.training_tensor_names fp32 = .ok ns) {ts : List Training}
    {y : Buf} (h : forward_phase ops .input = .ok (ts, y)) (σ : Buf → V) (R G : Nat → V) :
    ((training_run (training_allocated fp32 ops) ts .output_grad).2 = .error "AttributeError" ↔
        ∃ op ∈ ops, op.writes_param_grad = true) ∧
      ∀ gb, (training_run (training_allocated fp32 ops) ts .output_grad).2 = .ok gb →
        exec sem σ (training_run (training_allocated fp32 ops) ts .output_grad).1 gb =
          (backward_run sem σ ops (σ .input) R (σ .output_grad) G).1 := by
  refine ⟨training_run_snd_eq_error.trans ?_, fun gb hgb => ?_⟩
  · rw [← Bool.not_eq_true, run_steps_snd_iff]
    constructor
    -- an op that writes no parameter gradient names only allocated tensors
    · refine not_imp_comm.mp fun hnone => ?_
      simp only [not_exists, not_and, Bool.not_eq_true] at hnone
      obtain ⟨hf, hb⟩ := training_steps_allocated_of hdesc hpair (fun _ h => h) hnone
        (rfl : training_allocated fp32 ops .input = true)
        (fun _ h => absurd h (Finset.not_mem_empty _)) hopen h
      intro s hs
      rcases List.mem_append.mp hs with hs | hs
      · obtain ⟨t, ht, hs⟩ := List.mem_flatMap.mp hs
        exact hf t ht s hs
      · exact (hb .output_grad rfl).1 s hs
    -- the backward of one that writes them names an unallocated gradient
    · rintro ⟨op, hop, hw⟩ hall
      obtain ⟨x, t, ht, hmem⟩ := forward_phase_mem h hop
      obtain ⟨g, hg⟩ := backward_phase_mem hmem .output_grad
      obtain ⟨ns, hns⟩ := hdesc op hop
      obtain ⟨c, hc, hgrad⟩ := (op.training_names_declared fp32 ht hns g).2.2 hw
      have hstep : Step.call c ∈ training_steps ts .output_grad := by
        refine List.mem_append_right _ ?_
        obtain ⟨s, hs, hcs⟩ := List.mem_flatMap.mp
          ((backward_steps_calls ts .output_grad).symm ▸ hg c hc : c ∈ _)
        cases s with
        | call c' => exact List.mem_singleton.mp hcs ▸ hs
        | yield _ => cases hcs
      have hno := training_allocated_not_grad fp32 ops op.id
      rcases hgrad with hb | hb
      · exact absurd (hall _ hstep _ hb) (by simp [hno.1])
      · exact absurd (hall _ hstep _ hb) (by simp [hno.2])
  · obtain ⟨hall, rfl⟩ := training_run_snd_eq_ok.mp hgb
    have hcalls : (training_run (training_allocated fp32 ops) ts .output_grad).1 =
        training_trace ts .output_grad :=
      (run_steps_fst_of_snd hall).trans (training_steps_calls ts .output_grad)
    rw [hcalls]
    exact backward_phase_eq_backward_run hsem hids hopen hpair h σ R G

/-- A residual block around a `Gelu`: no op writes parameter gradients, so the run makes every
call and hands back the gradient `backward_run` computes. -/
theorem training_run_backward_residual_gelu :
    let ops : List (Op Nat) :=
      [⟨0, .ResidualBegin (some 2), 0, 0, some none, some ParallelismClass.NORMAL, some [2, 4]⟩,
        ⟨1, .Gelu, 0, 0, some none, some ParallelismClass.NORMAL, some [2, 4]⟩,
        ⟨2, .ResidualEnd 0, 0, 0, some none, some ParallelismClass.NORMAL, some [2, 4]⟩]
    let sem : Nat → Kernel → List Nat → List Nat :=
      fun _ k vs => List.replicate k.outputs (vs.foldr (· + ·) 1)
    ∃ ts y, forward_phase ops .input = .ok (ts, y) ∧
      ((training_run (training_allocated 0 ops) ts .output_grad).2 = .error "AttributeError" ↔
        ∃ op ∈ ops, op.writes_param_grad = true) ∧
      ∀ gb, (training_run (training_allocated 0 ops) ts .output_grad).2 = .ok gb →
        exec sem (fun _ => 1) (training_run (training_allocated 0 ops) ts .output_grad).1 gb =
          (backward_run sem (fun _ => 1) ops 1 (fun _ => 0) 1 fun _ => 0).1 := by
  intro ops sem
  have hdesc : ∀ op ∈ ops, ∃ ns, op.training_tensor_names 0 = .ok ns := by
    intro op hop
    simp only [ops, List.mem_cons, List.mem_singleton, List.not_mem_nil, or_false] at hop
    rcases hop with rfl | rfl | rfl <;> exact ⟨_, rfl⟩
  exact ⟨_, _, rfl, @training_run_backward _ _ _ _ sem (fun _ _ _ => List.length_replicate _ _) 0 ops
    (by decide) (by decide) rfl hdesc _ _ rfl (fun _ => 1) (fun _ => 0) fun _ => 0⟩

end Network

end transformer_engine.sequential_new
