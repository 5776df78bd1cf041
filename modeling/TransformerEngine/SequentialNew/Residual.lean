import TransformerEngine.SequentialNew.Run

namespace transformer_engine.sequential_new

variable {D : Type}

/-- The `ResidualBegin` and `ResidualEnd` that `Residual.expand_for_sequential` builds: each
names the other (`end = ResidualEnd(.., begin)`, then `begin.end = end`). -/
structure ResidualPair (D : Type) where
  begin : Op D
  end_ : Op D
  begin_kind : begin.kind = .ResidualBegin (some end_.id)
  end_kind : end_.kind = .ResidualEnd begin.id

namespace ResidualPair

variable (p : ResidualPair D)

/-- `Residual.expand_for_sequential`: the expanded inner modules between the pair. -/
def expand_for_sequential (ops : List (Op D)) : List (Op D) := p.begin :: ops ++ [p.end_]

/-- `begin.fwd_residue`, where the begin caches the block's input. -/
def fwd_residue : Buf := .field p.begin.id .fwd_residue

/-- `end.bwd_residue`, where the end caches the block's output gradient. -/
def bwd_residue : Buf := .field p.end_.id .bwd_residue

/-- A tensor other than the pair's two residues. -/
def Untouched (b : Buf) : Prop := b ≠ p.fwd_residue ∧ b ≠ p.bwd_residue

theorem begin_training (x : Buf) :
    p.begin.training x = .ok ⟨[⟨.copy, p.begin.id, [x], [p.fwd_residue]⟩], x,
      fun g => ([⟨.add, p.begin.id, [p.bwd_residue, g], [p.bwd_residue]⟩], p.bwd_residue)⟩ := by
  rw [Op.training, p.begin_kind]
  rfl

theorem end_training (x : Buf) :
    p.end_.training x = .ok ⟨[⟨.add, p.end_.id, [p.fwd_residue, x], [p.fwd_residue]⟩],
      p.fwd_residue, fun g => ([⟨.copy, p.end_.id, [g], [p.bwd_residue]⟩], g)⟩ := by
  rw [Op.training, p.end_kind]
  rfl

theorem begin_inference [DecidableEq D] (x : Buf) :
    p.begin.inference x = .ok ([⟨.copy, p.begin.id, [x], [p.fwd_residue]⟩], x) := by
  rw [Op.inference, p.begin_kind]
  rfl

theorem end_inference [DecidableEq D] (x : Buf) :
    p.end_.inference x =
      .ok ([⟨.add, p.end_.id, [p.fwd_residue, x], [p.fwd_residue]⟩], p.fwd_residue) := by
  rw [Op.inference, p.end_kind]
  rfl

end ResidualPair

variable {V : Type} [Add V] {sem : Nat → Kernel → List V → List V}

/-- Caching `x` in `r`, running calls that leave `r` alone, and adding their result `y` back
into `r` leaves `x + y` in `r` and the calls' store everywhere else. -/
theorem exec_residual {σ : Buf → V} {r x y : Buf} {cs : List Call} {i j : Nat}
    (hcs : ∀ c ∈ cs, r ∉ c.bufs) (hy : y ≠ r) :
    exec sem σ (⟨.copy, i, [x], [r]⟩ :: (cs ++ [⟨.add, j, [r, y], [r]⟩])) =
      Function.update (exec sem σ cs) r (σ x + exec sem σ cs y) := by
  rw [exec_cons, exec_append, Call.exec_copy, exec_update hcs, exec_cons,
    exec_nil, Call.exec_add, Function.update_same, Function.update_noteq hy,
    Function.update_idem]

theorem Call.not_mem_bufs {c : Call} {P : Buf → Prop} {r : Buf}
    (hc : (∀ b ∈ c.src, P b) ∧ ∀ b ∈ c.dst, P b) (hr : ¬ P r) : r ∉ c.bufs := by
  rw [Call.mem_bufs]
  rintro (h | h)
  exacts [hr (hc.1 r h), hr (hc.2 r h)]

/-- A residual block adds its input to what its inner ops compute from it, both in training
(the generators' first yields) and in inference, and adds the gradient it is resumed with to
what the inner backward computes from it. This holds whatever the inner ops overwrite in
place, as long as none of them names the pair's instances. -/
theorem expand_for_sequential_adds_residue [DecidableEq D]
    (sem : Nat → Kernel → List V → List V) (σ : Buf → V) (p : ResidualPair D)
    {ops : List (Op D)}
    (hops : ∀ op ∈ ops, ∀ i ∈ op.fwd_refs ++ op.bwd_refs, i ≠ p.begin.id ∧ i ≠ p.end_.id) :
    (∀ ts y, forward_phase ops .input = .ok (ts, y) →
      ∃ ts' y', forward_phase (p.expand_for_sequential ops) .input = .ok (ts', y') ∧
        exec sem σ (ts'.flatMap Training.fwd) y' =
          σ .input + exec sem σ (ts.flatMap Training.fwd) y ∧
        exec sem σ (training_trace ts' .output_grad) (backward_phase ts' .output_grad).2 =
          σ .output_grad +
            exec sem σ (training_trace ts .output_grad) (backward_phase ts .output_grad).2) ∧
    (∀ cs y, inference_run ops .input = .ok (cs, y) →
      ∃ cs' y', inference_run (p.expand_for_sequential ops) .input = .ok (cs', y') ∧
        exec sem σ cs' y' = σ .input + exec sem σ cs y) := by
  -- the inner ops name neither residue, and before their first yields no gradient
  have hfields : ∀ op ∈ ops, ∀ i ∈ op.fwd_refs ++ op.bwd_refs, ∀ f,
      p.Untouched (.field i f) ∧ Buf.field i f ≠ .output_grad := fun op hop i hi f => by
    obtain ⟨hb, he⟩ := hops op hop i hi
    simp [ResidualPair.Untouched, ResidualPair.fwd_residue, ResidualPair.bwd_residue, hb, he]
  have hPQ : ∀ b, (p.Untouched b ∧ b ≠ .output_grad) → p.Untouched b := fun _ h => h.1
  have hinput : p.Untouched .input ∧ Buf.input ≠ .output_grad := by
    simp [ResidualPair.Untouched, ResidualPair.fwd_residue, ResidualPair.bwd_residue]
  have hsat : ∀ op ∈ ops, FieldsSatisfy op.fwd_refs (fun b => p.Untouched b ∧ b ≠ .output_grad)
      (fun b => p.Untouched b ∧ b ≠ .output_grad) ∧
      FieldsSatisfy op.bwd_refs p.Untouched p.Untouched := fun op hop =>
    ⟨fun i hi f => ⟨hfields op hop i (List.mem_append_left _ hi) f,
        fun _ => hfields op hop i (List.mem_append_left _ hi) f⟩,
      fun i hi f => ⟨(hfields op hop i (List.mem_append_right _ hi) f).1,
        fun _ => (hfields op hop i (List.mem_append_right _ hi) f).1⟩⟩
  refine ⟨fun ts y hF => ?_, fun cs y hF => ?_⟩
  · obtain ⟨hts, hy, -⟩ := forward_phase_footprint hF hinput hinput hPQ hPQ hsat
    obtain ⟨hbc, hdx, -⟩ := backward_phase_footprint hts
      (show p.Untouched .output_grad by
        simp [ResidualPair.Untouched, ResidualPair.fwd_residue, ResidualPair.bwd_residue])
      (show p.Untouched .output_grad by
        simp [ResidualPair.Untouched, ResidualPair.fwd_residue, ResidualPair.bwd_residue])
    have hF₁ : ∀ c ∈ ts.flatMap Training.fwd, p.fwd_residue ∉ c.bufs := by
      intro c hc
      obtain ⟨t, ht, hc⟩ := List.mem_flatMap.mp hc
      exact Call.not_mem_bufs ((hts t ht).fwd c hc) fun h => h.1.1 rfl
    have hF₂ : ∀ c ∈ ts.flatMap Training.fwd, Buf.output_grad ∉ c.dst := by
      intro c hc hg
      obtain ⟨t, ht, hc⟩ := List.mem_flatMap.mp hc
      exact ((hts t ht).fwd c hc).2 _ hg |>.2 rfl
    have hbc₁ : ∀ c ∈ (backward_phase ts .output_grad).1, p.fwd_residue ∉ c.bufs :=
      fun c hc => Call.not_mem_bufs (hbc c hc) fun h => h.1 rfl
    have hbc₂ : ∀ c ∈ (backward_phase ts .output_grad).1, p.bwd_residue ∉ c.bufs :=
      fun c hc => Call.not_mem_bufs (hbc c hc) fun h => h.2 rfl
    refine ⟨_, _, forward_phase_append_eq_ok.mpr ⟨_, y, _,
      forward_phase_cons_eq_ok.mpr ⟨_, ts, p.begin_training _, hF, rfl⟩,
      forward_phase_cons_eq_ok.mpr ⟨_, [], p.end_training y, rfl, rfl⟩, rfl⟩, ?_, ?_⟩
    · simp only [List.flatMap_append, List.flatMap_cons, List.flatMap_nil, List.append_nil,
        List.cons_append, List.nil_append]
      rw [exec_residual hF₁ hy.1.1, Function.update_same]
    · generalize hr : backward_phase ts .output_grad = r at hbc₁ hbc₂ hdx
      obtain ⟨bc, dx⟩ := r
      rw [training_trace, exec_append, backward_phase_append]
      simp only [backward_phase, hr, List.flatMap_append, List.flatMap_cons, List.flatMap_nil,
        List.append_nil, List.nil_append, List.cons_append]
      rw [training_trace, exec_append, hr,exec_residual hF₁ hy.1.1, exec_residual hbc₂ hdx.2, Function.update_same,
        Function.update_noteq (by simp [ResidualPair.fwd_residue]), exec_of_not_mem hF₂,
        exec_update hbc₁, Function.update_noteq hdx.1]
  · obtain ⟨hcs, hy, -⟩ := inference_run_footprint hF hinput hinput fun op hop => (hsat op hop).1
    have hcs₁ : ∀ c ∈ cs, p.fwd_residue ∉ c.bufs :=
      fun c hc => Call.not_mem_bufs (hcs c hc) fun h => h.1.1 rfl
    refine ⟨_, _, inference_run_append_eq_ok.mpr ⟨_, y, _,
      inference_run_cons_eq_ok.mpr ⟨_, _, cs, p.begin_inference _, hF, rfl⟩,
      inference_run_cons_eq_ok.mpr ⟨_, _, [], p.end_inference y, rfl, rfl⟩, rfl⟩, ?_⟩
    simp only [List.append_nil, List.cons_append, List.nil_append]
    rw [exec_residual hcs₁ hy.1.1, Function.update_same]

/-- A residual block around one `Bias` on numbers, every tensor holding `1`: the bias makes the
input `2`, and the block yields `1 + 2`. -/
theorem expand_for_sequential_adds_residue_bias :
    let p : ResidualPair Nat :=
      ⟨⟨0, .ResidualBegin (some 1), 0, 0, some none, some ParallelismClass.NORMAL, some [2, 4]⟩,
        ⟨1, .ResidualEnd 0, 0, 0, some none, some ParallelismClass.NORMAL, some [2, 4]⟩, rfl, rfl⟩
    let ops : List (Op Nat) :=
      [⟨2, .Bias 0 4 0, 0, 0, some none, some ParallelismClass.NORMAL, some [2, 4]⟩]
    ∃ ts' y', forward_phase (p.expand_for_sequential ops) .input = .ok (ts', y') ∧
      exec (fun _ _ _ => []) (fun _ => 1) (ts'.flatMap Training.fwd) y' = 3 := by
  intro p ops
  obtain ⟨ts', y', h, hv, -⟩ := (@expand_for_sequential_adds_residue _ _ _ _ (fun _ _ _ => [])
    (fun _ => (1 : Nat)) p ops (by decide)).1 _ _ rfl
  exact ⟨ts', y', h, hv.trans rfl⟩

end transformer_engine.sequential_new
