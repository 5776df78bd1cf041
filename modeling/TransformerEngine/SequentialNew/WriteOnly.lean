import TransformerEngine.SequentialNew.Driver

namespace transformer_engine.sequential_new

/-! The write-only tensors: every supplementary tensor the descriptors declare without an
initializer is written by a kernel call before any call the training run makes reads it. The
reads of a call are covered by what is initialized (the input, the output gradient and the
parameters) and what earlier calls wrote; `Gemm`'s `x_t`, which no call writes, is read only by
the call that also names its `weight_grad`, which the run never makes. -/

variable {D : Type}

/-- Every call of `cs` that names only tensors `alloc` allows reads only tensors of `W` or
tensors an earlier call of `cs` wrote. -/
def ReadsWritten (alloc : Buf → Bool) (W : Buf → Prop) : List Call → Prop
  | [] => True
  | c :: cs => ((∀ b ∈ c.bufs, alloc b = true) → ∀ b ∈ c.src, W b) ∧
      ReadsWritten alloc (fun b => W b ∨ b ∈ c.dst) cs

namespace ReadsWritten

variable {alloc : Buf → Bool} {W W' : Buf → Prop} {cs ds : List Call}

theorem mono (hW : ∀ b, W b → W' b) (h : ReadsWritten alloc W cs) : ReadsWritten alloc W' cs := by
  induction cs generalizing W W' with
  | nil => trivial
  | cons c cs ih =>
    exact ⟨fun ha b hb => hW b (h.1 ha b hb), ih (fun b => Or.imp_left (hW b)) h.2⟩

theorem of_forall (h : ∀ c ∈ cs, (∀ b ∈ c.bufs, alloc b = true) → ∀ b ∈ c.src, W b) :
    ReadsWritten alloc W cs := by
  induction cs generalizing W with
  | nil => trivial
  | cons c cs ih =>
    rw [List.forall_mem_cons] at h
    exact ⟨h.1, ih fun c hc ha b hb => .inl (h.2 c hc ha b hb)⟩

theorem append (h : ReadsWritten alloc W cs)
    (h' : ReadsWritten alloc (fun b => W b ∨ ∃ c ∈ cs, b ∈ c.dst) ds) :
    ReadsWritten alloc W (cs ++ ds) := by
  induction cs generalizing W with
  | nil => exact h'.mono fun b hb => hb.resolve_right fun ⟨_, h, _⟩ => nomatch h
  | cons c cs ih =>
    refine ⟨h.1, ih h.2 (h'.mono fun b => ?_)⟩
    rintro (hb | ⟨c', hc', hb⟩)
    · exact .inl (.inl hb)
    · rcases List.mem_cons.mp hc' with rfl | hc'
      exacts [.inl (.inr hb), .inr ⟨c', hc', hb⟩]

theorem of_isPrefix {p : List Call} (h : ReadsWritten alloc W cs) (hp : p <+: cs) :
    ReadsWritten alloc W p := by
  obtain ⟨ds, rfl⟩ := hp
  induction p generalizing W with
  | nil => trivial
  | cons c p ih => exact ⟨h.1, ih h.2⟩

/-- Over calls that name only allowed tensors, a tensor outside `W` is written before it is
read. -/
theorem written_before_read {r : Buf} (h : ReadsWritten alloc W cs)
    (halloc : ∀ c ∈ cs, ∀ b ∈ c.bufs, alloc b = true) (hr : ¬ W r) :
    transformer_engine.sequential_new.written_before_read r cs := by
  induction cs generalizing W with
  | nil => nofun
  | cons c cs ih =>
    rw [List.forall_mem_cons] at halloc
    have hsrc : r ∉ c.src := fun hs => hr (h.1 halloc.1 r hs)
    unfold sequential_new.written_before_read first_access Call.access
    by_cases hd : r ∈ c.dst
    · simp [hsrc, hd]
    · simpa [hsrc, hd] using ih h.2 halloc.2 (not_or.mpr ⟨hr, hd⟩)

end ReadsWritten

namespace Op

variable {op : Op D} {x : Buf} {t : Training}

/-- Where the tensors a generator reads come from. Before its first yield it reads its input,
its own parameters and for a `ResidualEnd` its `begin`'s `fwd_residue`; it yields its input or
what it wrote, and a `ResidualBegin` writes its own `fwd_residue`. Resumed with `g`, every call
that does not write its `weight_grad` reads `g`, its input, its weight, what its forward half
wrote, and for a `ResidualBegin` its `end`'s `bwd_residue`; it yields `g`, its input or what it
wrote, and a `ResidualEnd` writes its own `bwd_residue`. -/
structure ReadsSourced (op : Op D) (x : Buf) (t : Training) : Prop where
  fwd_src : ∀ c ∈ t.fwd, ∀ b ∈ c.src, b = x ∨ b = .field op.id .weight ∨
    b = .field op.id .bias ∨ ∃ begin, op.kind = .ResidualEnd begin ∧ b = .field begin .fwd_residue
  y : t.y = x ∨ ∃ c ∈ t.fwd, t.y ∈ c.dst
  begin_writes : ∀ e, op.kind = .ResidualBegin e →
    ∃ c ∈ t.fwd, Buf.field op.id .fwd_residue ∈ c.dst
  bwd_src : ∀ g, ∀ c ∈ (t.bwd g).1, Buf.field op.id .weight_grad ∈ c.dst ∨ ∀ b ∈ c.src, b = g ∨
    b = x ∨ b = .field op.id .weight ∨ (∃ c' ∈ t.fwd, b ∈ c'.dst) ∨
    ∃ e, op.kind = .ResidualBegin (some e) ∧ b = .field e .bwd_residue
  bwd_y : ∀ g, (t.bwd g).2 = g ∨ (t.bwd g).2 = x ∨ ∃ c ∈ (t.bwd g).1, (t.bwd g).2 ∈ c.dst
  end_writes : ∀ g b, op.kind = .ResidualEnd b →
    ∃ c ∈ (t.bwd g).1, Buf.field op.id .bwd_residue ∈ c.dst

theorem training_reads_sourced (h : op.training x = .ok t) : op.ReadsSourced x t := by
  unfold training at h
  cases hk : op.kind <;> simp only [hk] at h
  case' Transpose =>
    obtain ⟨_, -, h⟩ := bind_eq_ok.mp h
    obtain ⟨_, -, h⟩ := bind_eq_ok.mp h
    split_ifs at h
  case' ResidualBegin e =>
    obtain _ | e := e
    · cases h
  case' Scatter | ReduceScatter | AllGather | AllReduce => obtain ⟨_, -, h⟩ := bind_eq_ok.mp h
  all_goals
    cases h
    constructor <;> simp only [hk, List.mem_singleton, List.mem_cons, List.not_mem_nil, Buf.field.injEq,
      OpKind.ResidualBegin.injEq, OpKind.ResidualEnd.injEq, Option.some.injEq, reduceCtorEq,
      exists_eq_left, exists_eq_left', exists_const, exists_false, exists_eq_or_imp, forall_eq,
      forall_eq_or_imp, IsEmpty.forall_iff, implies_true, imp_self, or_true, true_or, or_false,
      or_self, false_and, and_false, and_self, and_true, true_and]

end Op

section Run

variable {alloc : Buf → Bool}

/-- Forward from an input in `W`, with the `fwd_residue` of every open `ResidualBegin` in `W`
and every parameter in `W`, every call reads what is in `W` or was written before. -/
theorem forward_phase_reads_written {ops : List (Op D)} {P : Finset Nat} {x y : Buf}
    {ts : List Training} {W : Buf → Prop}
    (hW : ∀ j, W (.field j .weight) ∧ W (.field j .bias)) (hx : W x)
    (hP : ∀ b ∈ P, W (.field b .fwd_residue)) (hopen : open_residuals P ops ≠ none)
    (h : forward_phase ops x = .ok (ts, y)) :
    ReadsWritten alloc W (ts.flatMap Training.fwd) := by
  induction ops generalizing x P ts W with
  | nil =>
    cases h
    trivial
  | cons op ops ih =>
    obtain ⟨t, ts', ht, hrest, rfl⟩ := forward_phase_cons_eq_ok.mp h
    obtain ⟨Q, hQ, hopen'⟩ := open_residuals_cons_ne_none.mp hopen
    have hs := op.training_reads_sourced ht
    rw [List.flatMap_cons]
    refine .append (.of_forall fun c hc _ b hb => ?_) (ih (fun j => ⟨.inl (hW j).1, .inl (hW j).2⟩)
      (hs.y.elim (fun he => .inl (he ▸ hx)) .inr) (op.forall_open_after hQ (fun b hb => .inl (hP b hb))
        fun e hk => .inr (hs.begin_writes e hk)) hopen' hrest)
    rcases hs.fwd_src c hc b hb with rfl | rfl | rfl | ⟨begin, hk, rfl⟩
    exacts [hx, (hW _).1, (hW _).2, hP begin (op.begin_mem_of_open_after hk hQ)]

/-- Backward from a gradient in `W`, over generators whose forward input and forward writes
are in `W`, every call that names only allowed tensors, none a `weight_grad`, reads what is in
`W` or was written before; the gradient handed back is in `W` or written, and so is every
`ResidualEnd`'s `bwd_residue`. -/
theorem backward_phase_reads_written (halloc : ∀ j, alloc (.field j .weight_grad) = false)
    {ops : List (Op D)} (hpair : residuals_paired ops = true) {x y : Buf} {ts : List Training}
    {W : Buf → Prop} (hW : ∀ j, W (.field j .weight)) (hx : W x)
    (hfwd : ∀ t ∈ ts, ∀ c ∈ t.fwd, ∀ b ∈ c.dst, W b) (h : forward_phase ops x = .ok (ts, y))
    {g : Buf} (hg : W g) :
    ReadsWritten alloc W (backward_phase ts g).1 ∧
      (W (backward_phase ts g).2 ∨ ∃ c ∈ (backward_phase ts g).1, (backward_phase ts g).2 ∈ c.dst) ∧
      ∀ op ∈ ops, ∀ b, op.kind = .ResidualEnd b →
        ∃ c ∈ (backward_phase ts g).1, Buf.field op.id .bwd_residue ∈ c.dst := by
  induction ops generalizing x ts with
  | nil =>
    cases h
    exact ⟨trivial, .inl hg, fun _ h => absurd h (List.not_mem_nil _)⟩
  | cons op ops ih =>
    obtain ⟨t, ts', ht, hrest, rfl⟩ := forward_phase_cons_eq_ok.mp h
    obtain ⟨hpop, hpair'⟩ := residuals_paired_cons.mp hpair
    rw [List.forall_mem_cons] at hfwd
    have hs := op.training_reads_sourced ht
    have hy : W t.y := hs.y.elim (· ▸ hx) fun ⟨c, hc, hb⟩ => hfwd.1 c hc _ hb
    obtain ⟨hrw, hr, hends⟩ := ih hpair' hy hfwd.2 hrest
    simp only [backward_phase]
    set r := backward_phase ts' g
    refine ⟨hrw.append (.of_forall fun c hc ha b hb => ?_), ?_, fun op' hop' b hk => ?_⟩
    -- the calls of `op`'s backward read what the forward phase or later backwards wrote
    · rcases hs.bwd_src r.2 c hc with hwg | hsrc
      · exact absurd (ha _ (Call.mem_bufs.mpr (.inr hwg))) (by simp [halloc])
      rcases hsrc b hb with rfl | rfl | rfl | ⟨c', hc', hb'⟩ | ⟨e, hk, rfl⟩
      · exact hr
      · exact .inl hx
      · exact .inl (hW _)
      · exact .inl (hfwd.1 c' hc' _ hb')
      · obtain ⟨op', hop', rfl, hk'⟩ := hpop e hk
        exact .inr (hends op' hop' _ hk')
    -- what it hands back
    · rcases hs.bwd_y r.2 with he | he | ⟨c, hc, hb⟩
      · rw [he]
        exact hr.imp_right fun ⟨c, hc, hb⟩ => ⟨c, List.mem_append_left _ hc, hb⟩
      · rw [he]
        exact .inl hx
      · exact .inr ⟨c, List.mem_append_right _ hc, hb⟩
    -- the `bwd_residue` of every `ResidualEnd`
    · rcases List.mem_cons.mp hop' with rfl | hop'
      · obtain ⟨c, hc, hb⟩ := hs.end_writes r.2 b hk
        exact ⟨c, List.mem_append_right _ hc, hb⟩
      · obtain ⟨c, hc, hb⟩ := hends op' hop' b hk
        exact ⟨c, List.mem_append_left _ hc, hb⟩

end Run

/-- The tensors that hold values before a training run: the input, the output gradient and the
parameters, which `describe_params` declares with an initializer. -/
def initialized : Buf → Prop
  | .input | .output_grad => True
  | .field _ fld => fld = .weight ∨ fld = .bias

/-- Take every op list in which every `ResidualEnd` closes an open `ResidualBegin` and every
`ResidualBegin` names a later `ResidualEnd` that names it back, and whose forward halves return.
In its training run, every supplementary tensor an op declares without an initializer is
written by a kernel call before any call the run makes reads it: the forward and backward reads
are covered by the input, the output gradient, the parameters and earlier writes, except `Gemm`'s
`x_t`, whose only reader also names the `weight_grad` no descriptor declares, so the run raises
before making it. -/
theorem training_run_writes_before_reads (fp32 : D) {ops : List (Op D)}
    (hopen : open_residuals ∅ ops ≠ none) (hpair : residuals_paired ops = true)
    {ts : List Training} {y : Buf} (h : forward_phase ops .input = .ok (ts, y)) :
    ∀ op ∈ ops, ∀ ds, op.describe_supplementary_tensors_training fp32 = .ok ds →
      ∀ fld d, (fld, d) ∈ ds → d.init = none →
        written_before_read (.field op.id fld)
          (training_run (training_allocated fp32 ops) ts .output_grad).1 := by
  intro op _ ds hds fld d hd _
  -- the reads of the whole trace are covered
  have hfwd := @forward_phase_reads_written D (training_allocated fp32 ops) ops ∅ .input y ts
    initialized (fun _ => ⟨.inl rfl, .inr rfl⟩) trivial
    (fun _ h => absurd h (Finset.not_mem_empty _)) hopen h
  have hbwd := (@backward_phase_reads_written D (training_allocated fp32 ops)
    (fun j => (training_allocated_not_grad fp32 ops j).1) ops hpair .input y ts
    (fun b => initialized b ∨ ∃ c ∈ ts.flatMap Training.fwd, b ∈ c.dst) (fun _ => .inl (.inl rfl))
    (.inl trivial) (fun t ht c hc b hb => .inr ⟨c, List.mem_flatMap.mpr ⟨t, ht, hc⟩, hb⟩) h
    .output_grad (.inl trivial)).1
  -- a declared write-only tensor is none of them
  have hnot : ¬ initialized (.field op.id fld) := by
    have hfld := (op.describe_supplementary_tensors_training_fields fp32 hds (fld, d) hd).2
    rintro (rfl | rfl) <;> simp [Field.written] at hfld
  exact ((hfwd.append hbwd).of_isPrefix (training_run_fst_isPrefix ts _)).written_before_read
    (run_steps_allocated _) hnot

/-- A `Gemm` alone: its `weight_t` is written in the forward half before the backward reads
it, and its `x_t` is never read, the backward stopping at the call that names `weight_grad`. -/
theorem training_run_writes_before_reads_gemm :
    let op : Op Nat := ⟨0, .Gemm 0 4 4 0, 0, 0, some none, some ParallelismClass.NORMAL, some [2, 4]⟩
    ∃ ts y, forward_phase [op] .input = .ok (ts, y) ∧
      written_before_read (.field 0 .weight_t)
        (training_run (training_allocated 0 [op]) ts .output_grad).1 := by
  intro op
  have hopen : open_residuals ∅ [op] ≠ none := by decide
  have hpair : residuals_paired [op] = true := by decide
  have hf : forward_phase [op] .input = .ok _ := rfl
  have hds : op.describe_supplementary_tensors_training 0 = .ok _ := rfl
  exact ⟨_, _, hf, training_run_writes_before_reads 0 hopen hpair hf op
    (List.mem_singleton_self op) _ hds .weight_t _ (List.mem_cons_of_mem _ (List.mem_cons_self _ _))
    rfl⟩

end transformer_engine.sequential_new
