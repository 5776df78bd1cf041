import TransformerEngine.SequentialNew.Network

namespace transformer_engine.sequential_new

/-! The ops write their tensors in place, in the forward and in the backward: that a training
generator, resumed, still finds what it saved. Between an op's first yield and its resumption
the later ops run forward and backward; none of their calls writes the op's forward input or a
tensor of its own instance that its backward reads. -/

variable {D : Type}

/-- Every `ResidualBegin` names as its `end` an instance after it, as
`Residual.expand_for_sequential` puts `end` after the modules it wraps. -/
def ends_after : List (Op D) → Bool
  | [] => true
  | op :: ops =>
    (match op.kind with
      | .ResidualBegin (some e) => ops.any (·.id == e)
      | _ => true) && ends_after ops

theorem ends_after_cons {op : Op D} {ops : List (Op D)} :
    ends_after (op :: ops) = true ↔
      (∀ e, op.kind = .ResidualBegin (some e) → e ∈ ops.map Op.id) ∧ ends_after ops = true := by
  rw [ends_after, Bool.and_eq_true]
  cases hk : op.kind
  case ResidualBegin e =>
    cases e <;> simp [List.any_eq_true]
  all_goals simp

theorem ends_after_of_append {ops ops' : List (Op D)} (h : ends_after (ops ++ ops') = true) :
    ends_after ops' = true := by
  induction ops with
  | nil => exact h
  | cons op ops ih => exact ih (ends_after_cons.mp h).2

namespace Op

variable {op : Op D} {x : Buf} {t : Training} {P Q : Finset Nat}

/-- What a generator yields: its input, its own `act`, or for a `ResidualEnd` its `begin`'s
`fwd_residue`; the ops that yield `act` open and close nothing. -/
theorem training_y_cases (h : op.training x = .ok t) :
    t.y = x ∨ (t.y = .field op.id .act ∧ ∀ P, op.open_after P = some P) ∨
      ∃ b, op.kind = .ResidualEnd b ∧ t.y = .field b .fwd_residue := by
  unfold training at h
  cases hk : op.kind <;> simp only [hk] at h
  case' Transpose =>
    obtain ⟨_, -, h⟩ := bind_eq_ok.mp h
    obtain ⟨_, -, h⟩ := bind_eq_ok.mp h
    split_ifs at h
  case' ResidualBegin e =>
    obtain _ | e := e
    · cases h
  case' Scatter | ReduceScatter | AllGather | AllReduce => obtain ⟨_, -, h⟩ := bind_eq_ok.mp h
  all_goals
    cases h
    simp [open_after, hk]

theorem open_after_subset_of_not_begin (hk : ∀ e, op.kind ≠ .ResidualBegin e)
    (h : op.open_after P = some Q) : Q ⊆ P := by
  unfold open_after at h
  split at h
  · exact absurd ‹_› (hk _)
  · split_ifs at h
    cases h
    exact Finset.erase_subset _ _
  · cases h
    exact subset_rfl

theorem bwd_refs_cases {i : Nat} (hi : i ∈ op.bwd_refs) :
    i = op.id ∨ ∃ e, op.kind = .ResidualBegin (some e) ∧ i = e := by
  unfold bwd_refs at hi
  split at hi <;> rename_i hk <;> simp_all

/-- A tensor a resumed generator reads that is neither its gradient nor its `end`'s
`bwd_residue`, so its forward input or a tensor of its own, is not what it yielded, and the
generator is no `ResidualBegin`. -/
theorem saved_reads (h : op.training x = .ok t) (hx : ∀ fld, x ≠ .field op.id fld)
    (hxb : ∀ j, x ≠ .field j .bwd_residue)
    (hself : ∀ e, op.kind = .ResidualBegin (some e) → e ≠ op.id) (g : Buf) :
    ∀ c ∈ (t.bwd g).1, ∀ b ∈ c.src, b ≠ g → (b = x ∨ ∃ fld, b = .field op.id fld) →
      b ≠ t.y ∧ ∀ e, op.kind ≠ .ResidualBegin e := by
  have hx' : ∀ fld, Buf.field op.id fld ≠ x := fun fld h => hx fld h.symm
  have hxb' : ∀ j, Buf.field j .bwd_residue ≠ x := fun j h => hxb j h.symm
  unfold training at h
  cases hk : op.kind <;> simp only [hk] at h hself
  case' Transpose =>
    obtain ⟨_, -, h⟩ := bind_eq_ok.mp h
    obtain ⟨_, -, h⟩ := bind_eq_ok.mp h
    split_ifs at h
  case' ResidualBegin e =>
    obtain _ | e := e
    · cases h
  case' Scatter | ReduceScatter | AllGather | AllReduce => obtain ⟨_, -, h⟩ := bind_eq_ok.mp h
  all_goals
    cases h
    simp only [List.forall_mem_cons, List.mem_cons, List.mem_singleton, List.not_mem_nil,
      forall_eq_or_imp, forall_eq, forall_eq', IsEmpty.forall_iff, implies_true, imp_self,
      imp_false, Buf.field.injEq, OpKind.ResidualBegin.injEq, reduceCtorEq, exists_eq',
      exists_false, not_exists, not_or, ne_eq, not_true_eq_false, not_false_eq_true, true_or,
      or_true, or_false, true_and, and_true, false_and, and_false, and_self, hx, hx', hxb', hself]

end Op

/-- What the forward phase keeps of the tensor `x` it hands on to `rest`, the `ResidualBegin`s
`P` open: no later instance is open or owns `x`, no open one owns it, and it is neither the
output gradient nor a `bwd_residue`. -/
structure Fresh (P : Finset Nat) (x : Buf) (rest : List (Op D)) : Prop where
  later_closed : ∀ op ∈ rest, op.id ∉ P
  later_not_owner : ∀ op ∈ rest, ∀ fld, x ≠ .field op.id fld
  open_not_owner : ∀ b ∈ P, ∀ fld, x ≠ .field b fld
  not_grad : x ≠ .output_grad
  not_bwd_residue : ∀ j, x ≠ .field j .bwd_residue

namespace Fresh

variable {P Q : Finset Nat} {x : Buf} {op : Op D} {rest : List (Op D)}

theorem input (ops : List (Op D)) : Fresh ∅ .input ops :=
  ⟨fun _ _ => Finset.not_mem_empty _, fun _ _ _ h => Buf.noConfusion h,
    fun _ h => absurd h (Finset.not_mem_empty _), fun h => Buf.noConfusion h,
    fun _ h => Buf.noConfusion h⟩

/-- One generator's forward half keeps `Fresh` for the ops after it. -/
theorem step (hF : Fresh P x (op :: rest)) (hids : op.id ∉ rest.map Op.id) {t : Training}
    (h : op.training x = .ok t) (hQ : op.open_after P = some Q) : Fresh Q t.y rest := by
  obtain ⟨hlc, hlo, hoo, hg, hb⟩ := hF
  have hne : ∀ op' ∈ rest, op'.id ≠ op.id := fun op' hop' he =>
    hids (he ▸ List.mem_map_of_mem Op.id hop')
  have hlc' : ∀ op' ∈ rest, op'.id ∉ Q := fun op' hop' hQ' => by
    rcases Finset.mem_insert.mp (Op.open_after_subset hQ hQ') with he | he
    exacts [hne op' hop' he, hlc op' (List.mem_cons_of_mem _ hop') he]
  rcases op.training_y_cases h with hy | ⟨hy, hP⟩ | ⟨b, hk, hy⟩ <;> rw [hy]
  · -- `x` handed on
    refine ⟨hlc', fun op' hop' => hlo op' (List.mem_cons_of_mem _ hop'), fun b' hb' => ?_, hg, hb⟩
    rcases Finset.mem_insert.mp (Op.open_after_subset hQ hb') with rfl | hb'
    exacts [hlo op (List.mem_cons_self _ _), hoo b' hb']
  · -- the op's own `act`
    have hQP : Q = P := Option.some_injective _ (hQ.symm.trans (hP P))
    subst hQP
    refine ⟨hlc', fun op' hop' fld he => hne op' hop' (Buf.field.inj he).1.symm,
      fun b' hb' fld he => hlc op (List.mem_cons_self _ _) ((Buf.field.inj he).1 ▸ hb'),
      fun h => Buf.noConfusion h, fun _ he => Field.noConfusion (Buf.field.inj he).2⟩
  · -- the `begin`'s `fwd_residue`, which the `ResidualEnd` closes
    have hbP := op.begin_mem_of_open_after hk hQ
    simp only [Op.open_after, hk, if_pos hbP] at hQ
    cases hQ
    refine ⟨hlc', fun op' hop' fld he => hlc op' (List.mem_cons_of_mem _ hop')
        ((Buf.field.inj he).1 ▸ hbP),
      fun b' hb' fld he => (Finset.mem_erase.mp hb').1 (Buf.field.inj he).1.symm,
      fun h => Buf.noConfusion h, fun _ he => Field.noConfusion (Buf.field.inj he).2⟩

end Fresh

/-- The forward phase of a prefix keeps `Fresh` for the ops after it. -/
theorem forward_phase_fresh {ops rest : List (Op D)} {P P' : Finset Nat} {x y : Buf}
    {ts : List Training} (hF : Fresh P x (ops ++ rest)) (hids : ((ops ++ rest).map Op.id).Nodup)
    (h : forward_phase ops x = .ok (ts, y)) (hP : open_residuals P ops = some P') :
    Fresh P' y rest := by
  induction ops generalizing P x ts with
  | nil =>
    cases h
    cases hP
    exact hF
  | cons op ops ih =>
    obtain ⟨t, ts', ht, hrest, rfl⟩ := forward_phase_cons_eq_ok.mp h
    obtain ⟨Q, hQ, hP'⟩ := Option.bind_eq_some.mp hP
    rw [List.cons_append, List.map_cons, List.nodup_cons] at hids
    exact ih (hF.step hids.1 ht hQ) hids.2 hrest hP'

/-- The instances the ops of a balanced list name are open before it or in it. -/
theorem refs_mem_of_open_residuals {ops : List (Op D)} {P : Finset Nat}
    (hopen : open_residuals P ops ≠ none) (hends : ends_after ops = true) :
    ∀ op ∈ ops, ∀ i ∈ op.fwd_refs ++ op.bwd_refs, i ∈ P ∨ i ∈ ops.map Op.id := by
  induction ops generalizing P with
  | nil => exact fun _ h => nomatch h
  | cons op ops ih =>
    obtain ⟨Q, hQ, hopen'⟩ := open_residuals_cons_ne_none.mp hopen
    obtain ⟨hend, hends'⟩ := ends_after_cons.mp hends
    intro op' hop' i hi
    rcases List.mem_cons.mp hop' with rfl | hop'
    · rcases List.mem_append.mp hi with hi | hi
      · rcases Op.fwd_refs_open hQ i hi with rfl | hi
        exacts [.inr (List.mem_cons_self _ _), .inl hi]
      · rcases Op.bwd_refs_cases hi with rfl | ⟨e, hk, rfl⟩
        exacts [.inr (List.mem_cons_self _ _), .inr (List.mem_cons_of_mem _ (hend _ hk))]
    · rcases ih hopen' hends' op' hop' i hi with hi | hi
      · rcases Finset.mem_insert.mp (Op.open_after_subset hQ hi) with rfl | hi
        exacts [.inr (List.mem_cons_self _ _), .inl hi]
      · exact .inr (List.mem_cons_of_mem _ hi)

/-- After a generator's first yield, the later generators' forward halves and backwards write
neither its forward input nor a tensor of its own, other than what it yielded and for an op
that is no `ResidualBegin`, and the gradient they hand back to it is neither. -/
theorem later_phases_keep {P : Finset Nat} {x y b : Buf} {op : Op D} {ops₂ : List (Op D)}
    {t : Training} {ts₂ : List Training} (hF : Fresh P x (op :: ops₂))
    (hid : op.id ∉ ops₂.map Op.id) (hopen : open_residuals P (op :: ops₂) ≠ none)
    (hends : ends_after (op :: ops₂) = true) (ht : op.training x = .ok t)
    (h₂ : forward_phase ops₂ t.y = .ok (ts₂, y)) (hby : b ≠ t.y)
    (hnb : ∀ e, op.kind ≠ .ResidualBegin e) (hbown : b = x ∨ ∃ fld, b = .field op.id fld) :
    (∀ c ∈ ts₂.flatMap Training.fwd ++ (backward_phase ts₂ .output_grad).1, b ∉ c.dst) ∧
      (backward_phase ts₂ .output_grad).2 ≠ b := by
  obtain ⟨Q, hQ, hopen₂⟩ := open_residuals_cons_ne_none.mp hopen
  have hends₂ := (ends_after_cons.mp hends).2
  -- no instance open after `op` or later than it owns `b`
  have hfree : ∀ i, i ∈ Q ∨ i ∈ ops₂.map Op.id → ∀ fld, Buf.field i fld ≠ b := by
    intro i hi fld he
    rcases hbown with rfl | ⟨f₀, rfl⟩
    · rcases hi with hi | hi
      · rcases Finset.mem_insert.mp (Op.open_after_subset hQ hi) with rfl | hi
        exacts [hF.later_not_owner op (List.mem_cons_self _ _) fld he.symm,
          hF.open_not_owner i hi fld he.symm]
      · obtain ⟨op', hop', rfl⟩ := List.mem_map.mp hi
        exact hF.later_not_owner op' (List.mem_cons_of_mem _ hop') fld he.symm
    · have hi' : i = op.id := (Buf.field.inj he).1
      subst hi'
      rcases hi with hi | hi
      · exact hF.later_closed op (List.mem_cons_self _ _)
          (Op.open_after_subset_of_not_begin hnb hQ hi)
      · exact hid hi
  have hsat : ∀ op' ∈ ops₂, FieldsSatisfy op'.fwd_refs (fun _ => True) (· ≠ b) ∧
      FieldsSatisfy op'.bwd_refs (fun _ => True) (· ≠ b) := fun op' hop' =>
    have href := refs_mem_of_open_residuals hopen₂ hends₂ op' hop'
    ⟨fun i hi fld => ⟨trivial, fun _ => hfree i (href i (List.mem_append_left _ hi)) fld⟩,
      fun i hi fld => ⟨trivial, fun _ => hfree i (href i (List.mem_append_right _ hi)) fld⟩⟩
  -- so no call between the forward half and the resumption writes `b`
  obtain ⟨hts, -⟩ :=
    forward_phase_footprint h₂ trivial hby.symm (fun _ h => h) (fun _ h => h) hsat
  obtain ⟨hbc, -, hgb⟩ := backward_phase_footprint hts trivial
    (show Buf.output_grad ≠ b by
      rcases hbown with rfl | ⟨_, rfl⟩
      exacts [hF.not_grad.symm, fun h => Buf.noConfusion h])
  refine ⟨fun c hc hb => ?_, hgb⟩
  rcases List.mem_append.mp hc with hc | hc
  · obtain ⟨t', ht', hc⟩ := List.mem_flatMap.mp hc
    exact ((hts t' ht').fwd c hc).2 b hb rfl
  · exact (hbc c hc).2 b hb rfl

variable {V : Type} [Add V] {sem : Nat → Kernel → List V → List V}

/-- In every training run of a list of distinct instances whose every `ResidualEnd` closes an
open `ResidualBegin` and every `ResidualBegin`'s `end` comes after it, an op, when resumed with
its gradient, finds its forward input and every tensor of its own that its backward reads as its
forward half left them: neither the later ops' forward halves, which write their inputs in place,
nor their backwards, which write gradients in place, overwrite any of them. -/
theorem training_keeps_saved_tensors {ops₁ ops₂ : List (Op D)} {op : Op D}
    (hids : ((ops₁ ++ op :: ops₂).map Op.id).Nodup)
    (hopen : open_residuals ∅ (ops₁ ++ op :: ops₂) ≠ none)
    (hends : ends_after (ops₁ ++ op :: ops₂) = true) {ts₁ ts₂ : List Training} {x y : Buf}
    {t : Training} (h₁ : forward_phase ops₁ .input = .ok (ts₁, x)) (ht : op.training x = .ok t)
    (h₂ : forward_phase ops₂ t.y = .ok (ts₂, y)) (σ : Buf → V) :
    ∀ c ∈ (t.bwd (backward_phase ts₂ .output_grad).2).1, ∀ b ∈ c.src,
      b ≠ (backward_phase ts₂ .output_grad).2 → (b = x ∨ ∃ fld, b = .field op.id fld) →
        exec sem σ (ts₁.flatMap Training.fwd ++ t.fwd ++ ts₂.flatMap Training.fwd ++
          (backward_phase ts₂ .output_grad).1) b =
        exec sem σ (ts₁.flatMap Training.fwd ++ t.fwd) b := by
  -- the state the prefix hands to `op`
  obtain ⟨P, hP, hopen'⟩ : ∃ P, open_residuals ∅ ops₁ = some P ∧
      open_residuals P (op :: ops₂) ≠ none := by
    rw [open_residuals_append] at hopen
    cases hP : open_residuals ∅ ops₁ with
    | none => simp [hP] at hopen
    | some P => exact ⟨P, rfl, by simpa [hP] using hopen⟩
  have hF := forward_phase_fresh (Fresh.input _) hids h₁ hP
  have hends' := ends_after_of_append hends
  have hend := (ends_after_cons.mp hends').1
  rw [List.map_append, List.nodup_append, List.map_cons, List.nodup_cons] at hids
  obtain ⟨-, ⟨hid, -⟩, -⟩ := hids
  intro c hc b hb hbg hbown
  obtain ⟨hby, hnb⟩ := op.saved_reads ht (hF.later_not_owner op (List.mem_cons_self _ _))
    hF.not_bwd_residue (fun e he h => hid (h ▸ hend e he)) _ c hc b hb hbg hbown
  have hkeep := (later_phases_keep hF hid hopen' hends' ht h₂ hby hnb hbown).1
  rw [List.append_assoc _ (ts₂.flatMap _), exec_append]
  exact exec_of_not_mem hkeep

/-- A `Gelu` after an in-place `Bias`, followed by an in-place `Dropout` and a `Gemm` whose
backward writes its data gradient into the `Gelu`'s `act`: the `Gelu` still reads the input its
forward half read. -/
theorem training_keeps_saved_tensors_gelu :
    let ops₁ : List (Op Nat) :=
      [⟨0, .Bias 0 4 0, 0, 0, some none, some ParallelismClass.NORMAL, some [2, 4]⟩]
    let op : Op Nat := ⟨1, .Gelu, 0, 0, some none, some ParallelismClass.NORMAL, some [2, 4]⟩
    let ops₂ : List (Op Nat) :=
      [⟨2, .Dropout, 0, 0, some none, some ParallelismClass.NORMAL, some [2, 4]⟩,
        ⟨3, .Gemm 0 4 4 0, 0, 0, some none, some ParallelismClass.NORMAL, some [2, 4]⟩]
    ∃ ts₁ x t ts₂ y, forward_phase ops₁ .input = .ok (ts₁, x) ∧ op.training x = .ok t ∧
      forward_phase ops₂ t.y = .ok (ts₂, y) ∧
      ∀ c ∈ (t.bwd (backward_phase ts₂ .output_grad).2).1, ∀ b ∈ c.src,
        b ≠ (backward_phase ts₂ .output_grad).2 → (b = x ∨ ∃ fld, b = .field op.id fld) →
          exec (fun _ _ _ => [0]) (fun _ => (1 : Nat)) (ts₁.flatMap Training.fwd ++ t.fwd ++
            ts₂.flatMap Training.fwd ++ (backward_phase ts₂ .output_grad).1) b =
          exec (fun _ _ _ => [0]) (fun _ => (1 : Nat)) (ts₁.flatMap Training.fwd ++ t.fwd) b := by
  intro ops₁ op ops₂
  exact ⟨_, _, _, _, _, rfl, rfl, rfl, @training_keeps_saved_tensors Nat Nat _ (fun _ _ _ => [0])
    ops₁ ops₂ op (by decide) (by decide) rfl _ _ _ _ _ rfl rfl rfl fun _ => 1⟩

end transformer_engine.sequential_new
