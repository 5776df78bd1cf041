import TransformerEngine.SequentialNew.Saved

namespace transformer_engine.sequential_new

/-! The training backward: resumed in reverse list order, the generators compute the gradient
of the network function from the kernels' own gradients, every `ResidualEnd` caching the
gradient of its block's output in its `bwd_residue` and its `ResidualBegin` adding it back. All
of them write in place, into the gradient, into their forward input or into a `bwd_residue`.
Here every call of `training_trace` is made; `training_run` makes them only while the tensors
they name are allocated. -/

variable {D : Type}

/-- How many tensors a kernel writes: `layer_norm` its output, `mu` and `rsigma`,
`dlayer_norm` the data, weight and bias gradients, every other kernel one. -/
def Kernel.outputs : Kernel → Nat
  | .layer_norm | .dlayer_norm => 3
  | _ => 1

/-- Whether the op is a `ResidualEnd` that names `b` as its `begin`. -/
def Op.closes (op : Op D) (b : Nat) : Bool :=
  match op.kind with
  | .ResidualEnd b' => b' == b
  | _ => false

theorem Op.closes_iff {op : Op D} {b : Nat} : op.closes b = true ↔ op.kind = .ResidualEnd b := by
  unfold Op.closes
  split <;> simp_all

/-- Every `ResidualBegin` names as its `end` a later `ResidualEnd` that names it as its `begin`,
as `Residual.expand_for_sequential` pairs them. -/
def residuals_paired : List (Op D) → Bool
  | [] => true
  | op :: ops =>
    (match op.kind with
      | .ResidualBegin (some e) => ops.any fun op' => op'.id == e && op'.closes op.id
      | _ => true) && residuals_paired ops

theorem residuals_paired_cons {op : Op D} {ops : List (Op D)} :
    residuals_paired (op :: ops) = true ↔
      (∀ e, op.kind = .ResidualBegin (some e) →
        ∃ op' ∈ ops, op'.id = e ∧ op'.kind = .ResidualEnd op.id) ∧ residuals_paired ops = true := by
  rw [residuals_paired, Bool.and_eq_true]
  cases hk : op.kind
  case ResidualBegin e =>
    cases e <;> simp [List.any_eq_true, Op.closes_iff]
  all_goals simp

/-- Every `ResidualBegin` of a paired list names a `ResidualEnd` of it that names it back. -/
theorem residuals_paired_mem {ops : List (Op D)} (h : residuals_paired ops = true) :
    ∀ op ∈ ops, ∀ e, op.kind = .ResidualBegin (some e) →
      ∃ op' ∈ ops, op'.id = e ∧ op'.kind = .ResidualEnd op.id := by
  induction ops with
  | nil => exact fun _ h => nomatch h
  | cons op ops ih =>
    obtain ⟨hop, hrest⟩ := residuals_paired_cons.mp h
    intro op' hop' e he
    rcases List.mem_cons.mp hop' with rfl | hop'
    · obtain ⟨op'', hop'', hid, hk⟩ := hop e he
      exact ⟨op'', List.mem_cons_of_mem _ hop'', hid, hk⟩
    · obtain ⟨op'', hop'', hid, hk⟩ := ih hrest op' hop' e he
      exact ⟨op'', List.mem_cons_of_mem _ hop'', hid, hk⟩

theorem ends_after_of_residuals_paired {ops : List (Op D)} (h : residuals_paired ops = true) :
    ends_after ops = true := by
  induction ops with
  | nil => rfl
  | cons op ops ih =>
    obtain ⟨hop, hrest⟩ := residuals_paired_cons.mp h
    refine ends_after_cons.mpr ⟨fun e he => ?_, ih hrest⟩
    obtain ⟨op', hop', rfl, -⟩ := hop e he
    exact List.mem_map_of_mem _ hop'

section Gradient

variable {V : Type} [Add V] [Inhabited V] (sem : Nat → Kernel → List V → List V) (σ : Buf → V)

/-- What `op`'s backward computes from its forward input `v` and the gradient `g` of its output,
the `ResidualEnd`s after it having cached theirs in `G`: the gradient of its input, and `G` with
its own cached if it is a `ResidualEnd`. A kernel's value is what `sem` computes first, and a
`LayerNorm`'s statistics are what its `layer_norm` computes after its output. -/
def Op.backward (op : Op D) (v g : V) (G : Nat → V) : V × (Nat → V) :=
  let i := op.id
  let out := fun k vs => (sem i k vs).headI
  let param := fun fld => σ (.field i fld)
  match op.kind with
  | .Identity => (g, G)
  | .Transpose => (out .transpose [g], G)
  | .LayerNorm .. =>
    let stats := sem i .layer_norm [v, param .weight, param .bias]
    (out .dlayer_norm [g, v, param .weight, stats.getI 1, stats.getI 2], G)
  | .Gemm .. => (out .gemm [g, out .transpose [param .weight]], G)
  | .Bias .. => (g, G)
  | .ResidualBegin end_ =>
    match end_ with
    | none => (g, G)
    | some e => (G e + g, G)
  | .ResidualEnd _ => (g, Function.update G i g)
  | .Dropout => (out .dropout [g], G)
  | .Gelu => (out .dgelu [g, v], G)
  | .Relu => (out .drelu [g, v], G)
  | .Cast => (out .cast [g], G)
  | .Scatter => (out .gather [g], G)
  | .ReduceScatter => (out .all_gather [g], G)
  | .AllGather => (out .reduce_scatter [g], G)
  | .AllReduce => (g, G)

/-- Reverse mode over the network `forward_run`: from the input activation `v`, the residues
`R`, the output gradient `g` and the cached gradients `G`, every op's `backward` at the
activation `forward_run` hands it, the last op's first. -/
def backward_run : List (Op D) → V → (Nat → V) → V → (Nat → V) → V × (Nat → V)
  | [], _, _, g, G => (g, G)
  | op :: ops, v, R, g, G =>
    let fw := op.forward (fun i k vs => (sem i k vs).headI) σ v R
    let r := backward_run ops fw.1 fw.2 g G
    op.backward sem σ v r.1 r.2

variable {sem σ} {op : Op D} {v g : V} {G : Nat → V}

theorem Op.backward_snd_of_ne {j : Nat} (hj : j ≠ op.id) : (op.backward sem σ v g G).2 j = G j := by
  unfold Op.backward
  split
  case h_6 => split <;> rfl
  case h_7 => exact Function.update_noteq hj _ _
  all_goals rfl

theorem Op.backward_snd_self {b : Nat} (hk : op.kind = .ResidualEnd b) :
    (op.backward sem σ v g G).2 op.id = g := by
  simp only [Op.backward, hk, Function.update_same]

end Gradient

section Backward

variable {V : Type} [Inhabited V]

theorem write_all_one {σ : Buf → V} {d : Buf} {ws : List V} (h : ws.length = 1) :
    write_all σ [d] ws = Function.update σ d ws.headI := by
  obtain ⟨w, rfl⟩ := List.length_eq_one.mp h
  rfl

theorem write_all_three {σ : Buf → V} {a b c : Buf} {ws : List V} (h : ws.length = 3) :
    write_all σ [a, b, c] ws = Function.update (Function.update (Function.update σ a ws.headI)
      b (ws.getI 1)) c (ws.getI 2) := by
  obtain ⟨w₁, w₂, w₃, rfl⟩ := List.length_eq_three.mp h
  rfl

theorem head?_eq_headI {sem : Nat → Kernel → List V → List V}
    (hsem : ∀ i k vs, (sem i k vs).length = k.outputs) (i : Nat) (k : Kernel)
    (vs : List V) : (sem i k vs).head? = some (sem i k vs).headI := by
  have hpos : 0 < (sem i k vs).length := by
    rw [hsem]
    cases k <;> decide
  obtain ⟨w, ws, hws⟩ := List.exists_cons_of_length_pos hpos
  rw [hws]
  rfl

end Backward

namespace Op

variable {op : Op D} {x : Buf} {t : Training}

/-- Resumed, a generator hands back its gradient, its input, or for a `ResidualBegin` its
`end`'s `bwd_residue`, and writes only those and tensors of its own. -/
theorem training_bwd_cases (h : op.training x = .ok t) (g : Buf) :
    ((t.bwd g).2 = g ∨ (t.bwd g).2 = x ∨
      ∃ e, op.kind = .ResidualBegin (some e) ∧ (t.bwd g).2 = .field e .bwd_residue) ∧
    ∀ c ∈ (t.bwd g).1, ∀ d ∈ c.dst, d = g ∨ d = x ∨ (∃ fld, d = .field op.id fld) ∨
      ∃ e, op.kind = .ResidualBegin (some e) ∧ d = .field e .bwd_residue := by
  unfold training at h
  cases hk : op.kind <;> simp only [hk] at h
  case' Transpose =>
    obtain ⟨_, -, h⟩ := bind_eq_ok.mp h
    obtain ⟨_, -, h⟩ := bind_eq_ok.mp h
    split_ifs at h
  case' ResidualBegin e =>
    obtain _ | e := e
    · cases h
  case' Scatter | ReduceScatter | AllGather | AllReduce => obtain ⟨_, -, h⟩ := bind_eq_ok.mp h
  all_goals
    cases h
    simp only [List.forall_mem_cons, List.mem_cons, List.mem_singleton, List.not_mem_nil,
      forall_eq_or_imp, forall_eq, IsEmpty.forall_iff, implies_true, Buf.field.injEq,
      OpKind.ResidualBegin.injEq, Option.some.injEq, reduceCtorEq, exists_eq', exists_eq_left',
      exists_and_left, exists_const, true_or, or_true, or_false, true_and, and_true, false_and,
      and_self]

/-- A forward half never writes the output gradient. -/
theorem training_fwd_not_grad (h : op.training x = .ok t) (hx : x ≠ .output_grad) :
    ∀ c ∈ t.fwd, Buf.output_grad ∉ c.dst := fun c hc hd =>
  ((@training_footprint D op x (fun _ => True) (· ≠ .output_grad) (fun _ => True)
    (fun _ => True) t h trivial hx (fun _ _ => trivial) (fun _ _ => trivial)
    (fun _ _ _ => ⟨trivial, fun _ h => Buf.noConfusion h⟩)
    (fun _ _ _ => ⟨trivial, fun _ => trivial⟩)).fwd c hc).2 _ hd rfl

end Op

/-- A `ResidualEnd`'s backward caches the gradient it is resumed with in its `bwd_residue`. -/
theorem Op.training_end_caches {V : Type} [Add V] {sem : Nat → Kernel → List V → List V}
    {op : Op D} {x : Buf} {t : Training} {b : Nat} (hk : op.kind = .ResidualEnd b)
    (h : op.training x = .ok t) (σ₂ : Buf → V) (gb : Buf) :
    exec sem σ₂ (t.bwd gb).1 (.field op.id .bwd_residue) = σ₂ gb := by
  simp only [Op.training, hk] at h
  cases h
  simp

section Step

variable {V : Type} [Add V] [Inhabited V] {sem : Nat → Kernel → List V → List V}
  {σ₀ σ σ₂ : Buf → V} {P : Finset Nat} {x gb : Buf} {v g : V} {R G : Nat → V} {op : Op D}
  {t : Training}

/-- One generator, resumed with a gradient tensor holding `g`, hands back a tensor holding
`Op.backward` of its forward input: provided what it saved is as
its forward half left it and is not the gradient tensor, and for a `ResidualBegin` its `end`'s
`bwd_residue` holds `G e`. -/
theorem Op.backward_value (hsem : ∀ i k vs, (sem i k vs).length = k.outputs)
    (h : op.training x = .ok t) (hT : Tracks σ₀ P σ x v R) (hx : ∀ fld, x ≠ .field op.id fld)
    (hg : σ₂ gb = g)
    (hkeep : (∀ e, op.kind ≠ .ResidualBegin e) → ∀ b, b ≠ t.y →
      (b = x ∨ ∃ fld, b = .field op.id fld) → σ₂ b = exec sem σ t.fwd b ∧ gb ≠ b)
    (hskip : ∀ e, op.kind = .ResidualBegin (some e) → σ₂ (.field e .bwd_residue) = G e) :
    exec sem σ₂ (t.bwd gb).1 (t.bwd gb).2 = (op.backward sem σ₀ v g G).1 := by
  have hown : ∀ fld, fld ≠ .act → Buf.field op.id fld ≠ .field op.id .act :=
    fun fld hf he => hf (Buf.field.inj he).2
  unfold training at h
  cases hk : op.kind <;> simp only [hk] at h hskip
  case' Transpose =>
    obtain ⟨_, -, h⟩ := bind_eq_ok.mp h
    obtain ⟨_, -, h⟩ := bind_eq_ok.mp h
    split_ifs at h
  case' ResidualBegin e =>
    obtain _ | e := e
    · cases h
  case' Scatter | ReduceScatter | AllGather | AllReduce => obtain ⟨_, -, h⟩ := bind_eq_ok.mp h
  all_goals cases h
  case LayerNorm =>
    have hnb : ∀ e, op.kind ≠ .ResidualBegin e := by simp [hk]
    obtain ⟨hxv, -⟩ := hkeep hnb x (hx .act) (.inl rfl)
    obtain ⟨hw, -⟩ := hkeep hnb _ (hown .weight (by decide)) (.inr ⟨_, rfl⟩)
    obtain ⟨hmu, -⟩ := hkeep hnb _ (hown .mu (by decide)) (.inr ⟨_, rfl⟩)
    obtain ⟨hrs, -⟩ := hkeep hnb _ (hown .rsigma (by decide)) (.inr ⟨_, rfl⟩)
    obtain ⟨-, hgw⟩ := hkeep hnb _ (hown .weight_grad (by decide)) (.inr ⟨_, rfl⟩)
    obtain ⟨-, hgb⟩ := hkeep hnb _ (hown .bias_grad (by decide)) (.inr ⟨_, rfl⟩)
    simp [Op.backward, hk, Call.exec, Kernel.results, write_all_three, hsem,
      Kernel.outputs, Function.update_apply, hx, hgw, hgb, hg, hxv, hw, hmu, hrs, hT.cur,
      hT.params _ .weight rfl, hT.params _ .bias rfl]
  case Gemm =>
    have hnb : ∀ e, op.kind ≠ .ResidualBegin e := by simp [hk]
    obtain ⟨hwt, -⟩ := hkeep hnb _ (hown .weight_t (by decide)) (.inr ⟨_, rfl⟩)
    simp [Op.backward, hk, Call.exec, Kernel.results, write_all_one, hsem,
      Kernel.outputs, Function.update_apply, hx, hg, hwt, hT.params _ .weight rfl]
  case Gelu | Relu =>
    have hnb : ∀ e, op.kind ≠ .ResidualBegin e := by simp [hk]
    obtain ⟨hxv, -⟩ := hkeep hnb x (hx .act) (.inl rfl)
    simp [Op.backward, hk, Call.exec, Kernel.results, write_all_one, hsem,
      Kernel.outputs, hx, hg, hxv, hT.cur]
  case ResidualBegin => simp [Op.backward, hk, hskip, hg]
  all_goals simp [Op.backward, hk, Call.exec, Kernel.results, write_all_one, hsem,
    Kernel.outputs, Function.update_apply, hg]

end Step

/-- In a paired list of distinct instances, the `ResidualEnd` a `ResidualBegin` names closes
it. -/
theorem closes_named {ops : List (Op D)} (hids : (ops.map Op.id).Nodup)
    (hpair : residuals_paired ops = true) {op op' : Op D} (hop : op ∈ ops) (hop' : op' ∈ ops)
    {b : Nat} (hk : op'.kind = .ResidualEnd b) (hk' : op.kind = .ResidualBegin (some op'.id)) :
    b = op.id := by
  obtain ⟨op'', hop'', hid, hk''⟩ := residuals_paired_mem hpair op hop _ hk'
  obtain rfl := List.inj_on_of_nodup_map hids hop'' hop' hid
  rw [hk] at hk''
  exact OpKind.ResidualEnd.inj hk''

/-- A `ResidualBegin` is open after it. -/
theorem Op.mem_open_after_of_begin {op : Op D} {P Q : Finset Nat} {e : Option Nat}
    (hk : op.kind = .ResidualBegin e) (hQ : op.open_after P = some Q) : op.id ∈ Q := by
  simp only [Op.open_after, hk, Option.some.injEq] at hQ
  exact hQ ▸ Finset.mem_insert_self _ _

section Run

variable {V : Type} [Add V] [Inhabited V] {sem : Nat → Kernel → List V → List V} {σ₀ : Buf → V}

/-- What the store `σ` holds after the backward of `ops`, the `ResidualBegin`s `P` before them
open, once it handed back the gradient tensor `gb`: the gradient `g` there, the cached gradient
`G` of every `ResidualEnd` of `ops` whose `begin` is open before them, and `gb` is a
`bwd_residue` only of an `end` that a `ResidualBegin` of `ops` names. -/
structure BackwardTracks (P : Finset Nat) (ops : List (Op D)) (σ : Buf → V) (gb : Buf) (g : V)
    (G : Nat → V) : Prop where
  cur : σ gb = g
  cached : ∀ op ∈ ops, ∀ b ∈ P, op.kind = .ResidualEnd b →
    σ (.field op.id .bwd_residue) = G op.id
  grad_residue : ∀ j, gb = .field j .bwd_residue → ∃ op ∈ ops, op.kind = .ResidualBegin (some j)

/-- The training run of a paired list of distinct instances, forward then backward, from a store
that tracks its input, computes `backward_run`. -/
theorem backward_phase_tracks (hsem : ∀ i k vs, (sem i k vs).length = k.outputs)
    {ops : List (Op D)} {P : Finset Nat} {x : Buf} {σ : Buf → V} {v : V} {R : Nat → V}
    (hT : Tracks σ₀ P σ x v R) (hF : Fresh P x ops) (hids : (ops.map Op.id).Nodup)
    (hopen : open_residuals P ops ≠ none) (hpair : residuals_paired ops = true)
    {ts : List Training} {y : Buf} (h : forward_phase ops x = .ok (ts, y)) (G : Nat → V) :
    BackwardTracks P ops
      (exec sem σ (ts.flatMap Training.fwd ++ (backward_phase ts .output_grad).1))
      (backward_phase ts .output_grad).2 (backward_run sem σ₀ ops v R (σ .output_grad) G).1
      (backward_run sem σ₀ ops v R (σ .output_grad) G).2 := by
  induction ops generalizing x P σ v R ts with
  | nil =>
    cases h
    exact ⟨rfl, (fun _ h => nomatch h), fun _ h => Buf.noConfusion h⟩
  | cons op ops ih =>
    obtain ⟨t, ts', ht, hrest, rfl⟩ := forward_phase_cons_eq_ok.mp h
    obtain ⟨Q, hQ, hopen'⟩ := open_residuals_cons_ne_none.mp hopen
    have hends := ends_after_of_residuals_paired hpair
    obtain ⟨hpop, hpair'⟩ := residuals_paired_cons.mp hpair
    obtain ⟨hid, hids'⟩ := List.nodup_cons.mp hids
    have hop := List.mem_cons_self op ops
    -- the suffix runs from the store `op`'s forward half leaves
    have hT₁ := op.training_tracks (head?_eq_headI hsem) ht hT (hF.later_closed op hop)
      (hF.later_not_owner op hop) hQ
    have hog : exec sem σ t.fwd .output_grad = σ .output_grad :=
      exec_of_not_mem (op.training_fwd_not_grad ht hF.not_grad)
    have IH := ih hT₁ (hF.step hid ht hQ) hids' hopen' hpair' hrest
    rw [hog] at IH
    obtain ⟨hcur, hcached, hgrad⟩ := IH
    simp only [backward_run]
    rw [List.flatMap_cons, backward_phase, List.append_assoc, exec_append, ← List.append_assoc,
      exec_append]
    refine ⟨op.backward_value hsem ht hT (hF.later_not_owner op hop) hcur
      (fun hnb b hby hbown => ?_) (fun e hk => ?_), fun op' hop' b hb hk => ?_, fun j hj => ?_⟩
    -- what `op` saved is still there
    · obtain ⟨hw, hne⟩ := later_phases_keep hF hid hopen hends ht hrest hby hnb hbown
      exact ⟨exec_of_not_mem hw, hne⟩
    -- its `end` cached the gradient of the block
    · obtain ⟨op', hop', rfl, hk'⟩ := hpop e hk
      exact hcached op' hop' op.id (op.mem_open_after_of_begin hk hQ) hk'
    -- the cached gradients of the ends whose begins are open before `op`
    · rcases List.mem_cons.mp hop' with rfl | hop'
      · rw [op'.training_end_caches hk ht, op'.backward_snd_self hk, hcur]
      have hne : op'.id ≠ op.id := fun he => hid (he ▸ List.mem_map_of_mem _ hop')
      have hbQ : b ∈ Q := by
        have hb' : b ∈ op'.fwd_refs := by simp [Op.fwd_refs, hk]
        rcases refs_mem_of_open_residuals hopen' (ends_after_cons.mp hends).2 op' hop' b
          (List.mem_append_left _ hb') with hbQ | hbo
        · exact hbQ
        · obtain ⟨op'', hop'', rfl⟩ := List.mem_map.mp hbo
          exact absurd hb (hF.later_closed op'' (List.mem_cons_of_mem _ hop''))
      rw [op.backward_snd_of_ne hne, ← hcached op' hop' b hbQ hk]
      refine exec_of_not_mem fun c hc hd => ?_
      rcases (op.training_bwd_cases ht _).2 c hc _ hd with he | he | ⟨_, he⟩ | ⟨e, hk', he⟩
      · obtain ⟨op'', hop'', hk''⟩ := hgrad op'.id he.symm
        exact hF.later_closed op'' (List.mem_cons_of_mem _ hop'')
          (closes_named hids' hpair' hop'' hop' hk hk'' ▸ hb)
      · exact hF.not_bwd_residue op'.id he.symm
      · exact hne (Buf.field.inj he).1
      · obtain rfl := (Buf.field.inj he).1
        exact hF.later_closed op hop
          (closes_named hids hpair hop (List.mem_cons_of_mem _ hop') hk hk' ▸ hb)
    -- the gradient tensor handed back
    · rcases (op.training_bwd_cases ht _).1 with he | he | ⟨e, hk, he⟩ <;> rw [he] at hj
      · obtain ⟨op'', hop'', hk''⟩ := hgrad j hj
        exact ⟨op'', List.mem_cons_of_mem _ hop'', hk''⟩
      · exact absurd hj (hF.not_bwd_residue j)
      · cases hj
        exact ⟨op, hop, hk⟩

end Run

section Network

variable {V : Type} [Add V] [Inhabited V] {sem : Nat → Kernel → List V → List V}

/-- On every op list of distinct instances in which every `ResidualEnd` closes an open
`ResidualBegin`, and every `ResidualBegin` names a later `ResidualEnd` that names it back,
whenever the forward halves return, the generators resumed in reverse order with the output
gradient hand back a tensor holding `backward_run`, on every store: the gradient of the network
function by the kernels' own gradients, each pair adding back the gradient its `end` cached,
although every generator writes in place. Kernels return one value per tensor they write, and
every call of `training_trace` is made. -/
theorem backward_phase_eq_backward_run (hsem : ∀ i k vs, (sem i k vs).length = k.outputs)
    {ops : List (Op D)} (hids : (ops.map Op.id).Nodup) (hopen : open_residuals ∅ ops ≠ none)
    (hpair : residuals_paired ops = true) {ts : List Training} {y : Buf}
    (h : forward_phase ops .input = .ok (ts, y)) (σ : Buf → V) (R G : Nat → V) :
    exec sem σ (training_trace ts .output_grad) (backward_phase ts .output_grad).2 =
      (backward_run sem σ ops (σ .input) R (σ .output_grad) G).1 :=
  (backward_phase_tracks hsem (Tracks.input σ R) (Fresh.input ops) hids hopen hpair h G).cur

end Network

end transformer_engine.sequential_new
