import Mathlib.Data.Finset.Basic
import TransformerEngine.SequentialNew.Residual

namespace transformer_engine.sequential_new

/-! The function an op list computes, and that both the training generators' forward halves and
`inference` compute it: in place or into `act`, the ops leave the same value in the tensor they
hand on. -/

variable {D V : Type}

namespace Op

/-- The `ResidualBegin`s open after `op`, from the open ones `P`: a `ResidualBegin` opens its
own instance, a `ResidualEnd` closes its `begin`, and is refused when that one is not open. -/
def open_after (op : Op D) (P : Finset Nat) : Option (Finset Nat) :=
  match op.kind with
  | .ResidualBegin _ => some (insert op.id P)
  | .ResidualEnd begin => if begin ∈ P then some (P.erase begin) else none
  | _ => some P

variable {op : Op D} {P Q : Finset Nat}

theorem open_after_subset (h : op.open_after P = some Q) : Q ⊆ insert op.id P := by
  unfold open_after at h
  split at h
  · cases h; exact subset_rfl
  · split_ifs at h
    cases h
    exact (Finset.erase_subset _ _).trans (Finset.subset_insert _ _)
  · cases h; exact Finset.subset_insert _ _

/-- The instances an op names before its first yield are its own and open ones. -/
theorem fwd_refs_open (h : op.open_after P = some Q) : ∀ i ∈ op.fwd_refs, i = op.id ∨ i ∈ P := by
  unfold fwd_refs
  cases hk : op.kind
  case ResidualEnd b =>
    have hb : b ∈ P := by
      by_contra hb
      simp [open_after, hk, hb] at h
    simp [hb]
  all_goals simp

theorem begin_mem_of_open_after {b : Nat} (hk : op.kind = .ResidualEnd b)
    (hQ : op.open_after P = some Q) : b ∈ P := by
  simp only [open_after, hk] at hQ
  split_ifs at hQ with hb
  exact hb

/-- What holds of every `ResidualBegin` open before `op`, and of `op` if it is one, holds of
every one open after it. -/
theorem forall_open_after {p : Nat → Prop} (hQ : op.open_after P = some Q) (hP : ∀ b ∈ P, p b)
    (hbegin : ∀ e, op.kind = .ResidualBegin e → p op.id) : ∀ b ∈ Q, p b := by
  unfold open_after at hQ
  split at hQ <;> rename_i hk
  · cases hQ
    exact fun b hb => (Finset.mem_insert.mp hb).elim (· ▸ hbegin _ hk) (hP b)
  · split_ifs at hQ
    cases hQ
    exact fun b hb => hP b (Finset.mem_of_mem_erase hb)
  · cases hQ
    exact hP

end Op

/-- The `ResidualBegin`s open after `ops`; `none` when a `ResidualEnd` comes while its `begin`
is not open, as no list `Residual.expand_for_sequential` builds has it. -/
def open_residuals : Finset Nat → List (Op D) → Option (Finset Nat)
  | P, [] => some P
  | P, op :: ops => (op.open_after P).bind fun Q => open_residuals Q ops

theorem open_residuals_append (P : Finset Nat) (ops ops' : List (Op D)) :
    open_residuals P (ops ++ ops') = (open_residuals P ops).bind fun Q => open_residuals Q ops' := by
  induction ops generalizing P with
  | nil => rfl
  | cons op ops ih =>
    simp only [List.cons_append, open_residuals, Option.bind_assoc]
    congr
    funext Q
    exact ih Q

section Network

variable [Add V] (out : Nat → Kernel → List V → V) (σ : Buf → V)

/-- What `op` computes from the activation `v` and the residues `R` its open `ResidualBegin`s
cached, with the parameters of `σ`; `out i k vs` is what the kernel `k` of the instance `i`
computes from `vs`. -/
def Op.forward (op : Op D) (v : V) (R : Nat → V) : V × (Nat → V) :=
  let i := op.id
  let param := fun fld => σ (.field i fld)
  match op.kind with
  | .Identity => (v, R)
  | .Transpose => (out i .transpose [v], R)
  | .LayerNorm .. => (out i .layer_norm [v, param .weight, param .bias], R)
  | .Gemm .. => (out i .gemm [v, param .weight], R)
  | .Bias .. => (v + param .bias, R)
  | .ResidualBegin _ => (v, Function.update R i v)
  | .ResidualEnd begin => (R begin + v, R)
  | .Dropout => (out i .dropout [v], R)
  | .Gelu => (out i .gelu [v], R)
  | .Relu => (out i .relu [v], R)
  | .Cast => (out i .cast [v], R)
  | .Scatter => (out i .scatter [v], R)
  | .ReduceScatter => (out i .reduce_scatter [v], R)
  | .AllGather => (out i .all_gather [v], R)
  | .AllReduce => (out i .all_reduce [v], R)

/-- The function the op list computes: its ops' `forward`s in order. -/
def forward_run : List (Op D) → V → (Nat → V) → V
  | [], v, _ => v
  | op :: ops, v, R => forward_run ops (op.forward out σ v R).1 (op.forward out σ v R).2

end Network

/-- A tensor an op may overwrite in place: no parameter, and no residue of an open
`ResidualBegin`. -/
def Writable (P : Finset Nat) (d : Buf) : Prop :=
  (∀ j fld, d = .field j fld → fld.written = true) ∧ ∀ b ∈ P, d ≠ .field b .fwd_residue

theorem writable_field {P : Finset Nat} {i : Nat} {fld : Field} (hw : fld.written = true)
    (hr : fld ≠ .fwd_residue) : Writable P (.field i fld) :=
  ⟨fun _ _ h => by cases h; exact hw, fun _ _ h => by cases h; exact hr rfl⟩

/-- The store `σ`, whose current tensor is `x`, holds the activation `v`, the residue `R b` of
every open `ResidualBegin` `b`, and the parameters of `σ₀`; and `x` is writable. -/
structure Tracks (σ₀ : Buf → V) (P : Finset Nat) (σ : Buf → V) (x : Buf) (v : V)
    (R : Nat → V) : Prop where
  cur : σ x = v
  residues : ∀ b ∈ P, σ (.field b .fwd_residue) = R b
  params : ∀ j fld, fld.written = false → σ (.field j fld) = σ₀ (.field j fld)
  writable : Writable P x

namespace Tracks

variable {σ₀ σ : Buf → V} {P Q : Finset Nat} {x d : Buf} {v w : V} {R : Nat → V}

/-- The store a run starts from tracks its input. -/
theorem input (σ : Buf → V) (R : Nat → V) : Tracks σ ∅ σ .input (σ .input) R :=
  ⟨rfl, fun _ h => absurd h (Finset.not_mem_empty _), fun _ _ _ => rfl,
    ⟨fun _ _ h => Buf.noConfusion h, fun _ h => absurd h (Finset.not_mem_empty _)⟩⟩

theorem mono (hT : Tracks σ₀ P σ x v R) (hQ : Q ⊆ P) : Tracks σ₀ Q σ x v R :=
  ⟨hT.cur, fun b hb => hT.residues b (hQ hb), hT.params,
    ⟨hT.writable.1, fun b hb => hT.writable.2 b (hQ hb)⟩⟩

/-- Writing `w` to a writable tensor makes it the current one. -/
theorem write (hT : Tracks σ₀ P σ x v R) (hd : Writable P d) (w : V) :
    Tracks σ₀ P (Function.update σ d w) d w R where
  cur := Function.update_same _ _ _
  residues b hb := (Function.update_noteq (hd.2 b hb).symm _ _).trans (hT.residues b hb)
  params j fld hf := by
    rw [Function.update_noteq fun h => Bool.false_ne_true (hf ▸ hd.1 j fld h.symm)]
    exact hT.params j fld hf
  writable := hd

/-- Writing writable tensors other than the current one keeps what the store tracks. -/
theorem write_all (hT : Tracks σ₀ P σ x v R) {ds : List Buf} (ws : List V)
    (hds : ∀ d ∈ ds, d ≠ x ∧ Writable P d) : Tracks σ₀ P (sequential_new.write_all σ ds ws) x v R := by
  induction ds generalizing σ ws with
  | nil => exact hT
  | cons d ds ih =>
    rw [List.forall_mem_cons] at hds
    cases ws with
    | nil => exact hT
    | cons w ws =>
      have hT' : Tracks σ₀ P (Function.update σ d w) x v R :=
        { hT with
          cur := (Function.update_noteq hds.1.1.symm _ _).trans hT.cur
          residues := (hT.write hds.1.2 w).residues
          params := (hT.write hds.1.2 w).params }
      exact ih hT' ws hds.2

variable [Add V] {sem : Nat → Kernel → List V → List V}

/-- A call whose first destination is writable, and whose others are writable tensors other
than it, makes its first destination current with the value the kernel writes there. -/
theorem exec_call (hT : Tracks σ₀ P σ x v R) {c : Call} {ds : List Buf} (hc : c.dst = d :: ds)
    (hw : (c.kernel.results sem c.issuer (c.src.map σ)).head? = some w) (hd : Writable P d)
    (hds : ∀ d' ∈ ds, d' ≠ d ∧ Writable P d') : Tracks σ₀ P (c.exec sem σ) d w R := by
  obtain ⟨ws, hws⟩ := List.head?_eq_some_iff.mp hw
  rw [Call.exec, hc, hws]
  exact (hT.write hd w).write_all ws hds

/-- A call that writes only writable tensors other than the current one keeps what the store
tracks. -/
theorem exec_aside (hT : Tracks σ₀ P σ x v R) {c : Call}
    (hc : ∀ d ∈ c.dst, d ≠ x ∧ Writable P d) : Tracks σ₀ P (c.exec sem σ) x v R :=
  hT.write_all _ hc

/-- `ResidualBegin`'s `copy(x, fwd_residue)` opens its residue with the activation. -/
theorem open_residue (hT : Tracks σ₀ P σ x v R) {i j : Nat} (hi : i ∉ P)
    (hx : x ≠ .field i .fwd_residue) :
    Tracks σ₀ (insert i P) (Call.exec sem σ ⟨.copy, j, [x], [.field i .fwd_residue]⟩) x v
      (Function.update R i v) := by
  rw [Call.exec_copy, hT.cur]
  refine ⟨(Function.update_noteq hx _ _).trans hT.cur, fun b hb => ?_,
    fun j fld hf => ?_, hT.writable.1, fun b hb => ?_⟩
  · rcases Finset.mem_insert.mp hb with rfl | hb
    · simp only [Function.update_same]
    · have hbi : b ≠ i := fun h => hi (h ▸ hb)
      rw [Function.update_noteq (by simpa using hbi), Function.update_noteq hbi]
      exact hT.residues b hb
  · rw [Function.update_noteq fun h => by cases h; simp [Field.written] at hf]
    exact hT.params j fld hf
  · rcases Finset.mem_insert.mp hb with rfl | hb
    exacts [hx, hT.writable.2 b hb]

/-- `ResidualEnd`'s `add(begin.fwd_residue, x, begin.fwd_residue)` closes the open residue of
its `begin` and hands on the residue plus the activation. -/
theorem close_residue (hT : Tracks σ₀ P σ x v R) {b j : Nat} (hb : b ∈ P) :
    Tracks σ₀ (P.erase b)
      (Call.exec sem σ ⟨.add, j, [.field b .fwd_residue, x], [.field b .fwd_residue]⟩)
      (.field b .fwd_residue) (R b + v) R := by
  refine (hT.mono (Finset.erase_subset b P)).exec_call rfl ?_
    ⟨fun _ _ h => by cases h; rfl, fun b' hb' h => ?_⟩ (fun _ h => nomatch h)
  · simp only [List.map_cons, List.map_nil, Kernel.results, hT.residues b hb, hT.cur,
      List.head?_cons]
  · cases h
    exact (Finset.mem_erase.mp hb').1 rfl

end Tracks

section Refinement

variable [Add V] {sem : Nat → Kernel → List V → List V} {out : Nat → Kernel → List V → V}
  {σ₀ σ : Buf → V} {P Q : Finset Nat} {x : Buf} {v : V} {R : Nat → V} {op : Op D}

/-- One generator's forward half computes `Op.forward`, whether it writes `act` or its input in
place: the tensor it yields holds the next activation. -/
theorem Op.training_tracks (hout : ∀ i k vs, (sem i k vs).head? = some (out i k vs))
    {t : Training} (h : op.training x = .ok t) (hT : Tracks σ₀ P σ x v R) (hid : op.id ∉ P)
    (hx : ∀ fld, x ≠ .field op.id fld) (hQ : op.open_after P = some Q) :
    Tracks σ₀ Q (exec sem σ t.fwd) t.y (op.forward out σ₀ v R).1 (op.forward out σ₀ v R).2 := by
  unfold Op.training at h
  unfold Op.open_after at hQ
  unfold Op.forward
  cases hk : op.kind <;> simp only [hk] at h hQ ⊢
  -- the guards of `Transpose`, `ResidualBegin`, `ResidualEnd` and the collectives
  case' Transpose =>
    obtain ⟨s, -, h⟩ := bind_eq_ok.mp h
    obtain ⟨act, -, h⟩ := bind_eq_ok.mp h
    split_ifs at h
  case' ResidualBegin e =>
    obtain _ | e := e
    · cases h
  case' ResidualEnd b => split_ifs at hQ with hb
  case' Scatter | ReduceScatter | AllGather | AllReduce => obtain ⟨_, -, h⟩ := bind_eq_ok.mp h
  all_goals
    cases h
    cases hQ
    simp only [exec_cons, exec_nil]
  case Identity => exact hT
  case ResidualBegin => exact hT.open_residue hid (hx _)
  case ResidualEnd => exact hT.close_residue hb
  case Gemm =>
    -- `transpose(weight, weight_t)` leaves the activation where it is
    have hT₁ : Tracks σ₀ P (Call.exec sem σ ⟨.transpose, op.id, [.field op.id .weight],
        [.field op.id .weight_t]⟩) x v R :=
      hT.exec_aside (List.forall_mem_singleton.mpr ⟨(hx _).symm, writable_field rfl (by decide)⟩)
    exact hT₁.exec_call rfl (by simp only [List.map_cons, List.map_nil, Kernel.results, hT₁.cur,
      hT₁.params _ .weight rfl, hout]) (writable_field rfl (by decide)) (fun _ h => nomatch h)
  case LayerNorm =>
    exact hT.exec_call rfl (by simp only [List.map_cons, List.map_nil, Kernel.results, hT.cur,
        hT.params _ .weight rfl, hT.params _ .bias rfl, hout])
      (writable_field rfl (by decide)) (List.forall_mem_cons.mpr
        ⟨⟨by simp, writable_field rfl (by decide)⟩, List.forall_mem_singleton.mpr
          ⟨by simp, writable_field rfl (by decide)⟩⟩)
  all_goals
    exact hT.exec_call rfl (by simp only [List.map_cons, List.map_nil, Kernel.results, hT.cur,
        hT.params _ .bias rfl, List.head?_cons, hout])
      (by first | exact hT.writable | exact writable_field rfl (by decide)) (fun _ h => nomatch h)

/-- `inference` computes `Op.forward` too, in place or into `act`, when `layer_norm_inf` writes
what `layer_norm` writes first. -/
theorem Op.inference_tracks [DecidableEq D] (hout : ∀ i k vs, (sem i k vs).head? = some (out i k vs))
    (hln : ∀ i vs, out i .layer_norm_inf vs = out i .layer_norm vs) {cs : List Call} {y : Buf}
    (h : op.inference x = .ok (cs, y)) (hT : Tracks σ₀ P σ x v R) (hid : op.id ∉ P)
    (hx : ∀ fld, x ≠ .field op.id fld) (hQ : op.open_after P = some Q) :
    Tracks σ₀ Q (exec sem σ cs) y (op.forward out σ₀ v R).1 (op.forward out σ₀ v R).2 := by
  unfold Op.inference at h
  unfold Op.open_after at hQ
  unfold Op.forward
  cases hk : op.kind <;> simp only [hk] at h hQ ⊢
  -- the guards of `Transpose`, `Gemm`, the ops that keep their type, `ResidualEnd` and the
  -- collectives
  case' Transpose =>
    obtain ⟨s, -, h⟩ := bind_eq_ok.mp h
    obtain ⟨act, -, h⟩ := bind_eq_ok.mp h
    split_ifs at h
  case' Gemm =>
    split_ifs at h
    on_goal 2 =>
      obtain ⟨s, -, h⟩ := bind_eq_ok.mp h
      obtain ⟨act, -, h⟩ := bind_eq_ok.mp h
      split_ifs at h
  case' LayerNorm | Gelu | Relu => split_ifs at h
  case' ResidualEnd b => split_ifs at hQ with hb
  case' Scatter | ReduceScatter | AllGather | AllReduce => obtain ⟨_, -, h⟩ := bind_eq_ok.mp h
  all_goals
    cases h
    cases hQ
    simp only [exec_cons, exec_nil]
  case Identity => exact hT
  case ResidualBegin => exact hT.open_residue hid (hx _)
  case ResidualEnd => exact hT.close_residue hb
  all_goals
    exact hT.exec_call rfl (by simp only [List.map_cons, List.map_nil, Kernel.results, hT.cur,
        hT.params _ .weight rfl, hT.params _ .bias rfl, List.head?_cons, hout, hln])
      (by first | exact hT.writable | exact writable_field rfl (by decide)) (fun _ h => nomatch h)

theorem open_residuals_cons_ne_none {ops : List (Op D)} :
    open_residuals P (op :: ops) ≠ none ↔
      ∃ Q, op.open_after P = some Q ∧ open_residuals Q ops ≠ none := by
  rw [open_residuals]
  cases op.open_after P <;> simp

/-- What the step to the rest of a balanced list of distinct instances keeps: no later instance
is open, and none owns the current tensor. -/
theorem fresh_after {ops : List (Op D)} {y : Buf} (hQ : op.open_after P = some Q)
    (hids : op.id ∉ ops.map Op.id) (hfresh : ∀ op' ∈ ops, op'.id ∉ P)
    (hy : ∀ op' ∈ ops, (∀ i ∈ op.fwd_refs, i ≠ op'.id) → ∀ fld, y ≠ .field op'.id fld) :
    ∀ op' ∈ ops, op'.id ∉ Q ∧ ∀ fld, y ≠ .field op'.id fld := by
  have hne : ∀ op' ∈ ops, op'.id ≠ op.id := fun op' hop' h =>
    hids (h ▸ List.mem_map_of_mem Op.id hop')
  refine fun op' hop' => ⟨fun hQ' => ?_, hy op' hop' fun i hi h => ?_⟩
  · rcases Finset.mem_insert.mp (Op.open_after_subset hQ hQ') with h | h
    exacts [hne op' hop' h, hfresh op' hop' h]
  · rcases Op.fwd_refs_open hQ i hi with rfl | hP
    exacts [hne op' hop' h.symm, hfresh op' hop' (h ▸ hP)]

/-- A tensor that names no instance the op names keeps no instance's tensor in what the
generator yields. -/
theorem Op.training_y_ne {t : Training} (h : op.training x = .ok t) {j : Nat}
    (hx : ∀ fld, x ≠ .field j fld) (hrefs : ∀ i ∈ op.fwd_refs, i ≠ j) :
    ∀ fld, t.y ≠ .field j fld :=
  (@Op.training_footprint D op x (fun _ => True) (fun b => ∀ fld, b ≠ .field j fld)
    (fun _ => True) (fun _ => True) t h trivial hx (fun _ _ => trivial) (fun _ _ => trivial)
    (fun i hi _ => ⟨trivial, fun _ fld he => hrefs i hi (by cases he; rfl)⟩)
    (fun _ _ _ => ⟨trivial, fun _ => trivial⟩)).y.2

theorem Op.inference_y_ne [DecidableEq D] {cs : List Call} {y : Buf}
    (h : op.inference x = .ok (cs, y)) {j : Nat} (hx : ∀ fld, x ≠ .field j fld)
    (hrefs : ∀ i ∈ op.fwd_refs, i ≠ j) : ∀ fld, y ≠ .field j fld :=
  (op.inference_footprint (R := fun _ => True) (W := fun b => ∀ fld, b ≠ .field j fld) h
    trivial hx fun i hi _ => ⟨trivial, fun _ fld he => hrefs i hi (by cases he; rfl)⟩).2.2

/-- The training forward phase of a balanced list of distinct instances computes
`forward_run` from any store that tracks the activation it starts from. -/
theorem forward_phase_tracks (hout : ∀ i k vs, (sem i k vs).head? = some (out i k vs))
    {ops : List (Op D)} {ts : List Training} {y : Buf} (hids : (ops.map Op.id).Nodup)
    (hfresh : ∀ op ∈ ops, op.id ∉ P ∧ ∀ fld, x ≠ .field op.id fld)
    (hopen : open_residuals P ops ≠ none) (hT : Tracks σ₀ P σ x v R)
    (h : forward_phase ops x = .ok (ts, y)) :
    exec sem σ (ts.flatMap Training.fwd) y = forward_run out σ₀ ops v R := by
  induction ops generalizing x P σ v R ts with
  | nil =>
    cases h
    exact hT.cur
  | cons op ops ih =>
    obtain ⟨t, ts', ht, hrest, rfl⟩ := forward_phase_cons_eq_ok.mp h
    obtain ⟨Q, hQ, hopen'⟩ := open_residuals_cons_ne_none.mp hopen
    rw [List.map_cons, List.nodup_cons] at hids
    rw [List.forall_mem_cons] at hfresh
    have hfresh' := fresh_after hQ hids.1 (fun op' hop' => (hfresh.2 op' hop').1)
      fun op' hop' => op.training_y_ne ht (hfresh.2 op' hop').2
    rw [List.flatMap_cons, exec_append]
    exact ih hids.2 hfresh' hopen' (op.training_tracks hout ht hT hfresh.1.1 hfresh.1.2 hQ) hrest

/-- `inference` over a balanced list of distinct instances computes `forward_run` from any store
that tracks the activation it starts from. -/
theorem inference_run_tracks [DecidableEq D]
    (hout : ∀ i k vs, (sem i k vs).head? = some (out i k vs))
    (hln : ∀ i vs, out i .layer_norm_inf vs = out i .layer_norm vs) {ops : List (Op D)}
    {cs : List Call} {y : Buf} (hids : (ops.map Op.id).Nodup)
    (hfresh : ∀ op ∈ ops, op.id ∉ P ∧ ∀ fld, x ≠ .field op.id fld)
    (hopen : open_residuals P ops ≠ none) (hT : Tracks σ₀ P σ x v R)
    (h : inference_run ops x = .ok (cs, y)) :
    exec sem σ cs y = forward_run out σ₀ ops v R := by
  induction ops generalizing x P σ v R cs with
  | nil =>
    cases h
    exact hT.cur
  | cons op ops ih =>
    obtain ⟨cs₁, y₁, cs₂, h₁, h₂, rfl⟩ := inference_run_cons_eq_ok.mp h
    obtain ⟨Q, hQ, hopen'⟩ := open_residuals_cons_ne_none.mp hopen
    rw [List.map_cons, List.nodup_cons] at hids
    rw [List.forall_mem_cons] at hfresh
    have hfresh' := fresh_after hQ hids.1 (fun op' hop' => (hfresh.2 op' hop').1)
      fun op' hop' => op.inference_y_ne h₁ (hfresh.2 op' hop').2
    rw [exec_append]
    exact ih hids.2 hfresh' hopen'
      (op.inference_tracks hout hln h₁ hT hfresh.1.1 hfresh.1.2 hQ) h₂

/-- `inference` returns wherever the training generator does, from any input, unless the op is
a `Gemm` that keeps its type without its input shape set: only that one's in-place check needs
the shape. -/
theorem Op.inference_ok_of_training_ok [DecidableEq D] {t : Training}
    (h : op.training x = .ok t)
    (hshape : ∀ pd i o m, op.kind = .Gemm pd i o m → op.output_type = op.input_type →
      op.input_shape? ≠ none) (x' : Buf) :
    ∃ cs y, op.inference x' = .ok (cs, y) := by
  unfold Op.training at h
  unfold Op.inference
  cases hk : op.kind <;> simp only [hk] at h hshape ⊢
  case Transpose =>
    obtain ⟨s, hs, h⟩ := bind_eq_ok.mp h
    obtain ⟨act, hact, -⟩ := bind_eq_ok.mp h
    simp only [hs, hact, ok_bind]
    split_ifs <;> exact ⟨_, _, rfl⟩
  case Gemm pd i o m =>
    split_ifs with htype
    · exact ⟨_, _, rfl⟩
    obtain ⟨s, hs⟩ := Option.ne_none_iff_exists'.mp (hshape pd i o m rfl (not_not.mp htype))
    have hs' : op.input_shape = .ok s := by rw [Op.input_shape, hs]
    simp only [Op.describe_activation_shape, hs', hk, ok_bind, pure_bind]
    split_ifs <;> exact ⟨_, _, rfl⟩
  case LayerNorm | Gelu | Relu => split_ifs <;> exact ⟨_, _, rfl⟩
  case Scatter | ReduceScatter | AllGather | AllReduce =>
    obtain ⟨_, he, -⟩ := bind_eq_ok.mp h
    simp only [he, ok_bind]
    exact ⟨_, _, rfl⟩
  all_goals exact ⟨_, _, rfl⟩

theorem inference_run_ok_of_forward_phase_ok [DecidableEq D] {ops : List (Op D)}
    {ts : List Training} {y : Buf} (h : forward_phase ops x = .ok (ts, y))
    (hshape : ∀ op ∈ ops, ∀ pd i o m, op.kind = .Gemm pd i o m →
      op.output_type = op.input_type → op.input_shape? ≠ none) (x' : Buf) :
    ∃ cs y', inference_run ops x' = .ok (cs, y') := by
  induction ops generalizing x x' ts with
  | nil => exact ⟨_, _, rfl⟩
  | cons op ops ih =>
    obtain ⟨t, ts', ht, hrest, rfl⟩ := forward_phase_cons_eq_ok.mp h
    rw [List.forall_mem_cons] at hshape
    obtain ⟨cs₁, y₁, h₁⟩ := op.inference_ok_of_training_ok ht hshape.1 x'
    obtain ⟨cs₂, y₂, h₂⟩ := ih hrest hshape.2 y₁
    exact ⟨_, _, inference_run_cons_eq_ok.mpr ⟨cs₁, y₁, cs₂, h₁, h₂, rfl⟩⟩

theorem fresh_input {ops : List (Op D)} :
    ∀ op ∈ ops, op.id ∉ (∅ : Finset Nat) ∧ ∀ fld, Buf.input ≠ .field op.id fld :=
  fun _ _ => ⟨Finset.not_mem_empty _, fun _ h => Buf.noConfusion h⟩

end Refinement

section Network

variable [Add V] {sem : Nat → Kernel → List V → List V} {out : Nat → Kernel → List V → V}

/-- On a list of distinct instances whose every `ResidualEnd` closes an open `ResidualBegin`, the
training forward phase computes the network `forward_run`, from any store: the tensor the last
generator yields holds that function of the input and the parameters, whatever the residues
held before. -/
theorem forward_phase_eq_forward_run (hout : ∀ i k vs, (sem i k vs).head? = some (out i k vs))
    {ops : List (Op D)} (hids : (ops.map Op.id).Nodup) (hopen : open_residuals ∅ ops ≠ none)
    {ts : List Training} {y : Buf} (h : forward_phase ops .input = .ok (ts, y))
    (σ : Buf → V) (R : Nat → V) :
    exec sem σ (ts.flatMap Training.fwd) y = forward_run out σ ops (σ .input) R :=
  forward_phase_tracks hout hids fresh_input hopen (Tracks.input σ R) h

/-- A residual block around a `Gelu` on numbers, every kernel writing one plus the sum of what
it reads and every tensor holding `1`: the block yields `1 + 2`. -/
theorem forward_phase_eq_forward_run_residual_gelu :
    let ops : List (Op Nat) :=
      [⟨0, .ResidualBegin (some 1), 0, 0, some none, some ParallelismClass.NORMAL, some [2, 4]⟩,
        ⟨2, .Gelu, 0, 0, some none, some ParallelismClass.NORMAL, some [2, 4]⟩,
        ⟨1, .ResidualEnd 0, 0, 0, some none, some ParallelismClass.NORMAL, some [2, 4]⟩]
    ∃ ts y, forward_phase ops .input = .ok (ts, y) ∧
      exec (fun _ _ vs => [vs.foldr (· + ·) 1]) (fun _ => 1) (ts.flatMap Training.fwd) y = 3 := by
  intro ops
  exact ⟨_, _, rfl, (@forward_phase_eq_forward_run Nat Nat _
    (fun _ _ vs => [vs.foldr (· + ·) 1]) (fun _ _ vs => vs.foldr (· + ·) 1) (fun _ _ _ => rfl)
    ops (by decide) (by decide) _ _ rfl (fun _ => 1) fun _ => 0).trans rfl⟩

/-- On the same lists `inference` computes the network `forward_run` as well, although it writes
into its input in place wherever an op keeps its type and shape, when `layer_norm_inf` writes
what `layer_norm` writes first. -/
theorem inference_run_eq_forward_run [DecidableEq D]
    (hout : ∀ i k vs, (sem i k vs).head? = some (out i k vs))
    (hln : ∀ i vs, out i .layer_norm_inf vs = out i .layer_norm vs) {ops : List (Op D)}
    (hids : (ops.map Op.id).Nodup) (hopen : open_residuals ∅ ops ≠ none) {cs : List Call}
    {y : Buf} (h : inference_run ops .input = .ok (cs, y)) (σ : Buf → V) (R : Nat → V) :
    exec sem σ cs y = forward_run out σ ops (σ .input) R :=
  inference_run_tracks hout hln hids fresh_input hopen (Tracks.input σ R) h

/-- The residual block around a `Gelu` that keeps its type: `inference` writes the activation
into the input in place, and still yields `1 + 2`. -/
theorem inference_run_eq_forward_run_residual_gelu :
    let ops : List (Op Nat) :=
      [⟨0, .ResidualBegin (some 1), 0, 0, some none, some ParallelismClass.NORMAL, some [2, 4]⟩,
        ⟨2, .Gelu, 0, 0, some none, some ParallelismClass.NORMAL, some [2, 4]⟩,
        ⟨1, .ResidualEnd 0, 0, 0, some none, some ParallelismClass.NORMAL, some [2, 4]⟩]
    ∃ cs y, inference_run ops .input = .ok (cs, y) ∧
      exec (fun _ _ vs => [vs.foldr (· + ·) 1]) (fun _ => 1) cs y = 3 := by
  intro ops
  exact ⟨_, _, rfl, (@inference_run_eq_forward_run Nat Nat _
    (fun _ _ vs => [vs.foldr (· + ·) 1]) (fun _ _ vs => vs.foldr (· + ·) 1) instDecidableEqNat
    (fun _ _ _ => rfl) (fun _ _ => rfl) ops (by decide) (by decide) _ _ rfl (fun _ => 1)
    fun _ => 0).trans rfl⟩

/-- Wherever the training forward phase of a list of distinct instances, every `ResidualEnd`
closing an open `ResidualBegin`, returns, `inference` returns too, unless a `Gemm` that keeps its
type has no input shape, and on every store it leaves in the tensor it returns what the forward
phase leaves in its last yield. The kernels are any that write at least one result, with
`layer_norm_inf` writing what `layer_norm` writes first. -/
theorem inference_run_agrees_with_forward_phase [DecidableEq D] (hsem : ∀ i k vs, sem i k vs ≠ [])
    (hln : ∀ i vs, (sem i .layer_norm_inf vs).head? = (sem i .layer_norm vs).head?)
    {ops : List (Op D)} (hids : (ops.map Op.id).Nodup) (hopen : open_residuals ∅ ops ≠ none)
    (hshape : ∀ op ∈ ops, ∀ pd i o m, op.kind = .Gemm pd i o m →
      op.output_type = op.input_type → op.input_shape? ≠ none)
    {ts : List Training} {yT : Buf} (h : forward_phase ops .input = .ok (ts, yT)) :
    ∃ cs yI, inference_run ops .input = .ok (cs, yI) ∧
      ∀ σ : Buf → V, exec sem σ cs yI = exec sem σ (ts.flatMap Training.fwd) yT := by
  obtain ⟨cs, yI, hI⟩ := inference_run_ok_of_forward_phase_ok h hshape .input
  -- the value each kernel writes first
  have hout : ∀ i k vs, (sem i k vs).head? = some ((sem i k vs).head (hsem i k vs)) :=
    fun i k vs => List.head?_eq_head _
  have hln' : ∀ i vs, (sem i .layer_norm_inf vs).head (hsem _ _ _) =
      (sem i .layer_norm vs).head (hsem _ _ _) :=
    fun i vs => Option.some_injective _ (((hout _ _ _).symm.trans (hln i vs)).trans (hout _ _ _))
  refine ⟨cs, yI, hI, fun σ => ?_⟩
  rw [inference_run_tracks hout hln' hids fresh_input hopen (Tracks.input σ fun _ => σ .input) hI,
    forward_phase_tracks hout hids fresh_input hopen (Tracks.input σ fun _ => σ .input) h]

/-- A residual block around a `Gemm` that keeps its type and shape, and so is computed in place
in `inference`: both runs return, and agree on every store. -/
theorem inference_run_agrees_with_forward_phase_gemm :
    let ops : List (Op Nat) :=
      [⟨0, .ResidualBegin (some 1), 0, 0, some none, some ParallelismClass.NORMAL, some [2, 4]⟩,
        ⟨2, .Gemm 0 4 4 0, 0, 0, some none, some ParallelismClass.NORMAL, some [2, 4]⟩,
        ⟨1, .ResidualEnd 0, 0, 0, some none, some ParallelismClass.NORMAL, some [2, 4]⟩]
    ∃ ts yT, forward_phase ops .input = .ok (ts, yT) ∧ ∃ cs yI,
      inference_run ops .input = .ok (cs, yI) ∧ ∀ σ : Buf → Nat,
        exec (fun _ _ vs => [vs.foldr (· + ·) 1]) σ cs yI =
          exec (fun _ _ vs => [vs.foldr (· + ·) 1]) σ (ts.flatMap Training.fwd) yT := by
  intro ops
  exact ⟨_, _, rfl, @inference_run_agrees_with_forward_phase Nat Nat _
    (fun _ _ vs => [vs.foldr (· + ·) 1]) instDecidableEqNat (fun _ _ _ => List.cons_ne_nil _ _)
    (fun _ _ => rfl) ops (by decide) (by decide) (by simp [ops]) _ _ rfl⟩

end Network

end transformer_engine.sequential_new
