import TransformerEngine.SequentialNew.Op

namespace transformer_engine.sequential_new

/-- A tensor the kernels read and write: the pipeline's input, the gradient its backward is
started with, or the attribute `fld` of the op instance `id`, which exists only where
`set_tensors_allocated` injected it (`training_allocated` says where the caller does). -/
inductive Buf where
  | input
  | output_grad
  | field (id : Nat) (fld : Field)
  deriving DecidableEq, Repr

/-- The `generic_tensor` kernels the ops call as `f.*`. -/
inductive Kernel where
  | transpose | gemm | copy | add | cast | gelu | dgelu | relu | drelu | dropout
  | layer_norm | layer_norm_inf | dlayer_norm
  | scatter | gather | reduce_scatter | all_gather | all_reduce
  deriving DecidableEq, Repr

/-- A kernel call of the op instance `issuer`: the tensors it reads, then the destination
tensors it writes (its trailing arguments). Its scalar arguments (`eps`, `p`, the
distributed group) are the issuer's own. -/
structure Call where
  kernel : Kernel
  issuer : Nat
  src : List Buf
  dst : List Buf
  deriving DecidableEq, Repr

/-- The tensors `c` names. -/
def Call.bufs (c : Call) : List Buf := c.src ++ c.dst

@[simp] theorem Call.mem_bufs {c : Call} {b : Buf} : b ∈ c.bufs ↔ b ∈ c.src ∨ b ∈ c.dst :=
  List.mem_append

variable {V : Type}

/-- The values `vs` written to the tensors `bs`, in order. -/
def write_all (σ : Buf → V) : List Buf → List V → Buf → V
  | b :: bs, v :: vs => write_all (Function.update σ b v) bs vs
  | _, _ => σ

variable {σ : Buf → V} {r : Buf} {v : V}

theorem write_all_of_not_mem {bs : List Buf} {vs : List V} (h : r ∉ bs) :
    write_all σ bs vs r = σ r := by
  induction bs generalizing σ vs with
  | nil => rfl
  | cons b bs ih =>
    cases vs with
    | nil => rfl
    | cons w vs =>
      rw [List.mem_cons, not_or] at h
      exact (ih h.2).trans (Function.update_noteq h.1 _ _)

theorem write_all_update {bs : List Buf} {vs : List V} (h : r ∉ bs) :
    write_all (Function.update σ r v) bs vs = Function.update (write_all σ bs vs) r v := by
  induction bs generalizing σ vs with
  | nil => rfl
  | cons b bs ih =>
    cases vs with
    | nil => rfl
    | cons w vs =>
      rw [List.mem_cons, not_or] at h
      simp only [write_all]
      rw [Function.update_comm h.1, ih h.2]

/-- Modelled from the spec (`generic_tensor` is not under src/): `copy(src, dst)` is
`dst := src` and `add(a, b, out)` is `out := a + b`; every other kernel computes as `sem`
says for the issuing instance. -/
def Kernel.results [Add V] (sem : Nat → Kernel → List V → List V) (k : Kernel) (issuer : Nat)
    (vs : List V) : List V :=
  match k, vs with
  | .copy, [a] => [a]
  | .add, [a, b] => [a + b]
  | k, vs => sem issuer k vs

variable [Add V] (sem : Nat → Kernel → List V → List V)

/-- The store after the call `c`. -/
def Call.exec (σ : Buf → V) (c : Call) : Buf → V :=
  write_all σ c.dst (c.kernel.results sem c.issuer (c.src.map σ))

/-- The store after the calls `cs`, in order. -/
def exec (σ : Buf → V) (cs : List Call) : Buf → V := cs.foldl (Call.exec sem) σ

variable {sem}

theorem Call.exec_of_not_mem {c : Call} (h : r ∉ c.dst) : c.exec sem σ r = σ r :=
  write_all_of_not_mem h

/-- A call that does not name `r` commutes with writing `r`. -/
theorem Call.exec_update {c : Call} (h : r ∉ c.bufs) :
    c.exec sem (Function.update σ r v) = Function.update (c.exec sem σ) r v := by
  rw [Call.mem_bufs, not_or] at h
  have hsrc : c.src.map (Function.update σ r v) = c.src.map σ :=
    List.map_congr_left fun b hb => Function.update_noteq (by rintro rfl; exact h.1 hb) _ _
  rw [Call.exec, hsrc, write_all_update h.2, Call.exec]

@[simp] theorem exec_nil : exec sem σ [] = σ := rfl

@[simp] theorem exec_cons {c : Call} {cs : List Call} :
    exec sem σ (c :: cs) = exec sem (c.exec sem σ) cs := rfl

theorem exec_append {cs ds : List Call} : exec sem σ (cs ++ ds) = exec sem (exec sem σ cs) ds :=
  List.foldl_append _ _ _ _

theorem exec_of_not_mem {cs : List Call} (h : ∀ c ∈ cs, r ∉ c.dst) : exec sem σ cs r = σ r := by
  induction cs generalizing σ with
  | nil => rfl
  | cons c cs ih =>
    rw [List.forall_mem_cons] at h
    exact (ih h.2).trans (Call.exec_of_not_mem h.1)

/-- Calls that do not name `r` commute with writing `r`. -/
theorem exec_update {cs : List Call} (h : ∀ c ∈ cs, r ∉ c.bufs) :
    exec sem (Function.update σ r v) cs = Function.update (exec sem σ cs) r v := by
  induction cs generalizing σ with
  | nil => rfl
  | cons c cs ih =>
    rw [List.forall_mem_cons] at h
    rw [exec_cons, Call.exec_update h.1, ih h.2, exec_cons]

@[simp] theorem Call.exec_copy {i : Nat} {a d : Buf} :
    Call.exec sem σ ⟨.copy, i, [a], [d]⟩ = Function.update σ d (σ a) := rfl

@[simp] theorem Call.exec_add {i : Nat} {a b d : Buf} :
    Call.exec sem σ ⟨.add, i, [a, b], [d]⟩ = Function.update σ d (σ a + σ b) := rfl

/-- How a call uses a tensor: a call reads its sources before it writes its destinations. -/
inductive Access where
  | read
  | write
  deriving DecidableEq, Repr

/-- How `c` first uses `r`, if it names it. -/
def Call.access (r : Buf) (c : Call) : Option Access :=
  if r ∈ c.src then some .read else if r ∈ c.dst then some .write else none

/-- How the first call of `cs` that names `r` uses it. -/
def first_access (r : Buf) : List Call → Option Access
  | [] => none
  | c :: cs =>
    match c.access r with
    | some a => some a
    | none => first_access r cs

/-- Every read of `r` in `cs` comes after a write of it. -/
def written_before_read (r : Buf) (cs : List Call) : Prop := first_access r cs ≠ some .read

instance (r : Buf) (cs : List Call) : Decidable (written_before_read r cs) :=
  inferInstanceAs (Decidable (_ ≠ _))

end transformer_engine.sequential_new
