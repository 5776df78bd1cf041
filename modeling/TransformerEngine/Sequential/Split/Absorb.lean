import TransformerEngine.Sequential.Split

namespace transformer_engine.sequential

variable {α : Type} [DecidableEq α]

/-- On a member list without repetitions the `for op in ops` loop is a set
update: the matched ops leave `pending` and the others join `other`. -/
theorem absorb_of_nodup (pending other : Finset α) {ops : List α} (h : ops.Nodup) :
    absorb pending other ops = (pending \ ops.toFinset, other ∪ (ops.toFinset \ pending)) := by
  induction ops generalizing pending other with
  | nil => simp [absorb]
  | cons op ops ih =>
    rw [List.nodup_cons] at h
    by_cases hp : op ∈ pending
    · rw [absorb, if_pos hp, ih _ _ h.2]
      congr 1 <;> ext x <;> by_cases hx : x = op <;> simp_all
    · rw [absorb, if_neg hp, ih _ _ h.2]
      congr 1 <;> ext x <;> by_cases hx : x = op <;> simp_all

/-- Without any precondition the loop only removes from `pending`. -/
theorem absorb_fst_subset (pending other : Finset α) (ops : List α) :
    (absorb pending other ops).1 ⊆ pending := by
  induction ops generalizing pending other with
  | nil => exact subset_refl _
  | cons op ops ih =>
    rw [absorb]
    split
    · exact (ih _ _).trans (Finset.erase_subset _ _)
    · exact ih _ _

/-- Without any precondition the loop only adds the ops it reads to `other`. -/
theorem absorb_snd_subset (pending other : Finset α) (ops : List α) :
    (absorb pending other ops).2 ⊆ other ∪ ops.toFinset := by
  induction ops generalizing pending other with
  | nil => simp
  | cons op ops ih =>
    rw [absorb]
    split
    · exact (ih _ _).trans (by intro x; simp; tauto)
    · exact (ih _ _).trans (by intro x; simp)

/-- An op that is not in `pending` when the loop starts ends up in `other`. -/
theorem mem_absorb_snd {pending other : Finset α} {ops : List α} {o : α} (ho : o ∈ other ∪ ops.toFinset)
    (hp : o ∉ pending) : o ∈ (absorb pending other ops).2 := by
  induction ops generalizing pending other with
  | nil => simpa using ho
  | cons op ops ih =>
    rw [absorb]
    split
    · refine ih ?_ (fun h => hp (Finset.mem_of_mem_erase h))
      by_cases hx : o = op
      · subst hx; contradiction
      · simpa [hx] using ho
    · exact ih (by simp at ho ⊢; tauto) hp

/-- An op of `pending` that the loop does not read stays in `pending`. -/
theorem mem_absorb_fst {pending other : Finset α} {ops : List α} {o : α} (hp : o ∈ pending)
    (ho : o ∉ ops) : o ∈ (absorb pending other ops).1 := by
  induction ops generalizing pending other with
  | nil => exact hp
  | cons op ops ih =>
    rw [List.mem_cons, not_or] at ho
    rw [absorb]
    split
    · exact ih (Finset.mem_erase.mpr ⟨ho.1, hp⟩) ho.2
    · exact ih hp ho.2

end transformer_engine.sequential
