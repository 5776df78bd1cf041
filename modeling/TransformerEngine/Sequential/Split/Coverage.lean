import TransformerEngine.Sequential.Split.Absorb

namespace transformer_engine.sequential

variable {α : Type} [DecidableEq α]

theorem pop_bwds_used {s s' : UnitState α} {l l' : List (Item α)}
    (h : pop_bwds s l = some (s', l')) :
    s'.used_forwards = s.used_forwards ∧ s'.used_backwards ++ l' = s.used_backwards ++ l := by
  induction l generalizing s with
  | nil =>
    by_cases h0 : s.unmatched_fwd_ops = ∅
    · rw [pop_bwds_of_empty h0] at h
      cases h
      exact ⟨rfl, rfl⟩
    · rw [pop_bwds_nil h0] at h
      cases h
  | cons b l ih =>
    by_cases h0 : s.unmatched_fwd_ops = ∅
    · rw [pop_bwds_of_empty h0] at h
      cases h
      exact ⟨rfl, rfl⟩
    · rw [pop_bwds_cons h0] at h
      simpa using ih h

theorem pop_fwds_used {s s' : UnitState α} {l l' : List (Item α)}
    (h : pop_fwds s l = some (s', l')) :
    s'.used_backwards = s.used_backwards ∧ s'.used_forwards ++ l' = s.used_forwards ++ l := by
  rw [pop_fwds_eq_swap, Option.map_eq_some'] at h
  obtain ⟨⟨t, l''⟩, ht, heq⟩ := h
  cases heq
  simpa using pop_bwds_used ht

/-- The middle loop consumes entries from the front of both lists and records each
one in the unit, losing none. -/
theorem match_unit_used {s s' : UnitState α} {fwds bwds fwds' bwds' : List (Item α)}
    (h : match_unit s fwds bwds = some (s', fwds', bwds')) :
    s'.used_forwards ++ fwds' = s.used_forwards ++ fwds ∧
      s'.used_backwards ++ bwds' = s.used_backwards ++ bwds := by
  induction s, fwds, bwds using match_unit.induct with
  | case1 s fwds bwds h0 =>
    rw [match_unit_eq, if_pos h0] at h
    cases h
    exact ⟨rfl, rfl⟩
  | case2 s fwds bwds h0 hb =>
    rw [match_unit_eq, if_neg h0, hb] at h
    cases h
  | case3 s fwds bwds h0 s₁ bwds₁ hb hf =>
    rw [match_unit_eq, if_neg h0, hb] at h
    simp [hf] at h
  | case4 s fwds bwds h0 s₁ bwds₁ hb s₂ fwds₂ hf ih =>
    rw [match_unit_eq, if_neg h0, hb] at h
    simp only [Option.some_bind, hf] at h
    obtain ⟨hb₁, hb₂⟩ := pop_bwds_used hb
    obtain ⟨hf₁, hf₂⟩ := pop_fwds_used hf
    obtain ⟨h₁, h₂⟩ := ih h
    exact ⟨by rw [h₁, hf₂, hb₁], by rw [h₂, hf₁, hb₂]⟩

/-- Whenever `split_into_self_contained` returns, without any precondition on its
arguments, concatenating the units' `fwds` gives back `fwds` and concatenating their
`bwds` gives back `bwds`. -/
theorem split_into_self_contained_flatten {fwds bwds : List (Item α)}
    {units : List (SelfContainedOp α)} (h : split_into_self_contained fwds bwds = some units) :
    (units.map SelfContainedOp.fwds).flatten = fwds ∧
      (units.map SelfContainedOp.bwds).flatten = bwds := by
  induction fwds, bwds using split_into_self_contained.induct generalizing units with
  | case1 fwds bwds h0 =>
    obtain ⟨rfl, rfl⟩ := h0
    simp only [split_into_self_contained_nil_nil, Option.some.injEq] at h
    subst h
    exact ⟨rfl, rfl⟩
  | case2 bwds h0 =>
    cases bwds with
    | nil => exact absurd ⟨rfl, rfl⟩ h0
    | cons b bwds => simp [split_into_self_contained_nil_cons] at h
  | case3 bwds fwd fwds hm h0 =>
    simp [split_into_self_contained_cons, hm] at h
  | case4 bwds fwd fwds s fwds' bwds' hm h0 ih =>
    rw [split_into_self_contained_cons, hm, Option.some_bind, Option.map_eq_some'] at h
    obtain ⟨us, hus, rfl⟩ := h
    obtain ⟨h₁, h₂⟩ := match_unit_used hm
    obtain ⟨ih₁, ih₂⟩ := ih hus
    simp only [UnitState.init_used_forwards, UnitState.init_used_backwards, List.nil_append,
      List.singleton_append] at h₁ h₂
    simp [ih₁, ih₂, h₁, h₂]

section

variable {P Q : Finset α} {s : UnitState α}

/-- What every state of the unit loop satisfies when its forward entries come from
a list spanning `P` and its backward entries from one spanning `Q`: an op taken on
one side that the other side never spans stays pending. No precondition on the
lists is needed. -/
structure PendingInv (P Q : Finset α) (s : UnitState α) : Prop where
  fwd_subset : s.unmatched_fwd_ops ⊆ P
  bwd_subset : s.unmatched_bwd_ops ⊆ Q
  used_fwd_subset : span s.used_forwards ⊆ P
  used_bwd_subset : span s.used_backwards ⊆ Q
  fwd_pending : ∀ o ∈ span s.used_forwards, o ∉ Q → o ∈ s.unmatched_fwd_ops
  bwd_pending : ∀ o ∈ span s.used_backwards, o ∉ P → o ∈ s.unmatched_bwd_ops

theorem PendingInv.swap (h : PendingInv P Q s) : PendingInv Q P s.swap :=
  ⟨h.bwd_subset, h.fwd_subset, h.used_bwd_subset, h.used_fwd_subset, h.bwd_pending, h.fwd_pending⟩

theorem PendingInv.init {f : Item α} (hf : f.ops.toFinset ⊆ P) : PendingInv P Q (UnitState.init f) :=
  ⟨by simpa using hf, by simp, by simpa using hf, by simp, fun o ho _ => by simpa using ho,
    by simp⟩

theorem PendingInv.take_bwd (h : PendingInv P Q s) {b : Item α} (hb : b.ops.toFinset ⊆ Q) :
    PendingInv P Q (s.take_bwd b) := by
  refine ⟨?_, ?_, h.used_fwd_subset, ?_, fun o ho hQ => ?_, fun o ho hP => ?_⟩
  · exact (absorb_fst_subset _ _ _).trans h.fwd_subset
  · exact (absorb_snd_subset _ _ _).trans (Finset.union_subset h.bwd_subset hb)
  · simpa using Finset.union_subset h.used_bwd_subset hb
  · exact mem_absorb_fst (h.fwd_pending o ho hQ) fun hmem => hQ (hb (List.mem_toFinset.mpr hmem))
  · refine mem_absorb_snd ?_ fun hf => hP (h.fwd_subset hf)
    simp only [UnitState.take_bwd_used_backwards, span_append, span_cons, span_nil,
      Finset.union_empty, Finset.mem_union] at ho
    rcases ho with ho | ho
    · exact Finset.mem_union_left _ (h.bwd_pending o ho hP)
    · exact Finset.mem_union_right _ ho

theorem PendingInv.pop_bwds (h : PendingInv P Q s) {l l' : List (Item α)} {s' : UnitState α}
    (hl : span l ⊆ Q) (hpop : pop_bwds s l = some (s', l')) : PendingInv P Q s' ∧ span l' ⊆ Q := by
  induction l generalizing s with
  | nil =>
    by_cases h0 : s.unmatched_fwd_ops = ∅
    · rw [pop_bwds_of_empty h0] at hpop
      cases hpop
      exact ⟨h, hl⟩
    · rw [pop_bwds_nil h0] at hpop
      cases hpop
  | cons b l ih =>
    rw [span_cons, Finset.union_subset_iff] at hl
    by_cases h0 : s.unmatched_fwd_ops = ∅
    · rw [pop_bwds_of_empty h0] at hpop
      cases hpop
      exact ⟨h, by simpa using Finset.union_subset hl.1 hl.2⟩
    · rw [pop_bwds_cons h0] at hpop
      exact ih (h.take_bwd hl.1) hl.2 hpop

theorem PendingInv.pop_fwds (h : PendingInv P Q s) {l l' : List (Item α)} {s' : UnitState α}
    (hl : span l ⊆ P) (hpop : pop_fwds s l = some (s', l')) : PendingInv P Q s' ∧ span l' ⊆ P := by
  rw [pop_fwds_eq_swap, Option.map_eq_some'] at hpop
  obtain ⟨⟨t, l''⟩, ht, heq⟩ := hpop
  cases heq
  obtain ⟨ht', hl'⟩ := h.swap.pop_bwds hl ht
  exact ⟨ht'.swap, hl'⟩

/-- A unit closes only once both pending sets are empty, so everything it took on
one side is spanned by the other side's list. -/
theorem PendingInv.match_unit (h : PendingInv P Q s) {fwds bwds fwds' bwds' : List (Item α)}
    {s' : UnitState α} (hf : span fwds ⊆ P) (hb : span bwds ⊆ Q)
    (hm : match_unit s fwds bwds = some (s', fwds', bwds')) :
    span s'.used_forwards ⊆ Q ∧ span s'.used_backwards ⊆ P ∧ span fwds' ⊆ P ∧ span bwds' ⊆ Q := by
  induction s, fwds, bwds using match_unit.induct with
  | case1 s fwds bwds h0 =>
    rw [match_unit_eq, if_pos h0] at hm
    cases hm
    refine ⟨fun o ho => ?_, fun o ho => ?_, hf, hb⟩
    · by_contra hQ
      simpa [h0.1] using h.fwd_pending o ho hQ
    · by_contra hP
      simpa [h0.2] using h.bwd_pending o ho hP
  | case2 s fwds bwds h0 hpb =>
    rw [match_unit_eq, if_neg h0, hpb] at hm
    cases hm
  | case3 s fwds bwds h0 s₁ bwds₁ hpb hpf =>
    rw [match_unit_eq, if_neg h0, hpb] at hm
    simp [hpf] at hm
  | case4 s fwds bwds h0 s₁ bwds₁ hpb s₂ fwds₂ hpf ih =>
    rw [match_unit_eq, if_neg h0, hpb] at hm
    simp only [Option.some_bind, hpf] at hm
    obtain ⟨h₁, hb₁⟩ := h.pop_bwds hb hpb
    obtain ⟨h₂, hf₂⟩ := h₁.pop_fwds hf hpf
    exact ih h₂ hf₂ hb₁ hm

end

theorem split_into_self_contained_units_subset {P Q : Finset α} {fwds bwds : List (Item α)}
    {units : List (SelfContainedOp α)} (hf : span fwds ⊆ P) (hb : span bwds ⊆ Q)
    (h : split_into_self_contained fwds bwds = some units) :
    ∀ u ∈ units, span u.fwds ⊆ Q ∧ span u.bwds ⊆ P := by
  induction fwds, bwds using split_into_self_contained.induct generalizing units with
  | case1 fwds bwds h0 =>
    obtain ⟨rfl, rfl⟩ := h0
    simp only [split_into_self_contained_nil_nil, Option.some.injEq] at h
    subst h
    simp
  | case2 bwds h0 =>
    cases bwds with
    | nil => exact absurd ⟨rfl, rfl⟩ h0
    | cons b bwds => simp [split_into_self_contained_nil_cons] at h
  | case3 bwds fwd fwds hm h0 =>
    simp [split_into_self_contained_cons, hm] at h
  | case4 bwds fwd fwds s fwds' bwds' hm h0 ih =>
    rw [split_into_self_contained_cons, hm, Option.some_bind, Option.map_eq_some'] at h
    obtain ⟨us, hus, rfl⟩ := h
    rw [span_cons, Finset.union_subset_iff] at hf
    obtain ⟨hu₁, hu₂, hf', hb'⟩ := (PendingInv.init (Q := Q) hf.1).match_unit hf.2 hb hm
    intro u hu
    rcases List.mem_cons.mp hu with rfl | hu
    · exact ⟨hu₁, hu₂⟩
    · exact ih hf' hb' hus u hu

theorem span_flatten_subset {S : Finset α} {ls : List (List (Item α))} (h : ∀ l ∈ ls, span l ⊆ S) :
    span ls.flatten ⊆ S := by
  intro o ho
  simp only [mem_span, members, List.mem_flatMap, List.mem_flatten] at ho
  obtain ⟨i, ⟨l, hl, hi⟩, ho⟩ := ho
  exact h l hl (mem_span.mpr (List.mem_flatMap.mpr ⟨i, hi, ho⟩))

/-- For every pair of lists, with repeated ops and empty `FusedOp`s allowed: when the
forward and backward lists span different elementary ops, `split_into_self_contained`
pops an empty list instead of returning units. -/
theorem split_into_self_contained_none_of_span_ne {fwds bwds : List (Item α)}
    (h : span fwds ≠ span bwds) : split_into_self_contained fwds bwds = none := by
  rw [← Option.not_isSome_iff_eq_none]
  intro hsome
  obtain ⟨units, hunits⟩ := Option.isSome_iff_exists.mp hsome
  have hsub := split_into_self_contained_units_subset subset_rfl subset_rfl hunits
  obtain ⟨hf, hb⟩ := split_into_self_contained_flatten hunits
  apply h
  apply subset_antisymm
  · rw [← hf]
    exact span_flatten_subset fun l hl => by
      obtain ⟨u, hu, rfl⟩ := List.mem_map.mp hl
      exact (hsub u hu).1
  · rw [← hb]
    exact span_flatten_subset fun l hl => by
      obtain ⟨u, hu, rfl⟩ := List.mem_map.mp hl
      exact (hsub u hu).2

theorem split_into_self_contained_none_of_span_ne_extra_bwd :
    span [Item.fused [0, 1]] ≠ span [Item.op 0, .op 1, .op 2] ∧
      split_into_self_contained [Item.fused [0, 1]] [Item.op 0, .op 1, .op 2] = none :=
  ⟨by decide, split_into_self_contained_none_of_span_ne (by decide)⟩

end transformer_engine.sequential
