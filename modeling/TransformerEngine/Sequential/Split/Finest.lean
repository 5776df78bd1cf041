import TransformerEngine.Sequential.Split.Absorb

namespace transformer_engine.sequential

variable {α : Type}

/-- The cumulative unit boundaries of a partition counted from the cut `(k, m)`:
after each unit, how many forward and backward entries have been consumed. -/
def cuts (k m : Nat) : List (SelfContainedOp α) → List (Nat × Nat)
  | [] => []
  | u :: us => (k + u.fwds.length, m + u.bwds.length) ::
      cuts (k + u.fwds.length) (m + u.bwds.length) us

theorem Valid.ops_nodup {l : List (Item α)} (hv : Valid l) {i : Item α} (hi : i ∈ l) :
    i.ops.Nodup :=
  (List.nodup_flatMap.mp hv.nodup).1 i hi

variable [DecidableEq α]

theorem span_take_add (l : List (Item α)) (k n : Nat) :
    span (l.take (k + n)) = span (l.take k) ∪ span ((l.drop k).take n) := by
  rw [List.take_add, span_append]

theorem Valid.disjoint_take_drop_take {l : List (Item α)} (hv : Valid l) (k n : Nat) :
    Disjoint (span (l.take k)) (span ((l.drop k).take n)) :=
  Finset.disjoint_of_subset_right (span_mono (List.take_subset _ _)) (hv.disjoint_take_drop k)

/-- A balanced cut after `(k₀, m₀)` on one side is after it on the other side too. -/
theorem Balanced.le_of_le {F B : List (Item α)} (hB : Valid B) {k₀ m₀ k m : Nat}
    (h₀ : Balanced F B k₀ m₀) (h : Balanced F B k m) (hm₀ : m₀ ≤ B.length) (hk : k₀ ≤ k) :
    m₀ ≤ m :=
  hB.le_of_span_take_subset hm₀ (h₀ ▸ h ▸ span_take_subset F hk)

section

variable {F B : List (Item α)} {k₀ m₀ k m : Nat} {s : UnitState α}

/-- The state of the unit opened at the balanced cut `(k₀, m₀)` once it has taken
the forward entries before `k` and the backward entries before `m`: the pending sets
are the two differences of the prefixes' spans, and no balanced cut beyond
`(k₀, m₀)` comes before `(k, m)`. -/
structure UnitInv (F B : List (Item α)) (k₀ m₀ k m : Nat) (s : UnitState α) : Prop where
  k_le : k ≤ F.length
  m_le : m ≤ B.length
  k₀_le : k₀ ≤ k
  m₀_le : m₀ ≤ m
  started : k₀ < k ∨ m₀ < m
  used_forwards : s.used_forwards = (F.drop k₀).take (k - k₀)
  used_backwards : s.used_backwards = (B.drop m₀).take (m - m₀)
  unmatched_fwd : s.unmatched_fwd_ops = span (F.take k) \ span (B.take m)
  unmatched_bwd : s.unmatched_bwd_ops = span (B.take m) \ span (F.take k)
  below : ∀ k' m', k' ≤ F.length → m' ≤ B.length → Balanced F B k' m' →
    k₀ < k' ∨ m₀ < m' → k ≤ k' ∧ m ≤ m'

theorem UnitInv.swap (h : UnitInv F B k₀ m₀ k m s) : UnitInv B F m₀ k₀ m k s.swap :=
  ⟨h.m_le, h.k_le, h.m₀_le, h.k₀_le, h.started.symm, h.used_backwards, h.used_forwards,
    h.unmatched_bwd, h.unmatched_fwd,
    fun m' k' hm hk hbal hlt => (h.below k' m' hk hm hbal.symm hlt.symm).symm⟩

/-- A forward op still unmatched forces every later balanced cut past the backward
entries taken so far. -/
theorem UnitInv.m_lt (h : UnitInv F B k₀ m₀ k m s) (hne : s.unmatched_fwd_ops ≠ ∅)
    {k' m' : Nat} (hk' : k' ≤ F.length) (hm' : m' ≤ B.length) (hbal : Balanced F B k' m')
    (hlt : k₀ < k' ∨ m₀ < m') : m < m' := by
  obtain ⟨o, ho⟩ := Finset.nonempty_iff_ne_empty.mpr hne
  rw [h.unmatched_fwd, Finset.mem_sdiff] at ho
  by_contra hle
  have hsub : span (F.take k) ⊆ span (B.take m) := calc
    span (F.take k) ⊆ span (F.take k') := span_take_subset F (h.below k' m' hk' hm' hbal hlt).1
    _ = span (B.take m') := hbal
    _ ⊆ span (B.take m) := span_take_subset B (by omega)
  exact ho.2 (hsub ho.1)

theorem balanced_length (hspan : span F = span B) : Balanced F B F.length B.length := by
  simpa [Balanced] using hspan

theorem UnitInv.m_lt_length (hspan : span F = span B) (h : UnitInv F B k₀ m₀ k m s)
    (hne : s.unmatched_fwd_ops ≠ ∅) : m < B.length :=
  h.m_lt hne le_rfl le_rfl (balanced_length hspan)
    (h.started.imp (fun hk => by have := h.k_le; omega) (fun hm => by have := h.m_le; omega))

/-- Taking the next backward entry while a forward op is unmatched keeps the
invariant. -/
theorem UnitInv.take_bwd (hB : Valid B) (hspan : span F = span B) (h : UnitInv F B k₀ m₀ k m s)
    (hne : s.unmatched_fwd_ops ≠ ∅) {b : Item α} {rest : List (Item α)}
    (hdrop : B.drop m = b :: rest) : UnitInv F B k₀ m₀ k (m + 1) (s.take_bwd b) := by
  have hm := h.m_lt_length hspan hne
  have hb : b ∈ B.drop m := hdrop ▸ List.mem_cons_self b rest
  have hdisj : Disjoint (span (B.take m)) b.ops.toFinset :=
    Finset.disjoint_of_subset_right (by rw [hdrop, span_cons]; exact Finset.subset_union_left)
      (hB.disjoint_take_drop m)
  have htake : span (B.take (m + 1)) = span (B.take m) ∪ b.ops.toFinset := by
    rw [(take_succ_of_drop_eq_cons hdrop).1, span_append]; simp
  have habsorb := absorb_of_nodup s.unmatched_fwd_ops s.unmatched_bwd_ops
    (hB.ops_nodup (List.mem_of_mem_drop hb))
  refine ⟨h.k_le, hm, h.k₀_le, by have := h.m₀_le; omega, Or.inr (by have := h.m₀_le; omega),
    h.used_forwards, ?_, ?_, ?_, ?_⟩
  · have hd : (B.drop m₀).drop (m - m₀) = b :: rest := by
      rw [List.drop_drop, Nat.add_sub_cancel' h.m₀_le, hdrop]
    rw [UnitState.take_bwd_used_backwards, h.used_backwards, Nat.sub_add_comm h.m₀_le,
      (take_succ_of_drop_eq_cons hd).1]
  · rw [UnitState.take_bwd_unmatched_fwd_ops, habsorb, h.unmatched_fwd, htake]
    ext o
    simp only [Finset.mem_union, Finset.mem_sdiff, not_or, and_assoc]
  · rw [UnitState.take_bwd_unmatched_bwd_ops, habsorb, h.unmatched_fwd, h.unmatched_bwd, htake]
    ext o
    simp only [Finset.mem_union, Finset.mem_sdiff]
    -- an op taken before is in no later entry
    by_cases ho : o ∈ span (B.take m)
    · simp [ho, Finset.disjoint_left.mp hdisj ho]
    · simp [ho]
  · intro k' m' hk' hm' hbal hlt
    exact ⟨(h.below k' m' hk' hm' hbal hlt).1, h.m_lt hne hk' hm' hbal hlt⟩

/-- The loop `while unmatched_fwd_ops:` never pops an empty list and stops with the
invariant, no forward op unmatched. -/
theorem UnitInv.pop_bwds_spec (hB : Valid B) (hspan : span F = span B)
    (h : UnitInv F B k₀ m₀ k m s) : ∃ m' s', pop_bwds s (B.drop m) = some (s', B.drop m') ∧
      UnitInv F B k₀ m₀ k m' s' ∧ s'.unmatched_fwd_ops = ∅ := by
  obtain ⟨l, hl⟩ : ∃ l, B.drop m = l := ⟨_, rfl⟩
  induction l generalizing m s with
  | nil =>
    by_cases h0 : s.unmatched_fwd_ops = ∅
    · exact ⟨m, s, by rw [pop_bwds_of_empty h0], h, h0⟩
    · have := h.m_lt_length hspan h0
      simp at hl
      omega
  | cons b rest ih =>
    by_cases h0 : s.unmatched_fwd_ops = ∅
    · exact ⟨m, s, by rw [pop_bwds_of_empty h0], h, h0⟩
    · obtain ⟨m', s', hpop, h', hempty⟩ :=
        ih (h.take_bwd hB hspan h0 hl) (take_succ_of_drop_eq_cons hl).2
      exact ⟨m', s', by rw [hl, pop_bwds_cons h0, ← (take_succ_of_drop_eq_cons hl).2, hpop], h',
        hempty⟩

/-- The mirror loop `while unmatched_bwd_ops:`, read off `UnitInv.pop_bwds` through
the exchange of directions. -/
theorem UnitInv.pop_fwds_spec (hF : Valid F) (hspan : span F = span B)
    (h : UnitInv F B k₀ m₀ k m s) : ∃ k' s', pop_fwds s (F.drop k) = some (s', F.drop k') ∧
      UnitInv F B k₀ m₀ k' m s' ∧ s'.unmatched_bwd_ops = ∅ := by
  obtain ⟨k', s', hpop, h', hempty⟩ := h.swap.pop_bwds_spec hF hspan.symm
  exact ⟨k', s'.swap, by rw [pop_fwds_eq_swap, hpop]; rfl, h'.swap, hempty⟩

theorem UnitInv.balanced (h : UnitInv F B k₀ m₀ k m s) (hf : s.unmatched_fwd_ops = ∅)
    (hb : s.unmatched_bwd_ops = ∅) : Balanced F B k m := by
  rw [h.unmatched_fwd, Finset.sdiff_eq_empty_iff_subset] at hf
  rw [h.unmatched_bwd, Finset.sdiff_eq_empty_iff_subset] at hb
  exact subset_antisymm hf hb

/-- The middle loop closes the unit at a balanced cut with the invariant, so at the
first balanced cut beyond `(k₀, m₀)`. -/
theorem UnitInv.match_unit_spec (hF : Valid F) (hB : Valid B) (hspan : span F = span B)
    (h : UnitInv F B k₀ m₀ k m s) : ∃ k' m' s',
      match_unit s (F.drop k) (B.drop m) = some (s', F.drop k', B.drop m') ∧
      UnitInv F B k₀ m₀ k' m' s' ∧ Balanced F B k' m' := by
  suffices ∀ s fwds bwds k m, fwds = F.drop k → bwds = B.drop m → UnitInv F B k₀ m₀ k m s →
      ∃ k' m' s', match_unit s fwds bwds = some (s', F.drop k', B.drop m') ∧
        UnitInv F B k₀ m₀ k' m' s' ∧ Balanced F B k' m' from this s _ _ k m rfl rfl h
  intro s fwds bwds
  induction s, fwds, bwds using match_unit.induct with
  | case1 s fwds bwds h0 =>
    rintro k m rfl rfl h
    exact ⟨k, m, s, by rw [match_unit_eq, if_pos h0], h, h.balanced h0.1 h0.2⟩
  | case2 s fwds bwds h0 hb =>
    rintro k m rfl rfl h
    obtain ⟨m₁, s₁, hpop, -⟩ := h.pop_bwds_spec hB hspan
    simp [hpop] at hb
  | case3 s fwds bwds h0 s₁ bwds₁ hb hf =>
    rintro k m rfl rfl h
    obtain ⟨m₁, s₁', hpop, h₁, -⟩ := h.pop_bwds_spec hB hspan
    rw [hpop, Option.some.injEq, Prod.mk.injEq] at hb
    obtain ⟨rfl, rfl⟩ := hb
    obtain ⟨k₂, s₂, hpop₂, -⟩ := h₁.pop_fwds_spec hF hspan
    simp [hpop₂] at hf
  | case4 s fwds bwds h0 s₁ bwds₁ hb s₂ fwds₂ hf ih =>
    rintro k m rfl rfl h
    obtain ⟨m₁, s₁', hpop, h₁, -⟩ := h.pop_bwds_spec hB hspan
    rw [hpop, Option.some.injEq, Prod.mk.injEq] at hb
    obtain ⟨rfl, rfl⟩ := hb
    obtain ⟨k₂, s₂', hpop₂, h₂, -⟩ := h₁.pop_fwds_spec hF hspan
    rw [hpop₂, Option.some.injEq, Prod.mk.injEq] at hf
    obtain ⟨rfl, rfl⟩ := hf
    obtain ⟨k', m', s', hmatch, h', hbal⟩ := ih k₂ m₁ rfl rfl h₂
    refine ⟨k', m', s', ?_, h', hbal⟩
    rw [match_unit_eq, if_neg h0, hpop]
    simpa [hpop₂] using hmatch

/-- Opening a unit with `fwds.pop(0)` at a balanced cut establishes the invariant. -/
theorem UnitInv.init (hF : Valid F) (hB : Valid B) (hbal : Balanced F B k₀ m₀)
    (hm₀ : m₀ ≤ B.length) {f : Item α} {rest : List (Item α)} (hdrop : F.drop k₀ = f :: rest) :
    UnitInv F B k₀ m₀ (k₀ + 1) m₀ (UnitState.init f) := by
  have hk := lt_length_of_drop_eq_cons hdrop
  have hdisj : Disjoint (span (F.take k₀)) f.ops.toFinset :=
    Finset.disjoint_of_subset_right (by rw [hdrop, span_cons]; exact Finset.subset_union_left)
      (hF.disjoint_take_drop k₀)
  have htake : span (F.take (k₀ + 1)) = span (F.take k₀) ∪ f.ops.toFinset := by
    rw [(take_succ_of_drop_eq_cons hdrop).1, span_append]; simp
  refine ⟨hk, hm₀, by omega, le_rfl, Or.inl (by omega), by simp [hdrop], by simp, ?_, ?_, ?_⟩
  · rw [UnitState.init_unmatched_fwd_ops, htake, ← hbal, Finset.union_sdiff_cancel_left hdisj]
  · rw [UnitState.init_unmatched_bwd_ops, htake, ← hbal,
      Finset.sdiff_eq_empty_iff_subset.mpr Finset.subset_union_left]
  · intro k' m' hk' hm' hbal' hlt
    rcases hlt with hlt | hlt
    · exact ⟨hlt, hbal.le_of_le hB hbal' hm₀ hlt.le⟩
    · refine ⟨Nat.lt_of_not_le fun hle => ?_, hlt.le⟩
      have := hbal'.le_of_le hB hbal hm' hle
      omega

/-- A closed unit consumed at least one forward entry. -/
theorem UnitInv.k₀_lt (hB : Valid B) (h : UnitInv F B k₀ m₀ k m s) (hbal₀ : Balanced F B k₀ m₀)
    (hbal : Balanced F B k m) : k₀ < k := by
  refine h.started.elim id fun hm => Nat.lt_of_not_le fun hk => ?_
  have := hbal.le_of_le hB hbal₀ h.m_le (by have := h.k₀_le; omega)
  omega

/-- Between two balanced cuts both sides span the same ops. -/
theorem span_between_eq (hF : Valid F) (hB : Valid B) {k m : Nat} (hbal₀ : Balanced F B k₀ m₀)
    (hbal : Balanced F B k m) (hk : k₀ ≤ k) (hm : m₀ ≤ m) :
    span ((F.drop k₀).take (k - k₀)) = span ((B.drop m₀).take (m - m₀)) := calc
  _ = (span (F.take k₀) ∪ span ((F.drop k₀).take (k - k₀))) \ span (F.take k₀) :=
    (Finset.union_sdiff_cancel_left (hF.disjoint_take_drop_take k₀ _)).symm
  _ = span (F.take k) \ span (F.take k₀) := by rw [← span_take_add, Nat.add_sub_cancel' hk]
  _ = span (B.take m) \ span (B.take m₀) := by rw [hbal, hbal₀]
  _ = (span (B.take m₀) ∪ span ((B.drop m₀).take (m - m₀))) \ span (B.take m₀) := by
    rw [← span_take_add, Nat.add_sub_cancel' hm]
  _ = span ((B.drop m₀).take (m - m₀)) :=
    Finset.union_sdiff_cancel_left (hB.disjoint_take_drop_take m₀ _)

theorem UnitInv.length_used_forwards (h : UnitInv F B k₀ m₀ k m s) :
    s.used_forwards.length = k - k₀ := by
  rw [h.used_forwards, List.length_take, List.length_drop]
  have := h.k_le
  omega

theorem UnitInv.length_used_backwards (h : UnitInv F B k₀ m₀ k m s) :
    s.used_backwards.length = m - m₀ :=
  h.swap.length_used_forwards

/-- A closed unit has no proper balanced prefix: it is the finest split possible. -/
theorem UnitInv.finest (h : UnitInv F B k₀ m₀ k₁ m₁ s) (hbal₀ : Balanced F B k₀ m₀) {k m : Nat}
    (hk0 : 0 < k) (hk : k < s.used_forwards.length) :
    span (s.used_forwards.take k) ≠ span (s.used_backwards.take m) := by
  intro heq
  have hlen := h.length_used_forwards
  rw [h.used_forwards, h.used_backwards, List.take_take, List.take_take,
    Nat.min_eq_left (by omega)] at heq
  have hm'' : min m (m₁ - m₀) ≤ m₁ - m₀ := Nat.min_le_right _ _
  have hbal : Balanced F B (k₀ + k) (m₀ + min m (m₁ - m₀)) := by
    rw [Balanced, span_take_add, span_take_add, heq, hbal₀]
  have := h.below _ _ (by have := h.k_le; omega) (by have := h.m_le; have := h.m₀_le; omega) hbal
    (Or.inl (by omega))
  omega

theorem drop_take_append_drop {β : Type} (l : List β) {k₀ k : Nat} (h : k₀ ≤ k) :
    (l.drop k₀).take (k - k₀) ++ l.drop k = l.drop k₀ := by
  conv_rhs => rw [← List.take_append_drop (k - k₀) (l.drop k₀)]
  rw [List.drop_drop, Nat.add_sub_cancel' h]

/-- What `split_into_self_contained` returns for the entries left after the
balanced cut `(k₀, m₀)`: the units cover those entries in order, their boundaries
are exactly the balanced cuts after `(k₀, m₀)`, and so every unit is self-contained,
disjoint from the others and cannot be split further. -/
structure FinestSplit (F B : List (Item α)) (k₀ m₀ : Nat) (units : List (SelfContainedOp α)) :
    Prop where
  fwds_flatten : (units.map SelfContainedOp.fwds).flatten = F.drop k₀
  bwds_flatten : (units.map SelfContainedOp.bwds).flatten = B.drop m₀
  mem_cuts : ∀ k m, (k, m) ∈ cuts k₀ m₀ units ↔
    k₀ < k ∧ k ≤ F.length ∧ m ≤ B.length ∧ Balanced F B k m
  self_contained : ∀ u ∈ units, span u.fwds = span u.bwds
  disjoint : units.Pairwise fun u v => Disjoint (span u.fwds) (span v.fwds)
  finest : ∀ u ∈ units, ∀ k m, 0 < k → k < u.fwds.length →
    span (u.fwds.take k) ≠ span (u.bwds.take m)

theorem finestSplit_nil (hB : Valid B) (hspan : span F = span B)
    (hbal : Balanced F B k₀ m₀) (hm₀ : m₀ ≤ B.length) (hdrop : F.drop k₀ = []) :
    B.drop m₀ = [] ∧ FinestSplit F B k₀ m₀ [] := by
  have hk₀ : F.length ≤ k₀ := List.drop_eq_nil_iff.mp hdrop
  have hm : m₀ = B.length := hB.eq_of_span_take_eq hm₀ le_rfl
    (by rw [← hbal, List.take_of_length_le hk₀, List.take_length, hspan])
  refine ⟨by simp [hm], by simp [hdrop], by simp [hm], fun k m => ?_, by simp, by simp, by simp⟩
  simp only [cuts, List.not_mem_nil, false_iff]
  omega

/-- A closed unit followed by the finest split of the rest is the finest split. -/
theorem FinestSplit.cons (hF : Valid F) (hB : Valid B) (hbal : Balanced F B k₀ m₀)
    {k₁ m₁ : Nat} (h : UnitInv F B k₀ m₀ k₁ m₁ s) (hbal₁ : Balanced F B k₁ m₁)
    {us : List (SelfContainedOp α)} (hus : FinestSplit F B k₁ m₁ us) :
    FinestSplit F B k₀ m₀ (⟨s.used_forwards, s.used_backwards⟩ :: us) := by
  have hlt := h.k₀_lt hB hbal hbal₁
  refine ⟨?_, ?_, fun k m => ?_, fun u hu => ?_, List.pairwise_cons.mpr ⟨fun v hv => ?_, hus.disjoint⟩,
    fun u hu => ?_⟩
  · simp [hus.fwds_flatten, h.used_forwards, drop_take_append_drop F h.k₀_le]
  · simp [hus.bwds_flatten, h.used_backwards, drop_take_append_drop B h.m₀_le]
  · simp only [cuts, h.length_used_forwards, h.length_used_backwards, Nat.add_sub_cancel' h.k₀_le,
      Nat.add_sub_cancel' h.m₀_le, List.mem_cons, Prod.mk.injEq, hus.mem_cuts]
    constructor
    · rintro (⟨rfl, rfl⟩ | ⟨hk₁, hk, hm, hb⟩)
      · exact ⟨hlt, h.k_le, h.m_le, hbal₁⟩
      · exact ⟨by omega, hk, hm, hb⟩
    · rintro ⟨hk₀, hk, hm, hb⟩
      obtain ⟨hk₁, -⟩ := h.below k m hk hm hb (Or.inl hk₀)
      rcases hk₁.lt_or_eq with hk₁ | rfl
      · exact Or.inr ⟨hk₁, hk, hm, hb⟩
      · exact Or.inl ⟨rfl, hB.eq_of_span_take_eq hm h.m_le (hb.symm.trans hbal₁)⟩
  · rcases List.mem_cons.mp hu with rfl | hu
    · rw [h.used_forwards, h.used_backwards]
      exact span_between_eq hF hB hbal hbal₁ h.k₀_le h.m₀_le
    · exact hus.self_contained u hu
  · have hu : span s.used_forwards ⊆ span (F.take k₁) := by
      rw [h.used_forwards, ← Nat.add_sub_cancel' h.k₀_le, span_take_add, Nat.add_sub_cancel' h.k₀_le]
      exact Finset.subset_union_right
    have hv : span v.fwds ⊆ span (F.drop k₁) := by
      rw [← hus.fwds_flatten]
      exact span_mono fun x hx => List.mem_flatten.mpr ⟨v.fwds, List.mem_map_of_mem _ hv, hx⟩
    exact Finset.disjoint_of_subset_left hu
      (Finset.disjoint_of_subset_right hv (hF.disjoint_take_drop k₁))
  · rcases List.mem_cons.mp hu with rfl | hu
    · exact fun k m hk0 hk => h.finest hbal hk0 hk
    · exact hus.finest u hu

/-- The outer loop, from any balanced cut: every unit it closes is the next balanced
cut, so the whole run is the finest split of what is left. -/
theorem finestSplit_from (hF : Valid F) (hB : Valid B) (hspan : span F = span B)
    (hbal : Balanced F B k₀ m₀) (hk₀ : k₀ ≤ F.length) (hm₀ : m₀ ≤ B.length) :
    ∃ units, split_into_self_contained (F.drop k₀) (B.drop m₀) = some units ∧
      FinestSplit F B k₀ m₀ units := by
  obtain ⟨n, hn⟩ : ∃ n, F.length - k₀ = n := ⟨_, rfl⟩
  induction n using Nat.strong_induction_on generalizing k₀ m₀ with
  | _ n ih =>
  cases hdrop : F.drop k₀ with
  | nil =>
    obtain ⟨hbdrop, hsplit⟩ := finestSplit_nil hB hspan hbal hm₀ hdrop
    exact ⟨[], by simp [hbdrop], hsplit⟩
  | cons f rest =>
    have hinit := UnitInv.init hF hB hbal hm₀ hdrop
    obtain ⟨k₁, m₁, s, hmatch, h, hbal₁⟩ := hinit.match_unit_spec hF hB hspan
    have hlt := h.k₀_lt hB hbal hbal₁
    obtain ⟨us, hsplit, hus⟩ := ih (F.length - k₁) (by have := h.k_le; omega) hbal₁ h.k_le
      h.m_le rfl
    refine ⟨⟨s.used_forwards, s.used_backwards⟩ :: us, ?_, ?_⟩
    · rw [split_into_self_contained_cons, ← (take_succ_of_drop_eq_cons hdrop).2, hmatch]
      simp [hsplit]
    · exact FinestSplit.cons hF hB hbal h hbal₁ hus

end

/-- `split_into_self_contained(fwds, bwds)` on lists in which every entry stands for
at least one elementary op, no elementary op occurs twice on one side, and both
sides span the same ops: it returns without popping an empty list, the units cover
`fwds` and `bwds` in order, and the cumulative unit boundaries are exactly the
balanced cuts `(k, m)` with `k ≥ 1` (counts of entries, so `k ≤ len(fwds)` and
`m ≤ len(bwds)`). Hence the units are self-contained, pairwise disjoint and finest. -/
theorem split_into_self_contained_spec {F B : List (Item α)} (hF : Valid F) (hB : Valid B)
    (hspan : span F = span B) :
    ∃ units, split_into_self_contained F B = some units ∧ FinestSplit F B 0 0 units := by
  simpa using finestSplit_from hF hB hspan (show Balanced F B 0 0 by simp [Balanced])
    (Nat.zero_le _) (Nat.zero_le _)

theorem split_into_self_contained_spec_regrouped :
    Valid [Item.fused [0, 1], .op 2] ∧ Valid [Item.op 0, .fused [1, 2]] ∧
      span [Item.fused [0, 1], .op 2] = span [Item.op 0, .fused [1, 2]] ∧
      ∃ units, split_into_self_contained [Item.fused [0, 1], .op 2] [Item.op 0, .fused [1, 2]] =
        some units ∧ FinestSplit [Item.fused [0, 1], .op 2] [Item.op 0, .fused [1, 2]] 0 0 units :=
  ⟨by decide, by decide, by decide,
    split_into_self_contained_spec (by decide) (by decide) (by decide)⟩

end transformer_engine.sequential
