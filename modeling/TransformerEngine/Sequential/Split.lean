import TransformerEngine.Sequential.Item

namespace transformer_engine.sequential

variable {α : Type}

/-- A `SelfContainedOp`: the forward entries and the backward entries of one unit. -/
structure SelfContainedOp (α : Type) where
  fwds : List (Item α)
  bwds : List (Item α)
  deriving DecidableEq, Repr

/-- The locals of one iteration of the outer loop of `split_into_self_contained`. -/
structure UnitState (α : Type) where
  unmatched_fwd_ops : Finset α
  unmatched_bwd_ops : Finset α
  used_forwards : List (Item α)
  used_backwards : List (Item α)

namespace UnitState

/-- The same state seen from the other direction: the two inner loops of the
algorithm mirror each other under this exchange. -/
def swap (s : UnitState α) : UnitState α :=
  ⟨s.unmatched_bwd_ops, s.unmatched_fwd_ops, s.used_backwards, s.used_forwards⟩

@[simp] theorem swap_swap (s : UnitState α) : s.swap.swap = s := rfl

@[simp] theorem swap_unmatched_fwd_ops (s : UnitState α) :
    s.swap.unmatched_fwd_ops = s.unmatched_bwd_ops := rfl

@[simp] theorem swap_unmatched_bwd_ops (s : UnitState α) :
    s.swap.unmatched_bwd_ops = s.unmatched_fwd_ops := rfl

@[simp] theorem swap_used_forwards (s : UnitState α) : s.swap.used_forwards = s.used_backwards :=
  rfl

@[simp] theorem swap_used_backwards (s : UnitState α) : s.swap.used_backwards = s.used_forwards :=
  rfl

end UnitState

variable [DecidableEq α]

/-- The inner `for op in ops` loop of `split_into_self_contained`: an op still
waiting in `pending` is matched and removed from it, any other op is added to
`other`. -/
def absorb (pending other : Finset α) : List α → Finset α × Finset α
  | [] => (pending, other)
  | op :: ops =>
    if op ∈ pending then absorb (pending.erase op) other ops
    else absorb pending (insert op other) ops

@[simp] theorem absorb_nil (pending other : Finset α) : absorb pending other [] = (pending, other) :=
  rfl

namespace UnitState

/-- The state right after `fwd = fwds.pop(0)` opened a unit. -/
def init (fwd : Item α) : UnitState α := ⟨fwd.ops.toFinset, ∅, [fwd], []⟩

/-- One iteration of `while unmatched_fwd_ops:` after `bwd = bwds.pop(0)`. -/
def take_bwd (s : UnitState α) (bwd : Item α) : UnitState α :=
  let r := absorb s.unmatched_fwd_ops s.unmatched_bwd_ops bwd.ops
  { s with unmatched_fwd_ops := r.1, unmatched_bwd_ops := r.2,
           used_backwards := s.used_backwards ++ [bwd] }

/-- One iteration of `while unmatched_bwd_ops:` after `fwd = fwds.pop(0)`. -/
def take_fwd (s : UnitState α) (fwd : Item α) : UnitState α :=
  let r := absorb s.unmatched_bwd_ops s.unmatched_fwd_ops fwd.ops
  { s with unmatched_bwd_ops := r.1, unmatched_fwd_ops := r.2,
           used_forwards := s.used_forwards ++ [fwd] }

@[simp] theorem take_bwd_unmatched_fwd_ops (s : UnitState α) (bwd : Item α) :
    (s.take_bwd bwd).unmatched_fwd_ops = (absorb s.unmatched_fwd_ops s.unmatched_bwd_ops bwd.ops).1 :=
  rfl

@[simp] theorem take_bwd_unmatched_bwd_ops (s : UnitState α) (bwd : Item α) :
    (s.take_bwd bwd).unmatched_bwd_ops = (absorb s.unmatched_fwd_ops s.unmatched_bwd_ops bwd.ops).2 :=
  rfl

@[simp] theorem take_bwd_used_forwards (s : UnitState α) (bwd : Item α) :
    (s.take_bwd bwd).used_forwards = s.used_forwards := rfl

@[simp] theorem take_bwd_used_backwards (s : UnitState α) (bwd : Item α) :
    (s.take_bwd bwd).used_backwards = s.used_backwards ++ [bwd] := rfl

@[simp] theorem init_unmatched_fwd_ops (fwd : Item α) :
    (init fwd).unmatched_fwd_ops = fwd.ops.toFinset := rfl

@[simp] theorem init_unmatched_bwd_ops (fwd : Item α) : (init fwd).unmatched_bwd_ops = ∅ := rfl

@[simp] theorem init_used_forwards (fwd : Item α) : (init fwd).used_forwards = [fwd] := rfl

@[simp] theorem init_used_backwards (fwd : Item α) : (init fwd).used_backwards = [] := rfl

end UnitState

/-- `while unmatched_fwd_ops: bwd = bwds.pop(0); ...`, returning the state and the
backward entries left. `none` is the `IndexError` of popping an empty list. -/
def pop_bwds : UnitState α → List (Item α) → Option (UnitState α × List (Item α))
  | s, bwds =>
    if s.unmatched_fwd_ops = ∅ then some (s, bwds)
    else match bwds with
      | [] => none
      | bwd :: bwds => pop_bwds (s.take_bwd bwd) bwds

/-- `while unmatched_bwd_ops: fwd = fwds.pop(0); ...`. -/
def pop_fwds : UnitState α → List (Item α) → Option (UnitState α × List (Item α))
  | s, fwds =>
    if s.unmatched_bwd_ops = ∅ then some (s, fwds)
    else match fwds with
      | [] => none
      | fwd :: fwds => pop_fwds (s.take_fwd fwd) fwds

theorem pop_bwds_of_empty {s : UnitState α} (h : s.unmatched_fwd_ops = ∅) (l : List (Item α)) :
    pop_bwds s l = some (s, l) := by
  cases l <;> simp [pop_bwds, h]

theorem pop_bwds_cons {s : UnitState α} (h : s.unmatched_fwd_ops ≠ ∅) (b : Item α)
    (l : List (Item α)) : pop_bwds s (b :: l) = pop_bwds (s.take_bwd b) l := by
  simp [pop_bwds, h]

theorem pop_bwds_nil {s : UnitState α} (h : s.unmatched_fwd_ops ≠ ∅) : pop_bwds s [] = none := by
  simp [pop_bwds, h]

/-- The backward loop is the forward loop with the directions exchanged. -/
theorem pop_fwds_eq_swap (s : UnitState α) (l : List (Item α)) :
    pop_fwds s l = (pop_bwds s.swap l).map (fun r => (r.1.swap, r.2)) := by
  induction l generalizing s with
  | nil => by_cases h : s.unmatched_bwd_ops = ∅ <;> simp [pop_fwds, pop_bwds, h]
  | cons f l ih =>
    by_cases h : s.unmatched_bwd_ops = ∅
    · simp [pop_fwds, pop_bwds, h]
    · rw [pop_fwds, if_neg h, pop_bwds_cons (by simpa using h), ih]
      rfl

theorem pop_bwds_length_le {s : UnitState α} {l : List (Item α)} {r : UnitState α × List (Item α)}
    (h : pop_bwds s l = some r) : r.2.length ≤ l.length := by
  induction l generalizing s with
  | nil =>
    by_cases h0 : s.unmatched_fwd_ops = ∅
    · rw [pop_bwds_of_empty h0] at h
      cases h
      exact le_refl _
    · rw [pop_bwds_nil h0] at h
      cases h
  | cons b l ih =>
    by_cases h0 : s.unmatched_fwd_ops = ∅
    · rw [pop_bwds_of_empty h0] at h
      cases h
      exact le_refl _
    · rw [pop_bwds_cons h0] at h
      exact (ih h).trans (Nat.le_succ _)

theorem pop_bwds_length_lt {s : UnitState α} {l : List (Item α)} {r : UnitState α × List (Item α)}
    (h0 : s.unmatched_fwd_ops ≠ ∅) (h : pop_bwds s l = some r) : r.2.length < l.length := by
  cases l with
  | nil => rw [pop_bwds_nil h0] at h; cases h
  | cons b l =>
    rw [pop_bwds_cons h0] at h
    exact Nat.lt_succ_of_le (pop_bwds_length_le h)

theorem pop_fwds_length_le {s : UnitState α} {l : List (Item α)} {r : UnitState α × List (Item α)}
    (h : pop_fwds s l = some r) : r.2.length ≤ l.length := by
  rw [pop_fwds_eq_swap, Option.map_eq_some'] at h
  obtain ⟨r', h', rfl⟩ := h
  exact pop_bwds_length_le (r := r') h'

theorem pop_fwds_length_lt {s : UnitState α} {l : List (Item α)} {r : UnitState α × List (Item α)}
    (h0 : s.unmatched_bwd_ops ≠ ∅) (h : pop_fwds s l = some r) : r.2.length < l.length := by
  rw [pop_fwds_eq_swap, Option.map_eq_some'] at h
  obtain ⟨r', h', rfl⟩ := h
  exact pop_bwds_length_lt (r := r') h0 h'

/-- `while unmatched_fwd_ops or unmatched_bwd_ops:` around the two inner loops:
runs until both pending sets are empty and returns the closed unit's state with the
forward and backward entries left. -/
def match_unit (s : UnitState α) (fwds bwds : List (Item α)) :
    Option (UnitState α × List (Item α) × List (Item α)) :=
  if s.unmatched_fwd_ops = ∅ ∧ s.unmatched_bwd_ops = ∅ then some (s, fwds, bwds)
  else
    match _hb : pop_bwds s bwds with
    | none => none
    | some (s₁, bwds₁) =>
      match _hf : pop_fwds s₁ fwds with
      | none => none
      | some (s₂, fwds₂) => match_unit s₂ fwds₂ bwds₁
termination_by fwds.length + bwds.length
decreasing_by
  have hb₁ := pop_bwds_length_le _hb
  have hf₁ := pop_fwds_length_le _hf
  by_cases h0 : s.unmatched_fwd_ops = ∅
  · rw [pop_bwds_of_empty h0] at _hb
    cases _hb
    have := pop_fwds_length_lt (fun h1 => ‹¬(s.unmatched_fwd_ops = ∅ ∧ s.unmatched_bwd_ops = ∅)›
      ⟨h0, h1⟩) _hf
    simp only at hb₁ this ⊢
    omega
  · have := pop_bwds_length_lt h0 _hb
    simp only at hf₁ this ⊢
    omega

theorem match_unit_eq (s : UnitState α) (fwds bwds : List (Item α)) :
    match_unit s fwds bwds =
      if s.unmatched_fwd_ops = ∅ ∧ s.unmatched_bwd_ops = ∅ then some (s, fwds, bwds)
      else (pop_bwds s bwds).bind fun r₁ =>
        (pop_fwds r₁.1 fwds).bind fun r₂ => match_unit r₂.1 r₂.2 r₁.2 := by
  rw [match_unit]
  split
  · rfl
  · split <;> rename_i hb
    · simp [hb]
    · split <;> rename_i hf <;> simp [hb, hf]

theorem match_unit_length_le {s : UnitState α} {fwds bwds : List (Item α)}
    {r : UnitState α × List (Item α) × List (Item α)} (h : match_unit s fwds bwds = some r) :
    r.2.1.length ≤ fwds.length ∧ r.2.2.length ≤ bwds.length := by
  induction s, fwds, bwds using match_unit.induct with
  | case1 s fwds bwds h0 =>
    rw [match_unit_eq, if_pos h0] at h
    cases h
    exact ⟨le_refl _, le_refl _⟩
  | case2 s fwds bwds h0 hb =>
    rw [match_unit_eq] at h
    simp [h0, hb] at h
  | case3 s fwds bwds h0 s₁ bwds₁ hb hf =>
    rw [match_unit_eq] at h
    simp [h0, hb, hf] at h
  | case4 s fwds bwds h0 s₁ bwds₁ hb s₂ fwds₂ hf ih =>
    rw [match_unit_eq] at h
    simp only [h0, if_false, hb, hf, Option.some_bind] at h
    have h₁ := pop_bwds_length_le hb
    have h₂ := pop_fwds_length_le hf
    have := ih h
    simp only at h₁ h₂ this
    omega

/-- `split_into_self_contained(fwds, bwds)`: the outer `while fwds or bwds:` loop,
each iteration opening a unit with `fwds.pop(0)` and closing it with `match_unit`.
`none` is the `IndexError` raised by a pop from an empty list. -/
def split_into_self_contained (fwds bwds : List (Item α)) : Option (List (SelfContainedOp α)) :=
  if fwds = [] ∧ bwds = [] then some []
  else
    match fwds with
    | [] => none
    | fwd :: fwds =>
      match _h : match_unit (UnitState.init fwd) fwds bwds with
      | none => none
      | some (s, fwds', bwds') =>
        (split_into_self_contained fwds' bwds').map
          (⟨s.used_forwards, s.used_backwards⟩ :: ·)
termination_by fwds.length + bwds.length
decreasing_by
  have := match_unit_length_le _h
  simp only [List.length_cons] at this ⊢
  omega

@[simp] theorem split_into_self_contained_nil_nil :
    split_into_self_contained ([] : List (Item α)) [] = some [] := by
  rw [split_into_self_contained, if_pos ⟨rfl, rfl⟩]

theorem split_into_self_contained_nil_cons (b : Item α) (bwds : List (Item α)) :
    split_into_self_contained [] (b :: bwds) = none := by
  rw [split_into_self_contained, if_neg (by simp)]

theorem split_into_self_contained_cons (fwd : Item α) (fwds bwds : List (Item α)) :
    split_into_self_contained (fwd :: fwds) bwds =
      (match_unit (UnitState.init fwd) fwds bwds).bind fun r =>
        (split_into_self_contained r.2.1 r.2.2).map
          (⟨r.1.used_forwards, r.1.used_backwards⟩ :: ·) := by
  rw [split_into_self_contained, if_neg (by simp)]
  split <;> rename_i h <;> simp [h]

end transformer_engine.sequential
