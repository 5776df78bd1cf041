import Mathlib.Data.Finset.Basic
import Mathlib.Data.Finset.Lattice.Lemmas
import Mathlib.Data.List.Nodup

namespace transformer_engine.sequential

/-- An entry of a fused operation list. `get_fused_op_list` returns `Op`s, some of
which are `FusedOp`s; the partitioner only looks at which elementary ops an entry
stands for, so an entry is either a plain op or the member list of a `FusedOp`. -/
inductive Item (α : Type) where
  | op (o : α)
  | fused (ops : List α)
  deriving DecidableEq, Repr

namespace Item

variable {α : Type}

/-- `fwd.ops if isinstance(fwd, FusedOp) else [fwd]`. -/
def ops : Item α → List α
  | op o => [o]
  | fused os => os

@[simp] theorem ops_op (o : α) : (op o).ops = [o] := rfl

@[simp] theorem ops_fused (os : List α) : (fused os).ops = os := rfl

end Item

theorem take_succ_of_drop_eq_cons {β : Type} {l rest : List β} {m : Nat} {b : β}
    (h : l.drop m = b :: rest) : l.take (m + 1) = l.take m ++ [b] ∧ l.drop (m + 1) = rest := by
  have hget : l[m]? = some b := by rw [← List.head?_drop, h]; rfl
  refine ⟨by simp [List.take_succ, hget], ?_⟩
  rw [← List.drop_drop, h]
  rfl

theorem lt_length_of_drop_eq_cons {β : Type} {l rest : List β} {m : Nat} {b : β}
    (h : l.drop m = b :: rest) : m < l.length := by
  have := congrArg List.length h
  simp only [List.length_drop, List.length_cons] at this
  omega

variable {α : Type}

/-- The elementary ops of a list of entries, in order. -/
def members (items : List (Item α)) : List α := items.flatMap Item.ops

@[simp] theorem members_nil : members ([] : List (Item α)) = [] := rfl

@[simp] theorem members_cons (i : Item α) (items : List (Item α)) :
    members (i :: items) = i.ops ++ members items := by
  simp [members]

@[simp] theorem members_append (l₁ l₂ : List (Item α)) :
    members (l₁ ++ l₂) = members l₁ ++ members l₂ := by
  simp [members]

variable [DecidableEq α]

/-- The set of elementary ops a list of entries spans. -/
def span (items : List (Item α)) : Finset α := (members items).toFinset

@[simp] theorem mem_span {o : α} {items : List (Item α)} :
    o ∈ span items ↔ o ∈ members items := List.mem_toFinset

@[simp] theorem span_nil : span ([] : List (Item α)) = ∅ := rfl

@[simp] theorem span_append (l₁ l₂ : List (Item α)) :
    span (l₁ ++ l₂) = span l₁ ∪ span l₂ := by
  simp [span, List.toFinset_append]

@[simp] theorem span_cons (i : Item α) (items : List (Item α)) :
    span (i :: items) = i.ops.toFinset ∪ span items := by
  simp [span, List.toFinset_append]

theorem span_mono {l l' : List (Item α)} (h : l ⊆ l') : span l ⊆ span l' := by
  intro o ho
  simp only [mem_span, members, List.mem_flatMap] at ho ⊢
  obtain ⟨i, hi, ho⟩ := ho
  exact ⟨i, h hi, ho⟩

theorem span_take_subset (items : List (Item α)) {k k' : Nat} (h : k ≤ k') :
    span (items.take k) ⊆ span (items.take k') :=
  span_mono (List.take_subset_take_left items h)

/-- The precondition the partitioner is designed for: every entry stands for at
least one elementary op and no elementary op occurs twice in the list. -/
structure Valid (items : List (Item α)) : Prop where
  nodup : (members items).Nodup
  ops_ne_nil : ∀ i ∈ items, i.ops ≠ []

instance (items : List (Item α)) : Decidable (Valid items) :=
  decidable_of_iff ((members items).Nodup ∧ ∀ i ∈ items, i.ops ≠ [])
    ⟨fun ⟨h₁, h₂⟩ => ⟨h₁, h₂⟩, fun ⟨h₁, h₂⟩ => ⟨h₁, h₂⟩⟩

theorem Valid.disjoint_take_drop {items : List (Item α)} (hv : Valid items) (k : Nat) :
    Disjoint (span (items.take k)) (span (items.drop k)) := by
  have h := hv.nodup
  rw [← List.take_append_drop k items, members_append] at h
  exact List.disjoint_toFinset_iff_disjoint.mpr (List.disjoint_of_nodup_append h)

/-- In a valid list a longer prefix spans strictly more: the span of a prefix
determines its length. -/
theorem Valid.le_of_span_take_subset {items : List (Item α)} (hv : Valid items) {k k' : Nat}
    (hk' : k' ≤ items.length) (h : span (items.take k') ⊆ span (items.take k)) : k' ≤ k := by
  by_contra hlt
  have hk : k < items.length := by omega
  obtain ⟨o, ho⟩ := List.exists_mem_of_ne_nil _ (hv.ops_ne_nil _ (List.getElem_mem hk))
  have hdrop : o ∈ span (items.drop k) := by
    rw [List.drop_eq_getElem_cons hk, span_cons]
    exact Finset.mem_union_left _ (List.mem_toFinset.mpr ho)
  have htake : o ∈ span (items.take k') := by
    rw [mem_span, members, List.mem_flatMap]
    exact ⟨_, List.mem_iff_getElem.mpr ⟨k, by simp; omega, by simp⟩, ho⟩
  exact Finset.disjoint_left.mp (hv.disjoint_take_drop k) (h htake) hdrop

theorem Valid.eq_of_span_take_eq {items : List (Item α)} (hv : Valid items) {k k' : Nat}
    (hk : k ≤ items.length) (hk' : k' ≤ items.length)
    (h : span (items.take k) = span (items.take k')) : k = k' :=
  le_antisymm (hv.le_of_span_take_subset hk h.le) (hv.le_of_span_take_subset hk' h.ge)

/-- The cut after `k` forward entries and `m` backward entries is balanced: both
prefixes span the same elementary ops. -/
def Balanced (fwds bwds : List (Item α)) (k m : Nat) : Prop :=
  span (fwds.take k) = span (bwds.take m)

instance (fwds bwds : List (Item α)) (k m : Nat) : Decidable (Balanced fwds bwds k m) :=
  inferInstanceAs (Decidable (_ = _))

theorem Balanced.symm {fwds bwds : List (Item α)} {k m : Nat} (h : Balanced fwds bwds k m) :
    Balanced bwds fwds m k :=
  Eq.symm h

end transformer_engine.sequential
