import Mathlib.Data.List.Infix
import Mathlib.Tactic.IntervalCases
import Mathlib.Data.Nat.Digits

namespace transformer_engine.sequential

/-- `f"{i}({op.__class__.__name__})"`, the name `name_ops` gives the op at index `i`
(a Python `str` is modelled by its list of characters). -/
def op_name (i : Nat) (cls : List Char) : List Char := Nat.toDigits 10 i ++ '(' :: (cls ++ [')'])

/-- The value of a decimal digit character. -/
def digitValue (c : Char) : Nat := c.toNat - 48

theorem digitValue_digitChar {d : Nat} (h : d < 10) : digitValue (Nat.digitChar d) = d := by
  interval_cases d <;> rfl

theorem digitChar_ne_paren {d : Nat} (h : d < 10) : Nat.digitChar d ≠ '(' := by
  interval_cases d <;> decide

/-- Reading the digits back, most significant first. -/
def readDecimal (ds : List Char) (acc : Nat) : Nat := ds.foldl (fun a c => 10 * a + digitValue c) acc

theorem readDecimal_toDigitsCore {fuel n : Nat} (ds : List Char) (h : n < fuel) :
    readDecimal (Nat.toDigitsCore 10 fuel n ds) 0 = readDecimal ds n := by
  induction fuel generalizing n ds with
  | zero => omega
  | succ fuel ih =>
    rw [Nat.toDigitsCore]
    split
    · simp only [readDecimal, List.foldl_cons, digitValue_digitChar (Nat.mod_lt n (by omega))]
      congr 1
      omega
    · rw [ih _ (by omega)]
      simp only [readDecimal, List.foldl_cons, digitValue_digitChar (Nat.mod_lt n (by omega))]
      congr 1
      omega

theorem toDigits_injective : Function.Injective (Nat.toDigits 10) := by
  intro i j h
  have hi := readDecimal_toDigitsCore [] (Nat.lt_succ_self i)
  have hj := readDecimal_toDigitsCore [] (Nat.lt_succ_self j)
  simp only [Nat.toDigits] at h
  rw [h, hj] at hi
  exact hi.symm

theorem paren_not_mem_toDigitsCore {fuel n : Nat} {ds : List Char} (hds : '(' ∉ ds) :
    '(' ∉ Nat.toDigitsCore 10 fuel n ds := by
  induction fuel generalizing n ds with
  | zero => exact hds
  | succ fuel ih =>
    have hd := digitChar_ne_paren (Nat.mod_lt n (show 10 > 0 by omega))
    rw [Nat.toDigitsCore]
    split
    · simp [hds, hd.symm]
    · exact ih (by simp [hds, hd.symm])

theorem paren_not_mem_toDigits (n : Nat) : '(' ∉ Nat.toDigits 10 n :=
  paren_not_mem_toDigitsCore (List.not_mem_nil _)

/-- Two words followed by `(` agree up to it when one extended word is a prefix of
the other and neither word contains `(`. -/
theorem append_paren_prefix_eq {a b r₁ r₂ : List Char} (ha : '(' ∉ a) (hb : '(' ∉ b)
    (h : a ++ '(' :: r₁ <+: b ++ '(' :: r₂) : a = b := by
  induction a generalizing b with
  | nil =>
    cases b with
    | nil => rfl
    | cons y b =>
      obtain ⟨t, ht⟩ := h
      simp only [List.nil_append, List.cons_append, List.cons.injEq] at ht
      exact absurd (ht.1 ▸ List.mem_cons_self y b) hb
  | cons x a ih =>
    cases b with
    | nil =>
      obtain ⟨t, ht⟩ := h
      simp only [List.nil_append, List.cons_append, List.cons.injEq] at ht
      exact absurd (ht.1 ▸ List.mem_cons_self x a) ha
    | cons y b =>
      obtain ⟨t, ht⟩ := h
      simp only [List.cons_append, List.cons.injEq] at ht
      rw [List.mem_cons, not_or] at ha hb
      rw [ht.1, ih ha.2 hb.2 ⟨t, ht.2⟩]

/-- The names `name_ops` gives are prefix-free: the name of the op at index `i` is
a prefix of the name of the op at index `j` followed by any key only when `i = j`,
for any class names and any number of ops (`1(` is no prefix of `12(`). -/
theorem op_name_prefix_inj {i j : Nat} {cls cls' k : List Char}
    (h : op_name i cls <+: op_name j cls' ++ k) : i = j := by
  simp only [op_name, List.append_assoc, List.cons_append] at h
  exact toDigits_injective
    (append_paren_prefix_eq (paren_not_mem_toDigits i) (paren_not_mem_toDigits j) h)

/-- The op names are prefix-free: one op's name starts another op's namespaced key
only when the two ops are the same. -/
def PrefixFree {α : Type} (name : α → List Char) : Prop :=
  ∀ o m k, name m <+: name o ++ k → m = o

theorem prefixFree_op_name {α : Type} {idx : α → Nat} (hidx : Function.Injective idx)
    (cls : α → List Char) : PrefixFree fun o => op_name (idx o) (cls o) :=
  fun _ _ _ h => hidx (op_name_prefix_inj h)

/-- A `Context`: a dict from `str` keys to tensors, read as a partial map. -/
def Context (V : Type) : Type := List Char → Option V

namespace Context

variable {V : Type}

def empty : Context V := fun _ => none

/-- `full |= ctx`: the entries of `ctx` win. -/
def merge (full ctx : Context V) : Context V := fun k => (ctx k).orElse fun _ => full k

/-- `{op_name + name: tensor for name, tensor in ctx.items()}`. -/
def namespaced (nm : List Char) (ctx : Context V) : Context V :=
  fun k => if nm.isPrefixOf k then ctx (k.drop nm.length) else none

/-- `{name[len(op_name):]: tensor for name, tensor in ctx.items() if name.startswith(op_name)}`. -/
def strip (nm : List Char) (ctx : Context V) : Context V := fun k => ctx (nm ++ k)

@[simp] theorem merge_empty (c : Context V) : c.merge empty = c := rfl

@[simp] theorem empty_merge (c : Context V) : empty.merge c = c := by
  funext k
  simp only [merge, empty]
  cases c k <;> rfl

theorem merge_assoc (a b c : Context V) : (a.merge b).merge c = a.merge (b.merge c) := by
  funext k
  simp only [merge]
  cases c k <;> cases b k <;> rfl

@[simp] theorem strip_empty (nm : List Char) : (empty : Context V).strip nm = empty := rfl

@[simp] theorem strip_merge (nm : List Char) (a b : Context V) :
    (a.merge b).strip nm = (a.strip nm).merge (b.strip nm) := rfl

@[simp] theorem strip_namespaced_self (nm : List Char) (c : Context V) :
    (c.namespaced nm).strip nm = c := by
  funext k
  simp [strip, namespaced, List.isPrefixOf_iff_prefix]

theorem strip_namespaced_eq_empty {nm nm' : List Char} (h : ∀ k, ¬ nm' <+: nm ++ k)
    (c : Context V) : (c.namespaced nm').strip nm = empty := by
  funext k
  simp [strip, namespaced, List.isPrefixOf_iff_prefix, h k, empty]

end Context

end transformer_engine.sequential
