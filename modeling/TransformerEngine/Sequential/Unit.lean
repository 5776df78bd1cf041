import TransformerEngine.Sequential.Split
import TransformerEngine.Sequential.Context

namespace transformer_engine.sequential

open Context

/-- The numeric backend an entry of a fused list calls: `op.forward(x)` of an
elementary op, `FusedOp.forward(x)` (the `fusions` module is not under src/), an
entry's `op.backward(ctx, dy)`, `op.args()` and `op.inference(x)`. -/
structure Backend (α X V : Type) where
  forward : α → X → X × Context V
  /-- Modelled from the spec: a `FusedOp` returns its members' contexts, each
  namespaced by the member's name. This field gives each member's own context. -/
  fused_forward : List α → X → X × (α → Context V)
  backward : Item α → Context V → X → X × List V
  args : Item α → List V
  inference : Item α → X → X

variable {α X V : Type}

/-- The context a `FusedOp` returns: its members' contexts, namespaced and merged in
member order. -/
def fused_context (name : α → List Char) (c : α → Context V) : List α → Context V
  | [] => empty
  | m :: ms => ((c m).namespaced (name m)).merge (fused_context name c ms)

/-- `x, ctx = op.forward(x)` for an entry of `fwds`. -/
def Item.forward (be : Backend α X V) (name : α → List Char) : Item α → X → X × Context V
  | .op o, x => be.forward o x
  | .fused os, x =>
    let r := be.fused_forward os x
    (r.1, fused_context name r.2 os)

/-- The context an entry's forward adds to `full_ctx`: a plain op's is namespaced by
its name, a `FusedOp`'s is taken as it is. -/
def Item.named_ctx (name : α → List Char) (ctx : Context V) : Item α → Context V
  | .op o => ctx.namespaced (name o)
  | .fused _ => ctx

/-- The loop of `SelfContainedOp.forward`: `x, ctx = op.forward(x)`, namespace the
context of a plain op, `full_ctx |= ctx`. -/
def forward_loop (be : Backend α X V) (name : α → List Char) :
    List (Item α) → X → Context V → X × Context V
  | [], x, full => (x, full)
  | op :: ops, x, full =>
    let r := op.forward be name x
    forward_loop be name ops r.1 (full.merge (op.named_ctx name r.2))

/-- `SelfContainedOp.forward(x)`: the unit's output and its full context. -/
def SelfContainedOp.forward (be : Backend α X V) (name : α → List Char) (u : SelfContainedOp α)
    (x : X) : X × Context V :=
  forward_loop be name u.fwds x empty

/-- The context `SelfContainedOp.backward` hands an entry of `bwds`: the whole
context for a `FusedOp`, the keys under its name with the name stripped for a plain
op. -/
def bwd_ctx (name : α → List Char) (ctx : Context V) : Item α → Context V
  | .fused _ => ctx
  | .op o => ctx.strip (name o)

/-- One call `dy, grads = op.backward(ctx, dy)` made by `SelfContainedOp.backward`:
the entry, the context and gradient it received and the gradient it returned. -/
structure BackwardCall (α X V : Type) where
  op : Item α
  ctx : Context V
  dy : X
  dx : X

/-- `for op, ctx in list(zip(self.bwds, ctxs))[::-1]: dy, grads = op.backward(ctx, dy);
full_grads += grads`, with the calls it makes. -/
def backward_loop (be : Backend α X V) :
    List (Item α × Context V) → X → List V → X × List V × List (BackwardCall α X V)
  | [], dy, grads => (dy, grads, [])
  | (op, c) :: rest, dy, grads =>
    let r := be.backward op c dy
    let t := backward_loop be rest r.1 (grads ++ r.2)
    (t.1, t.2.1, ⟨op, c, dy, r.1⟩ :: t.2.2)

/-- `SelfContainedOp.backward(ctx, dy)`: the data gradient, `full_grads`, and the
calls made. -/
def SelfContainedOp.backward (be : Backend α X V) (name : α → List Char) (u : SelfContainedOp α)
    (ctx : Context V) (dy : X) : X × List V × List (BackwardCall α X V) :=
  backward_loop be (u.bwds.zip (u.bwds.map (bwd_ctx name ctx))).reverse dy []

/-- `SelfContainedOp.args()`: the entries' parameters in forward order. -/
def SelfContainedOp.args (be : Backend α X V) (u : SelfContainedOp α) : List V :=
  (u.fwds.map be.args).flatten

/-- The context the elementary op `o` produces when the entry `op` containing it
runs forward on `x`: its own context as a plain op, its member context inside a
`FusedOp`. -/
def Item.op_ctx (be : Backend α X V) (o : α) : Item α → X → Context V
  | .op o', x => (be.forward o' x).2
  | .fused os, x => (be.fused_forward os x).2 o

/-- The context the elementary op `o` produced while the entries `items` ran forward
from `x`. -/
def produced_ctx [DecidableEq α] (be : Backend α X V) (name : α → List Char) (o : α) :
    List (Item α) → X → Context V
  | [], _ => empty
  | op :: ops, x =>
    if o ∈ op.ops then op.op_ctx be o x else produced_ctx be name o ops (op.forward be name x).1

theorem mem_backward_loop {be : Backend α X V} {l : List (Item α × Context V)} {dy : X}
    {grads : List V} {c : BackwardCall α X V} (hc : c ∈ (backward_loop be l dy grads).2.2) :
    (c.op, c.ctx) ∈ l := by
  induction l generalizing dy grads with
  | nil => simp [backward_loop] at hc
  | cons p rest ih =>
    obtain ⟨op, ctx⟩ := p
    simp only [backward_loop, List.mem_cons] at hc
    rcases hc with rfl | hc
    · exact List.mem_cons_self _ _
    · exact List.mem_cons_of_mem _ (ih hc)

theorem zip_map_self {β γ : Type} (l : List β) (f : β → γ) :
    l.zip (l.map f) = l.map fun a => (a, f a) := by
  induction l with
  | nil => rfl
  | cons a l ih => simp [ih]

/-- Every call of `SelfContainedOp.backward` receives the context `ctxs` pairs with
its entry. -/
theorem SelfContainedOp.mem_backward_calls {be : Backend α X V} {name : α → List Char}
    {u : SelfContainedOp α} {ctx : Context V} {dy : X} {c : BackwardCall α X V}
    (hc : c ∈ (u.backward be name ctx dy).2.2) : c.op ∈ u.bwds ∧ c.ctx = bwd_ctx name ctx c.op := by
  have hmem := List.mem_reverse.mp (mem_backward_loop hc)
  rw [zip_map_self, List.mem_map] at hmem
  obtain ⟨a, ha, heq⟩ := hmem
  rw [Prod.mk.injEq] at heq
  exact heq.1 ▸ ⟨ha, heq.2.symm⟩

section

variable [DecidableEq α] {name : α → List Char}

theorem fused_context_strip (hpf : PrefixFree name) (c : α → Context V) {os : List α}
    (hnd : os.Nodup) (o : α) :
    (fused_context name c os).strip (name o) = if o ∈ os then c o else empty := by
  induction os with
  | nil => rfl
  | cons m ms ih =>
    rw [List.nodup_cons] at hnd
    rw [fused_context, strip_merge, ih hnd.2]
    by_cases hm : m = o
    · subst hm
      simp [hnd.1]
    · rw [strip_namespaced_eq_empty (fun k h => hm (hpf o m k h))]
      simp [Ne.symm hm]

/-- What an entry's forward adds under the name of the elementary op `o`: the
context `o` produced if the entry contains `o`, nothing otherwise. -/
theorem named_ctx_strip (hpf : PrefixFree name) (be : Backend α X V) {op : Item α}
    (hnd : op.ops.Nodup) (x : X) (o : α) :
    (op.named_ctx name (op.forward be name x).2).strip (name o) =
      if o ∈ op.ops then op.op_ctx be o x else empty := by
  cases op with
  | op o' =>
    by_cases ho : o' = o
    · subst ho
      simp [Item.named_ctx, Item.forward, Item.op_ctx]
    · simp only [Item.named_ctx, Item.forward, Item.ops_op, List.mem_singleton, Ne.symm ho,
        if_false]
      exact strip_namespaced_eq_empty (fun k h => ho (hpf o o' k h)) _
  | fused os =>
    simp only [Item.named_ctx, Item.forward, Item.op_ctx, Item.ops_fused] at hnd ⊢
    exact fused_context_strip hpf _ hnd o

/-- The loop of `SelfContainedOp.forward` adds, under the name of `o`, exactly the
context `o` produced, provided no op runs twice and the names are prefix-free. -/
theorem forward_loop_strip (hpf : PrefixFree name) (be : Backend α X V) {items : List (Item α)}
    (hnd : (members items).Nodup) (x : X) (full : Context V) (o : α) :
    (forward_loop be name items x full).2.strip (name o) =
      (full.strip (name o)).merge
        (if o ∈ members items then produced_ctx be name o items x else empty) := by
  induction items generalizing x full with
  | nil => simp [forward_loop]
  | cons op ops ih =>
    rw [members_cons, List.nodup_append] at hnd
    rw [forward_loop, ih hnd.2.1, strip_merge, named_ctx_strip hpf be hnd.1, merge_assoc]
    by_cases ho : o ∈ op.ops
    · have hops : o ∉ members ops := fun h => hnd.2.2 ho h
      simp [ho, hops, produced_ctx]
    · simp [ho, produced_ctx]

end

end transformer_engine.sequential
