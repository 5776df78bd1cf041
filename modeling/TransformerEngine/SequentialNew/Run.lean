import TransformerEngine.SequentialNew.Training

namespace transformer_engine.sequential_new

variable {D : Type}

/-- Modelled from the spec (the pipeline that drives the generators is not under src/): every
op's training generator advanced to its first yield in list order, each fed the tensor the
one before it yielded. -/
def forward_phase : List (Op D) → Buf → Except String (List Training × Buf)
  | [], x => pure ([], x)
  | op :: ops, x => do
    let t ← op.training x
    let (ts, y) ← forward_phase ops t.y
    pure (t :: ts, y)

/-- Modelled from the spec: the generators resumed in reverse list order, the last with the
gradient and each earlier one with the tensor the one after it yielded. -/
def backward_phase : List Training → Buf → List Call × Buf
  | [], g => ([], g)
  | t :: ts, g =>
    let r := backward_phase ts g
    (r.1 ++ (t.bwd r.2).1, (t.bwd r.2).2)

/-- The calls of a training run: the forward phases in list order, then the backward ones. -/
def training_trace (ts : List Training) (g : Buf) : List Call :=
  ts.flatMap Training.fwd ++ (backward_phase ts g).1

/-- Modelled from the spec: `inference` of every op in list order, each fed the tensor the one
before it returned. -/
def inference_run [DecidableEq D] : List (Op D) → Buf → Except String (List Call × Buf)
  | [], x => pure ([], x)
  | op :: ops, x => do
    let (cs, y) ← op.inference x
    let (cs', z) ← inference_run ops y
    pure (cs ++ cs', z)

theorem forward_phase_cons_eq_ok {op : Op D} {ops : List (Op D)} {x y : Buf}
    {ts : List Training} :
    forward_phase (op :: ops) x = .ok (ts, y) ↔
      ∃ t ts', op.training x = .ok t ∧ forward_phase ops t.y = .ok (ts', y) ∧ ts = t :: ts' := by
  constructor
  · intro h
    obtain ⟨t, ht, h⟩ := bind_eq_ok.mp h
    obtain ⟨⟨ts', y'⟩, hrest, h⟩ := bind_eq_ok.mp h
    cases h
    exact ⟨t, ts', ht, hrest, rfl⟩
  · rintro ⟨t, ts', ht, hrest, rfl⟩
    simp only [forward_phase, ht, hrest, ok_bind]
    rfl

/-- A forward phase over two lists is the first one's, continued from its yield. -/
theorem forward_phase_append_eq_ok {ops ops' : List (Op D)} {x z : Buf} {ts : List Training} :
    forward_phase (ops ++ ops') x = .ok (ts, z) ↔
      ∃ ts₁ y ts₂, forward_phase ops x = .ok (ts₁, y) ∧ forward_phase ops' y = .ok (ts₂, z) ∧
        ts = ts₁ ++ ts₂ := by
  induction ops generalizing x ts with
  | nil =>
    constructor
    · exact fun h => ⟨[], x, ts, rfl, h, rfl⟩
    · rintro ⟨_, _, _, ⟨⟩, h, rfl⟩
      exact h
  | cons op ops ih =>
    rw [List.cons_append, forward_phase_cons_eq_ok]
    constructor
    · rintro ⟨t, ts', ht, hrest, rfl⟩
      obtain ⟨ts₁, y, ts₂, h₁, h₂, rfl⟩ := ih.mp hrest
      exact ⟨t :: ts₁, y, ts₂, forward_phase_cons_eq_ok.mpr ⟨t, ts₁, ht, h₁, rfl⟩, h₂, rfl⟩
    · rintro ⟨_, y, ts₂, h₁, h₂, rfl⟩
      obtain ⟨t, ts₁, ht, hrest, rfl⟩ := forward_phase_cons_eq_ok.mp h₁
      exact ⟨t, ts₁ ++ ts₂, ht, ih.mpr ⟨ts₁, y, ts₂, hrest, h₂, rfl⟩, rfl⟩

theorem backward_phase_append (ts us : List Training) (g : Buf) :
    backward_phase (ts ++ us) g =
      ((backward_phase us g).1 ++ (backward_phase ts (backward_phase us g).2).1,
        (backward_phase ts (backward_phase us g).2).2) := by
  induction ts with
  | nil => simp [backward_phase]
  | cons t ts ih => simp [backward_phase, ih]

theorem inference_run_cons_eq_ok [DecidableEq D] {op : Op D} {ops : List (Op D)} {x z : Buf}
    {cs : List Call} :
    inference_run (op :: ops) x = .ok (cs, z) ↔
      ∃ cs₁ y cs₂, op.inference x = .ok (cs₁, y) ∧ inference_run ops y = .ok (cs₂, z) ∧
        cs = cs₁ ++ cs₂ := by
  constructor
  · intro h
    obtain ⟨⟨cs₁, y⟩, h₁, h⟩ := bind_eq_ok.mp h
    obtain ⟨⟨cs₂, z'⟩, h₂, h⟩ := bind_eq_ok.mp h
    cases h
    exact ⟨cs₁, y, cs₂, h₁, h₂, rfl⟩
  · rintro ⟨cs₁, y, cs₂, h₁, h₂, rfl⟩
    simp only [inference_run, h₁, h₂, ok_bind]
    rfl

/-- `inference` over two lists is the first one's, continued from what it returned. -/
theorem inference_run_append_eq_ok [DecidableEq D] {ops ops' : List (Op D)} {x z : Buf}
    {cs : List Call} :
    inference_run (ops ++ ops') x = .ok (cs, z) ↔
      ∃ cs₁ y cs₂, inference_run ops x = .ok (cs₁, y) ∧ inference_run ops' y = .ok (cs₂, z) ∧
        cs = cs₁ ++ cs₂ := by
  induction ops generalizing x cs with
  | nil =>
    constructor
    · exact fun h => ⟨[], x, cs, rfl, h, rfl⟩
    · rintro ⟨_, _, _, ⟨⟩, h, rfl⟩
      exact h
  | cons op ops ih =>
    rw [List.cons_append, inference_run_cons_eq_ok]
    constructor
    · rintro ⟨cs₁, y, cs', h₁, hrest, rfl⟩
      obtain ⟨cs₂, y', cs₃, h₂, h₃, rfl⟩ := ih.mp hrest
      exact ⟨cs₁ ++ cs₂, y', cs₃, inference_run_cons_eq_ok.mpr ⟨cs₁, y, cs₂, h₁, h₂, rfl⟩, h₃,
        (List.append_assoc _ _ _).symm⟩
    · rintro ⟨_, y', cs₃, h₁₂, h₃, rfl⟩
      obtain ⟨cs₁, y, cs₂, h₁, h₂, rfl⟩ := inference_run_cons_eq_ok.mp h₁₂
      exact ⟨cs₁, y, cs₂ ++ cs₃, h₁, ih.mpr ⟨cs₂, y', cs₃, h₂, h₃, rfl⟩, List.append_assoc _ _ _⟩

/-- Every op of a forward phase that returned has its generator among the phase's. -/
theorem forward_phase_mem {ops : List (Op D)} {x y : Buf} {ts : List Training}
    (h : forward_phase ops x = .ok (ts, y)) {op : Op D} (hop : op ∈ ops) :
    ∃ x' t, op.training x' = .ok t ∧ t ∈ ts := by
  induction ops generalizing x ts with
  | nil => cases hop
  | cons op' ops ih =>
    obtain ⟨t, ts', ht, hrest, rfl⟩ := forward_phase_cons_eq_ok.mp h
    rcases List.mem_cons.mp hop with rfl | hop
    · exact ⟨x, t, ht, List.mem_cons_self _ _⟩
    · obtain ⟨x', t', ht', hmem⟩ := ih hrest hop
      exact ⟨x', t', ht', List.mem_cons_of_mem _ hmem⟩

/-- Every generator of the backward phase is resumed once, and its calls are among the
phase's. -/
theorem backward_phase_mem {ts : List Training} {t : Training} (ht : t ∈ ts) (g : Buf) :
    ∃ g', ∀ c ∈ (t.bwd g').1, c ∈ (backward_phase ts g).1 := by
  induction ts with
  | nil => cases ht
  | cons t' ts ih =>
    rcases List.mem_cons.mp ht with rfl | ht
    · exact ⟨_, fun c hc => List.mem_append_right _ hc⟩
    · obtain ⟨g', hg'⟩ := ih ht
      exact ⟨g', fun c hc => List.mem_append_left _ (hg' c hc)⟩

section Footprint

variable {R W R' W' : Buf → Prop}

/-- Forward from an input satisfying `R` and `W`, every generator keeps the footprint its
instances allow, and the yielded tensor satisfies both. -/
theorem forward_phase_footprint {ops : List (Op D)} {x y : Buf} {ts : List Training}
    (h : forward_phase ops x = .ok (ts, y)) (hRx : R x) (hWx : W x) (hR : ∀ b, R b → R' b)
    (hW : ∀ b, W b → W' b)
    (hops : ∀ op ∈ ops, FieldsSatisfy op.fwd_refs R W ∧ FieldsSatisfy op.bwd_refs R' W') :
    (∀ t ∈ ts, t.Footprint R W R' W') ∧ R y ∧ W y := by
  induction ops generalizing x ts with
  | nil =>
    cases h
    exact ⟨(fun _ h => nomatch h), hRx, hWx⟩
  | cons op ops ih =>
    obtain ⟨t, ts', ht, hrest, rfl⟩ := forward_phase_cons_eq_ok.mp h
    rw [List.forall_mem_cons] at hops
    have hft := op.training_footprint ht hRx hWx hR hW hops.1.1 hops.1.2
    obtain ⟨hts', hy⟩ := ih hrest hft.y.1 hft.y.2 hops.2
    exact ⟨List.forall_mem_cons.mpr ⟨hft, hts'⟩, hy⟩

/-- Backward from a gradient satisfying `R'` and `W'`, over generators that keep their
footprints, every call and the yielded gradient keep it too. -/
theorem backward_phase_footprint {ts : List Training} {g : Buf}
    (hts : ∀ t ∈ ts, t.Footprint R W R' W') (hRg : R' g) (hWg : W' g) :
    (∀ c ∈ (backward_phase ts g).1, (∀ b ∈ c.src, R' b) ∧ ∀ b ∈ c.dst, W' b) ∧
      R' (backward_phase ts g).2 ∧ W' (backward_phase ts g).2 := by
  induction ts with
  | nil => exact ⟨(fun _ h => nomatch h), hRg, hWg⟩
  | cons t ts ih =>
    rw [List.forall_mem_cons] at hts
    obtain ⟨hcalls, hR, hW⟩ := ih hts.2
    obtain ⟨hcalls', hdx⟩ := hts.1.bwd _ hR hW
    exact ⟨fun c hc => (List.mem_append.mp hc).elim (hcalls c) (hcalls' c), hdx⟩

/-- `inference` from an input satisfying `R` and `W` keeps the footprint its instances allow. -/
theorem inference_run_footprint [DecidableEq D] {ops : List (Op D)} {x y : Buf}
    {cs : List Call} (h : inference_run ops x = .ok (cs, y)) (hRx : R x) (hWx : W x)
    (hops : ∀ op ∈ ops, FieldsSatisfy op.fwd_refs R W) :
    (∀ c ∈ cs, (∀ b ∈ c.src, R b) ∧ ∀ b ∈ c.dst, W b) ∧ R y ∧ W y := by
  induction ops generalizing x cs with
  | nil =>
    cases h
    exact ⟨(fun _ h => nomatch h), hRx, hWx⟩
  | cons op ops ih =>
    obtain ⟨cs₁, y₁, cs₂, h₁, h₂, rfl⟩ := inference_run_cons_eq_ok.mp h
    rw [List.forall_mem_cons] at hops
    obtain ⟨hcs₁, hR₁, hW₁⟩ := op.inference_footprint h₁ hRx hWx hops.1
    obtain ⟨hcs₂, hy⟩ := ih h₂ hR₁ hW₁ hops.2
    exact ⟨fun c hc => (List.mem_append.mp hc).elim (hcs₁ c) (hcs₂ c), hy⟩

end Footprint

end transformer_engine.sequential_new
