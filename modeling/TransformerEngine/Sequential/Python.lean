import Mathlib.Data.List.Basic
import Mathlib.Data.String.Basic

namespace transformer_engine.sequential

/-- The lines of a text, split at every newline as Python's tokenizer reads them. -/
def lines : List Char → List (List Char)
  | [] => [[]]
  | c :: cs =>
    if c = '\n' then [] :: lines cs
    else
      match lines cs with
      | [] => [[c]]
      | l :: ls => (c :: l) :: ls

theorem lines_ne_nil (s : List Char) : lines s ≠ [] := by
  cases s with
  | nil => simp [lines]
  | cons c cs =>
    unfold lines
    split_ifs
    · simp
    · split <;> simp

theorem lines_append_newline (a b : List Char) : lines (a ++ '\n' :: b) = lines a ++ lines b := by
  induction a with
  | nil => simp [lines]
  | cons c a ih =>
    by_cases hc : c = '\n'
    · simp [lines, hc, ih]
    · obtain ⟨l, ls, hl⟩ := List.exists_cons_of_ne_nil (lines_ne_nil a)
      have hca : lines (c :: a) = (c :: l) :: ls := by rw [lines.eq_2, if_neg hc, hl]
      rw [List.cons_append, lines.eq_2, if_neg hc, ih, hl, hca, List.cons_append, List.cons_append]

theorem lines_of_not_mem {a : List Char} (h : '\n' ∉ a) : lines a = [a] := by
  induction a with
  | nil => rfl
  | cons c a ih =>
    rw [List.mem_cons, not_or] at h
    simp only [lines, Ne.symm h.1, if_false, ih h.2]

/-- A text made of lines, each ended by a newline, splits into those lines and an empty last
one. -/
theorem lines_flatten (ls : List (List Char)) :
    lines (ls.map (· ++ ['\n'])).flatten = (ls.map lines).flatten ++ [[]] := by
  induction ls with
  | nil => rfl
  | cons l ls ih =>
    rw [List.map_cons, List.flatten_cons, List.append_assoc, List.singleton_append,
      lines_append_newline, ih, List.map_cons, List.flatten_cons, List.append_assoc]

/-- The number of spaces a line starts with. -/
def indent : List Char → Nat
  | [] => 0
  | c :: cs => if c = ' ' then indent cs + 1 else 0

/-- A line of spaces only, which Python's tokenizer skips. -/
def blank (l : List Char) : Bool := l.all (· == ' ')

/-- Closing blocks down to the level `n`, which must be one of the open levels. -/
def dedent : List Nat → Nat → Option (List Nat)
  | [], _ => none
  | t :: ts, n => if t = n then some (t :: ts) else if n < t then dedent ts n else none

/-- Python's indentation rule, one line at a time: the open levels, and whether the line
before ended a block header with `:`. A header must be followed by a deeper line; any other
line stays at its block's level or closes blocks down to an enclosing one. -/
def indent_step : Option (List Nat × Bool) → List Char → Option (List Nat × Bool)
  | none, _ => none
  | some (stack, opened), l =>
    if blank l then some (stack, opened)
    else if opened then
      if stack.headD 0 < indent l then some (indent l :: stack, l.getLast? == some ':') else none
    else if stack.headD 0 < indent l then none
    else (dedent stack (indent l)).map fun st => (st, l.getLast? == some ':')

/-- A source whose lines keep Python's indentation rule, with no block header left open. -/
def indentation_ok (ls : List (List Char)) : Bool :=
  match ls.foldl indent_step (some ([0], false)) with
  | some (_, opened) => !opened
  | none => false

/-- Whether Python compiles the source, as far as a generated wrapper can fail to: each of its
lines is a one-line statement or a `def` header, so only its indentation can be wrong. -/
def compiles (source : String) : Bool := indentation_ok (lines source.data)

/-- A Python identifier (ASCII): a letter or `_`, then letters, digits and `_`. -/
def is_identifier (s : String) : Bool :=
  match s.data with
  | [] => false
  | c :: cs => (c.isAlpha || c == '_') && cs.all fun d => d.isAlphanum || d == '_'

theorem foldl_indent_step_none (ls : List (List Char)) : ls.foldl indent_step none = none := by
  induction ls with
  | nil => rfl
  | cons l ls ih => exact ih

/-- A generated statement at the left margin: no newline, a first character that is not a
space, and no `:` at its end. -/
structure StatementLine (l : List Char) : Prop where
  no_newline : '\n' ∉ l
  head : ∃ c, l.head? = some c ∧ c ≠ ' '
  last : l.getLast? ≠ some ':'

namespace StatementLine

variable {l : List Char}

theorem eq_cons (h : StatementLine l) : ∃ c cs, l = c :: cs ∧ c ≠ ' ' := by
  obtain ⟨c, hl, hc⟩ := h.head
  cases l with
  | nil => cases hl
  | cons d cs => exact ⟨d, cs, rfl, by cases hl; exact hc⟩

theorem blank_eq_false (h : StatementLine l) : blank l = false := by
  obtain ⟨c, cs, rfl, hc⟩ := h.eq_cons
  simp [blank, hc]

theorem indent_eq_zero (h : StatementLine l) : indent l = 0 := by
  obtain ⟨c, cs, rfl, hc⟩ := h.eq_cons
  simp [indent, hc]

/-- A statement at the left margin keeps the outermost level. -/
theorem step_top (h : StatementLine l) : indent_step (some ([0], false)) l = some ([0], false) := by
  simp [indent_step, h.blank_eq_false, h.indent_eq_zero, dedent, h.last]

/-- A statement at the left margin closes an indented block. -/
theorem step_dedent (h : StatementLine l) {k : Nat} (hk : 0 < k) :
    indent_step (some ([k, 0], false)) l = some ([0], false) := by
  simp [indent_step, h.blank_eq_false, h.indent_eq_zero, dedent, h.last, Nat.ne_of_gt hk, hk]

/-- Indented by four spaces after a header, a statement opens the header's block. -/
theorem step_body (h : StatementLine l) :
    indent_step (some ([0], true)) ("    ".data ++ l) = some ([4, 0], false) := by
  obtain ⟨c, cs, rfl, hc⟩ := h.eq_cons
  simpa [indent_step, blank, indent, hc, List.getLast?_append] using h.last

end StatementLine

theorem is_identifier_data {s : String} (h : is_identifier s) :
    '\n' ∉ s.data ∧ ':' ∉ s.data ∧ ∃ c cs, s.data = c :: cs ∧ c ≠ ' ' := by
  unfold is_identifier at h
  split at h
  · cases h
  · rename_i c cs hs
    simp only [Bool.and_eq_true, Bool.or_eq_true, beq_iff_eq, List.all_eq_true] at h
    obtain ⟨h₁, h₂⟩ := h
    have hc : (c.isAlphanum || c == '_') = true := by
      rcases h₁ with h₁ | rfl
      · simp [Char.isAlphanum, h₁]
      · decide
    have hall : ∀ d ∈ s.data, (d.isAlphanum || d == '_') = true := by
      rw [hs]
      exact List.forall_mem_cons.mpr ⟨hc, fun d hd => by simpa using h₂ d hd⟩
    exact ⟨fun hn => absurd (hall _ hn) (by decide), fun hn => absurd (hall _ hn) (by decide),
      c, cs, hs, by rintro rfl; exact absurd hc (by decide)⟩

theorem not_mem_intercalate {c : Char} {s : String} {ls : List String} (hs : c ∉ s.data)
    (hls : ∀ l ∈ ls, c ∉ l.data) : c ∉ (s.intercalate ls).data := by
  have hgo : ∀ (acc : String) (ls : List String), c ∉ acc.data → (∀ l ∈ ls, c ∉ l.data) →
      c ∉ (String.intercalate.go acc s ls).data := by
    intro acc ls hacc hls
    induction ls generalizing acc with
    | nil => exact hacc
    | cons l ls ih =>
      rw [List.forall_mem_cons] at hls
      exact ih _ (by simp [String.data_append, hacc, hs, hls.1]) hls.2
  cases ls with
  | nil => exact List.not_mem_nil c
  | cons l ls =>
    rw [List.forall_mem_cons] at hls
    exact hgo l ls hls.1 hls.2

/-- A statement made of a name, a middle and a last part with no `:`. -/
theorem statement_line_of_parts {s m t : String} (hs : ∃ c cs, s.data = c :: cs ∧ c ≠ ' ')
    (hnl : '\n' ∉ (s ++ m ++ t).data) (ht : t.data ≠ []) (hc : ':' ∉ t.data) :
    StatementLine (s ++ m ++ t).data := by
  obtain ⟨c, cs, hcs, hsp⟩ := hs
  obtain ⟨x, hx⟩ := Option.ne_none_iff_exists'.mp (mt List.getLast?_eq_none_iff.mp ht)
  refine ⟨hnl, ⟨c, by simp [String.data_append, hcs], hsp⟩, ?_⟩
  rw [String.data_append, List.getLast?_append, hx]
  rintro ⟨⟩
  exact hc (List.mem_of_getLast?_eq_some hx)

theorem lines_join (ls : List String) :
    lines (String.join (ls.map (· ++ "\n"))).data =
      (ls.map fun l => lines l.data).flatten ++ [[]] := by
  have h : (ls.map (· ++ "\n")).map String.data = (ls.map String.data).map (· ++ ['\n']) := by
    simp only [List.map_map]
    exact List.map_congr_left fun l _ => String.data_append l "\n"
  rw [String.join_eq, h, lines_flatten, List.map_map]
  rfl

/-- Whatever follows a text, its first line starts with the text's first line. -/
theorem lines_append_head (a b : List Char) :
    ∃ l ls, lines (a ++ b) = ((lines a).headD [] ++ l) :: ls := by
  induction a with
  | nil => exact ⟨_, _, (List.exists_cons_of_ne_nil (lines_ne_nil b)).choose_spec.choose_spec⟩
  | cons c a ih =>
    obtain ⟨l, ls, hl⟩ := ih
    by_cases hc : c = '\n'
    · exact ⟨[], lines (a ++ b), by simp [lines, hc]⟩
    · obtain ⟨h, t, ht⟩ := List.exists_cons_of_ne_nil (lines_ne_nil a)
      refine ⟨l, ls, ?_⟩
      rw [List.cons_append, lines.eq_2, if_neg hc, hl, lines.eq_2, if_neg hc, ht]
      simp only [ht, List.headD_cons, List.cons_append]

theorem lines_head_append {s : String} {p : List Char} (h : ∃ l ls, lines s.data = (p ++ l) :: ls)
    (t : String) : ∃ l ls, lines (s ++ t).data = (p ++ l) :: ls := by
  obtain ⟨l, ls, hs⟩ := h
  obtain ⟨l', ls', ht⟩ := lines_append_head s.data t.data
  exact ⟨l ++ l', ls', by rw [String.data_append, ht, hs, List.headD_cons, List.append_assoc]⟩

/-- Statements, each ended by a newline, are the text's lines, then an empty one. -/
theorem lines_statements {ls : List (List Char)} (h : ∀ l ∈ ls, '\n' ∉ l) :
    lines (ls.map (· ++ ['\n'])).flatten = ls ++ [[]] := by
  induction ls with
  | nil => rfl
  | cons l ls ih =>
    rw [List.forall_mem_cons] at h
    rw [List.map_cons, List.flatten_cons, List.append_assoc, List.singleton_append,
      lines_append_newline, lines_of_not_mem h.1, ih h.2, List.singleton_append, List.cons_append]

theorem join_statements (us : List String)
    (h : ∀ u ∈ us, ∃ l, u.data = l ++ ['\n'] ∧ StatementLine l) :
    ∃ ls : List (List Char), (String.join us).data = (ls.map (· ++ ['\n'])).flatten ∧
      ls.length = us.length ∧ ∀ l ∈ ls, StatementLine l := by
  induction us with
  | nil => exact ⟨[], rfl, rfl, fun _ h => nomatch h⟩
  | cons u us ih =>
    rw [List.forall_mem_cons] at h
    obtain ⟨l, hu, hl⟩ := h.1
    obtain ⟨ls, hus, hlen, hls⟩ := ih h.2
    refine ⟨l :: ls, ?_, by simp [hlen], List.forall_mem_cons.mpr ⟨hl, hls⟩⟩
    have hjoin : (String.join (u :: us)).data = u.data ++ (String.join us).data := by
      simp only [String.join_eq, List.map_cons, List.flatten_cons]
    rw [hjoin, hu, hus, List.map_cons, List.flatten_cons]

theorem foldl_step_top {ls : List (List Char)} (h : ∀ l ∈ ls, StatementLine l) :
    ls.foldl indent_step (some ([0], false)) = some ([0], false) := by
  induction ls with
  | nil => rfl
  | cons l ls ih =>
    rw [List.forall_mem_cons] at h
    rw [List.foldl_cons, h.1.step_top, ih h.2]

/-- A `def` header, at the left margin or closing a body, opens a block. -/
theorem step_header {st : Option (List Nat × Bool)} {a : String} (ha : ∃ cs, a.data = 'd' :: cs)
    (hst : st = some ([0], false) ∨ st = some ([4, 0], false)) :
    indent_step st (a ++ ":").data = some ([0], true) := by
  obtain ⟨cs, hcs⟩ := ha
  rw [String.data_append, hcs]
  rcases hst with rfl | rfl <;>
    simp [indent_step, blank, indent, dedent, List.getLast?_cons, List.getLast?_append]

/-- Python's tokenizer skips a line of spaces. -/
theorem indent_step_of_blank {l : List Char} (hb : blank l = true) (st : Option (List Nat × Bool)) :
    indent_step st l = st := by
  rcases st with _ | ⟨stack, opened⟩
  · rfl
  · simp [indent_step, hb]

/-- A line indented deeper than the open block, with no header before it, is an indentation
error. -/
theorem step_indented_none {l : List Char} (hb : blank l = false) (hl : 0 < indent l) :
    indent_step (some ([0], false)) l = none := by
  simp [indent_step, hb, hl]

/-- Indented by four spaces in an open body, a statement stays at the body's level. -/
theorem StatementLine.step_level {l : List Char} (h : StatementLine l) :
    indent_step (some ([4, 0], false)) ("    ".data ++ l) = some ([4, 0], false) := by
  obtain ⟨c, cs, rfl, hc⟩ := h.eq_cons
  simpa [indent_step, blank, indent, dedent, hc, List.getLast?_append] using h.last

/-- A line of a function body: blank, or a statement indented by four spaces. -/
def BodyLine (l : List Char) : Prop := blank l ∨ ∃ s, l = "    ".data ++ s ∧ StatementLine s

/-- Where a function body leaves the indentation: right after its header, or at its level. -/
def InBody (st : Option (List Nat × Bool)) : Prop :=
  st = some ([0], true) ∨ st = some ([4, 0], false)

/-- A block spliced after four spaces: empty, or one statement ended by a newline. -/
def AtMostOneStatement (u : List Char) : Prop := u = [] ∨ ∃ l, u = l ++ ['\n'] ∧ StatementLine l

section Body

variable {st : Option (List Nat × Bool)} {l : List Char} {ls : List (List Char)}

theorem step_statement_in_body (hst : InBody st) (h : StatementLine l) :
    indent_step st ("    ".data ++ l) = some ([4, 0], false) := by
  rcases hst with rfl | rfl
  exacts [h.step_body, h.step_level]

theorem foldl_in_body (hst : InBody st) (hls : ∀ l ∈ ls, BodyLine l) :
    InBody (ls.foldl indent_step st) := by
  induction ls generalizing st with
  | nil => exact hst
  | cons l ls ih =>
    rw [List.forall_mem_cons] at hls
    refine ih ?_ hls.2
    rcases hls.1 with hb | ⟨s, rfl, hs⟩
    · rwa [indent_step_of_blank hb]
    · exact .inr (step_statement_in_body hst hs)

theorem foldl_level (hls : ∀ l ∈ ls, BodyLine l) :
    ls.foldl indent_step (some ([4, 0], false)) = some ([4, 0], false) := by
  induction ls with
  | nil => rfl
  | cons l ls ih =>
    rw [List.forall_mem_cons] at hls
    rcases hls.1 with hb | ⟨s, rfl, hs⟩
    · rw [List.foldl_cons, indent_step_of_blank hb, ih hls.2]
    · rw [List.foldl_cons, hs.step_level, ih hls.2]

theorem lines_body_block {u : String} (hu : AtMostOneStatement u.data) :
    ∀ l ∈ lines ("    " ++ u).data, BodyLine l := by
  rw [String.data_append]
  rcases hu with hu | ⟨l, hu, hl⟩ <;> rw [hu]
  · intro l hl
    rw [show lines ("    ".data ++ []) = ["    ".data] from rfl, List.mem_singleton] at hl
    exact .inl (hl ▸ rfl)
  · rw [← List.append_assoc, lines_append_newline, lines_of_not_mem (by simpa using hl.no_newline)]
    rintro l' (_ | ⟨_, _ | ⟨_, h⟩⟩)
    exacts [.inr ⟨l, rfl, hl⟩, .inl rfl, nomatch h]

end Body

end transformer_engine.sequential
