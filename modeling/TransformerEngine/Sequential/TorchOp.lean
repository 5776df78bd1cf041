import TransformerEngine.Sequential.Python
import TransformerEngine.Except

namespace transformer_engine.sequential

/-- The annotations `torch_op` supports: `cpp_extensions.Tensor`, an `Enum` subclass `name`
of the module `module`, `int`, `float`, `bool`, `str` and `torch.Tensor`. -/
inductive ArgType where
  | tensor
  | enum (module name : String)
  | int
  | float
  | bool
  | str
  | torch_tensor
  deriving DecidableEq, Repr

/-- `type_name(t)`. `cpp_extensions.Tensor` forwards `__module__` and `__name__` to the raw
tensor class of `cpp_extensions.real` (not under src/), so its name is `tensor_name`. -/
def type_name (tensor_name : String) : ArgType → String
  | .tensor => tensor_name
  | .enum module name =>
    if module = "builtins" then name
    else if module = "transformer_engine.pytorch.sequential.cpp_extensions" then
      "cpp_extensions." ++ name
    else module ++ "." ++ name
  | .int => "int"
  | .float => "float"
  | .bool => "bool"
  | .str => "str"
  | .torch_tensor => "torch.Tensor"

/-- `type_name(wrap_type(t))`: a tensor travels as the `tuple` of its four plain tensors and
an `Enum` as its `int` value; the other types travel as themselves. -/
def wrapped_type_name (tensor_name : String) : ArgType → String
  | .tensor => "tuple[torch.Tensor, torch.Tensor, torch.Tensor, torch.Tensor]"
  | .enum _ _ => "int"
  | t => type_name tensor_name t

/-- `wrap_unwrap_code(arg_name, arg_type, arg_type_name)`: the statement that wraps the
argument and the one that unwraps it, each ended by a newline. -/
def wrap_unwrap_code (tensor_name arg_name : String) (arg_type : ArgType)
    (arg_type_name : String) : String × String :=
  let wrapped_arg_type_name := wrapped_type_name tensor_name arg_type
  match arg_type with
  | .tensor =>
    (arg_name ++ "_: " ++ wrapped_arg_type_name ++ " = (" ++ arg_name ++ ".data, " ++ arg_name ++
        ".amax, " ++ arg_name ++ ".scale, " ++ arg_name ++ ".scale_inv)\n",
      arg_name ++ ": " ++ arg_type_name ++ " = " ++ arg_type_name ++ "(*" ++ arg_name ++ "_)\n")
  | .enum _ _ =>
    (arg_name ++ "_: " ++ wrapped_arg_type_name ++ " = " ++ arg_name ++ ".value\n",
      arg_name ++ ": " ++ arg_type_name ++ " = " ++ arg_type_name ++ "(" ++ arg_name ++ "_)\n")
  | _ =>
    (arg_name ++ "_: " ++ wrapped_arg_type_name ++ " = " ++ arg_name ++ "\n",
      arg_name ++ ": " ++ arg_type_name ++ " = " ++ arg_name ++ "_\n")

/-- What `torch_op` reads of a function: its `__name__`, its annotated parameters in order,
and its return annotation. -/
structure Signature where
  name : String
  params : List (String × ArgType)
  ret : ArgType

/-- The locals of `make_wrapper` that the generated source is formatted from, under their
names there (`name` is `func.__name__`). -/
structure WrapperParts where
  name : String
  inner_sig : String
  arg_unwrapping_code : String
  return_type_name : String
  unwrapped_args : String
  result_wrapping_code : String
  outer_sig : String
  arg_wrapping_code : String
  wrapped_return_type_name : String
  wrapped_args : String
  result_unwrapping_code : String

/-- The generated `source`: the template's lines, each ended by a newline, with the locals
spliced in. -/
def WrapperParts.source (w : WrapperParts) : String :=
  String.join ([
    "import torch",
    "from . import cpp_extensions",
    "",
    "def " ++ w.name ++ w.inner_sig ++ ":",
    "    " ++ w.arg_unwrapping_code,
    "    result: " ++ w.return_type_name ++ " = func(" ++ w.unwrapped_args ++ ")",
    "    " ++ w.result_wrapping_code,
    "    return result_",
    "",
    "def outer_wrapper" ++ w.outer_sig ++ ":",
    "    " ++ w.arg_wrapping_code,
    "    result_: " ++ w.wrapped_return_type_name ++ " = " ++ w.name ++ "(" ++ w.wrapped_args ++ ")",
    "    " ++ w.result_unwrapping_code,
    "    return result"].map (· ++ "\n"))

/-- `make_wrapper`'s locals for `func`: the wrapping and the unwrapping code gather one
statement per parameter, each ended by a newline. -/
def make_wrapper_parts (tensor_name : String) (sig : Signature) : WrapperParts :=
  let arg_names := sig.params.map Prod.fst
  let codes := sig.params.map fun p =>
    wrap_unwrap_code tensor_name p.1 p.2 (type_name tensor_name p.2)
  let return_type_name := type_name tensor_name sig.ret
  let result_code := wrap_unwrap_code tensor_name "result" sig.ret return_type_name
  { name := sig.name
    inner_sig := "(" ++ ",".intercalate (sig.params.map fun p =>
      p.1 ++ "_: " ++ wrapped_type_name tensor_name p.2) ++ ") -> " ++
      wrapped_type_name tensor_name sig.ret
    arg_unwrapping_code := String.join (codes.map Prod.snd)
    return_type_name := return_type_name
    unwrapped_args := ",".intercalate arg_names
    result_wrapping_code := result_code.1
    outer_sig := "(" ++ ",".intercalate (sig.params.map fun p =>
      p.1 ++ ": " ++ type_name tensor_name p.2) ++ ") -> " ++ return_type_name
    arg_wrapping_code := String.join (codes.map Prod.fst)
    wrapped_return_type_name := wrapped_type_name tensor_name sig.ret
    wrapped_args := ",".intercalate (arg_names.map (· ++ "_"))
    result_unwrapping_code := result_code.2 }

/-- The name an annotation starts with: up to its first `.` or `[`. -/
def head_name (s : String) : String := ⟨s.data.takeWhile fun c => c ≠ '.' ∧ c ≠ '['⟩

/-- Whether evaluating the annotation `s` finds the name it starts with among `names`; the
attributes after it are those of the module that defines the type. -/
def resolves (names : List String) (s : String) : Bool := decide (head_name s ∈ names)

/-- The names bound when the generated source's first `def` runs: `func` and `__name__` of
`ns`, `torch` and `cpp_extensions` of its imports, and the builtins a type name of `torch_op`
can start with. -/
def exec_globals : List String :=
  ["func", "__name__", "torch", "cpp_extensions", "int", "float", "bool", "str", "tuple"]

/-- `exec_saving_source(source, ns)` once the source parses: `utils.py` has no
`from __future__ import annotations`, so each `def` evaluates its annotations when it runs,
the inner function's against `exec_globals` and `outer_wrapper`'s also against the inner
function; an annotation that starts with an unbound name raises `NameError`. -/
def exec_source (tensor_name : String) (sig : Signature) : Except String Unit :=
  let types := sig.params.map Prod.snd ++ [sig.ret]
  if types.all (resolves exec_globals <| wrapped_type_name tensor_name ·) &&
      types.all (resolves (sig.name :: exec_globals) <| type_name tensor_name ·) then .ok ()
  else .error "NameError"

/-- `torch_op(func)`: the wrapper, given by its source, or the `RuntimeError` it raises when
anything in its `try` raises: parsing the generated source, running it, or `register_op`, which
depends on the installed PyTorch (not under src/). -/
def torch_op (tensor_name : String) (register_op : Signature → Except String Unit)
    (sig : Signature) : Except String String :=
  let source := (make_wrapper_parts tensor_name sig).source
  let wrapped : Except String Unit := do
    if compiles source then pure () else .error "SyntaxError"
    exec_source tensor_name sig
    register_op sig
  match wrapped with
  | .ok () => .ok source
  | .error _ => .error ("RuntimeError: Failed to compile wrapper for " ++ sig.name ++
    ". Generated code: \n```\n" ++ source ++ "```")

theorem wrapped_type_name_single_line (tensor_name : String) (t : ArgType) :
    '\n' ∉ (wrapped_type_name tensor_name t).data := by
  cases t <;> simp only [wrapped_type_name, type_name] <;> decide

/-- Both statements of a parameter's code are statements at the left margin, each ended by a
newline. -/
theorem wrap_unwrap_statement_lines (tensor_name arg_name : String) (arg_type : ArgType)
    (hn : is_identifier arg_name) (ht : '\n' ∉ (type_name tensor_name arg_type).data) :
    (∃ l, (wrap_unwrap_code tensor_name arg_name arg_type
        (type_name tensor_name arg_type)).1.data = l ++ ['\n'] ∧ StatementLine l) ∧
      ∃ l, (wrap_unwrap_code tensor_name arg_name arg_type
        (type_name tensor_name arg_type)).2.data = l ++ ['\n'] ∧ StatementLine l := by
  obtain ⟨hnl, hcolon, hhead⟩ := is_identifier_data hn
  have hw := wrapped_type_name_single_line tensor_name arg_type
  have hname : arg_name.data ≠ [] := by
    obtain ⟨c, cs, h, -⟩ := hhead
    simp [h]
  by_cases htensor : arg_type = .tensor
  · subst htensor
    refine ⟨⟨(arg_name ++ ("_: " ++ wrapped_type_name tensor_name .tensor ++ " = (" ++ arg_name ++
        ".data, " ++ arg_name ++ ".amax, " ++ arg_name ++ ".scale, " ++ arg_name) ++
        ".scale_inv)").data, ?_, statement_line_of_parts hhead ?_ (by decide) (by decide)⟩,
      ⟨(arg_name ++ (": " ++ type_name tensor_name .tensor ++ " = " ++
        type_name tensor_name .tensor ++ "(*" ++ arg_name) ++ "_)").data, ?_,
        statement_line_of_parts hhead ?_ (by decide) (by decide)⟩⟩
    all_goals simp only [wrap_unwrap_code, String.data_append, List.append_assoc]
    all_goals first | rfl | simp [hnl, ht, hw]
  by_cases henum : ∃ m k, arg_type = .enum m k
  · obtain ⟨m, k, rfl⟩ := henum
    refine ⟨⟨(arg_name ++ ("_: " ++ wrapped_type_name tensor_name (.enum m k) ++ " = " ++
        arg_name) ++ ".value").data, ?_, statement_line_of_parts hhead ?_ (by decide) (by decide)⟩,
      ⟨(arg_name ++ (": " ++ type_name tensor_name (.enum m k) ++ " = " ++
        type_name tensor_name (.enum m k) ++ "(" ++ arg_name) ++ "_)").data, ?_,
        statement_line_of_parts hhead ?_ (by decide) (by decide)⟩⟩
    all_goals simp only [wrap_unwrap_code, String.data_append, List.append_assoc]
    all_goals first | rfl | simp [hnl, ht, hw]
  · have hcode : wrap_unwrap_code tensor_name arg_name arg_type (type_name tensor_name arg_type) =
        (arg_name ++ "_: " ++ wrapped_type_name tensor_name arg_type ++ " = " ++ arg_name ++ "\n",
          arg_name ++ ": " ++ type_name tensor_name arg_type ++ " = " ++ arg_name ++ "_\n") := by
      cases arg_type <;> simp_all [wrap_unwrap_code]
    rw [hcode]
    refine ⟨⟨(arg_name ++ ("_: " ++ wrapped_type_name tensor_name arg_type ++ " = ") ++
        arg_name).data, ?_, statement_line_of_parts hhead ?_ hname hcolon⟩,
      ⟨(arg_name ++ (": " ++ type_name tensor_name arg_type ++ " = " ++ arg_name) ++ "_").data, ?_,
        statement_line_of_parts hhead ?_ (by decide) (by decide)⟩⟩
    all_goals simp only [String.data_append, List.append_assoc]
    all_goals first | rfl | simp [hnl, ht, hw]

/-- The template's imports keep the outermost level. -/
theorem indent_step_imports :
    indent_step (indent_step (some ([0], false)) "import torch".data)
      "from . import cpp_extensions".data = some ([0], false) := rfl

/-- With its unwrapping code of two statements or more, the generated source does not
compile: the first statement opens the inner function's body, the second closes it at the
left margin, and the indented `result` line after them is an error. -/
theorem WrapperParts.compiles_eq_false (w : WrapperParts)
    (hheader : '\n' ∉ (w.name ++ w.inner_sig).data) {l₁ l₂ : List Char} {ls : List (List Char)}
    (hcode : w.arg_unwrapping_code.data = ((l₁ :: l₂ :: ls).map (· ++ ['\n'])).flatten)
    (h₁ : StatementLine l₁) (h₂ : StatementLine l₂) (hls : ∀ l ∈ ls, StatementLine l) :
    compiles w.source = false := by
  have hdef : lines ("def " ++ w.name ++ w.inner_sig ++ ":").data =
      [("def " ++ w.name ++ w.inner_sig ++ ":").data] :=
    lines_of_not_mem (by simp_all [String.data_append])
  have hblock : lines ("    " ++ w.arg_unwrapping_code).data =
      ("    ".data ++ l₁) :: l₂ :: (ls ++ [[]]) := by
    rw [String.data_append, hcode, List.map_cons, List.map_cons, List.flatten_cons,
      List.flatten_cons, List.append_assoc, List.append_assoc, List.singleton_append,
      ← List.append_assoc "    ".data, lines_append_newline, List.singleton_append,
      lines_append_newline,
      lines_statements fun l hl => (hls l hl).no_newline,
      lines_of_not_mem (by simpa using h₁.no_newline), lines_of_not_mem h₂.no_newline]
    rfl
  obtain ⟨l, ls', hresult⟩ : ∃ l ls', lines ("    result: " ++ w.return_type_name ++
      " = func(" ++ w.unwrapped_args ++ ")").data = ("    result: ".data ++ l) :: ls' :=
    lines_head_append (lines_head_append (lines_head_append
      (@lines_head_append "    result: " "    result: ".data ⟨[], [], rfl⟩ _) _) _) _
  have hresult_step : indent_step (some ([0], false)) ("    result: ".data ++ l) = none :=
    step_indented_none rfl (Nat.succ_pos 3)
  rw [compiles, WrapperParts.source, lines_join]
  simp -proj only [List.map_cons, List.map_nil, List.flatten_cons, List.flatten_nil, hdef, hblock,
    hresult, List.cons_append, List.nil_append, List.append_assoc, List.singleton_append,
    show lines "import torch".data = ["import torch".data] from rfl,
    show lines "from . import cpp_extensions".data = ["from . import cpp_extensions".data] from rfl,
    show lines "".data = [[]] from rfl]
  rw [indentation_ok]
  simp -proj only [List.foldl_cons, List.foldl_append, indent_step_of_blank (l := []) rfl,
    indent_step_imports, step_header (a := "def " ++ w.name ++ w.inner_sig) ⟨_, rfl⟩ (.inl rfl),
    h₁.step_body, h₂.step_dedent (Nat.succ_pos 3), foldl_step_top hls, hresult_step,
    foldl_indent_step_none]

/-- With at most one statement in each spliced block and every other spliced part on one
line, the generated source compiles: each function's body stays at one level. -/
theorem WrapperParts.compiles_eq_true (w : WrapperParts)
    (hheader : '\n' ∉ (w.name ++ w.inner_sig).data)
    (hunwrap : AtMostOneStatement w.arg_unwrapping_code.data)
    (hresult : StatementLine
      ("result: " ++ w.return_type_name ++ " = func(" ++ w.unwrapped_args ++ ")").data)
    (hresult_wrap : AtMostOneStatement w.result_wrapping_code.data)
    (houter : '\n' ∉ w.outer_sig.data)
    (hwrap : AtMostOneStatement w.arg_wrapping_code.data)
    (hresult_ : StatementLine ("result_: " ++ w.wrapped_return_type_name ++ " = " ++ w.name ++
      "(" ++ w.wrapped_args ++ ")").data)
    (hresult_unwrap : AtMostOneStatement w.result_unwrapping_code.data) :
    compiles w.source = true := by
  have hdef : lines ("def " ++ w.name ++ w.inner_sig ++ ":").data =
      [("def " ++ w.name ++ w.inner_sig ++ ":").data] :=
    lines_of_not_mem (by simp_all [String.data_append])
  have hdef' : lines ("def outer_wrapper" ++ w.outer_sig ++ ":").data =
      [("def outer_wrapper" ++ w.outer_sig ++ ":").data] :=
    lines_of_not_mem (by simp_all [String.data_append])
  have hres : lines ("    result: " ++ w.return_type_name ++ " = func(" ++ w.unwrapped_args ++
      ")").data = ["    ".data ++ ("result: " ++ w.return_type_name ++ " = func(" ++
        w.unwrapped_args ++ ")").data] :=
    lines_of_not_mem (by simpa using hresult.no_newline)
  have hres_ : lines ("    result_: " ++ w.wrapped_return_type_name ++ " = " ++ w.name ++ "(" ++
      w.wrapped_args ++ ")").data = ["    ".data ++ ("result_: " ++ w.wrapped_return_type_name ++
        " = " ++ w.name ++ "(" ++ w.wrapped_args ++ ")").data] :=
    lines_of_not_mem (by simpa using hresult_.no_newline)
  rw [compiles, WrapperParts.source, lines_join]
  simp -proj only [List.map_cons, List.map_nil, List.flatten_cons, List.flatten_nil, hdef, hdef',
    hres, hres_, List.cons_append, List.nil_append, List.append_assoc, List.singleton_append,
    show lines "import torch".data = ["import torch".data] from rfl,
    show lines "from . import cpp_extensions".data = ["from . import cpp_extensions".data] from rfl,
    show lines "".data = [[]] from rfl,
    show lines "    return result_".data = ["    return result_".data] from rfl,
    show lines "    return result".data = ["    return result".data] from rfl]
  rw [indentation_ok]
  simp -proj only [List.foldl_cons, List.foldl_append, List.foldl_nil,
    indent_step_of_blank (l := []) rfl, indent_step_imports,
    show indent_step (some ([4, 0], false)) "    return result_".data =
      some ([4, 0], false) from rfl,
    show indent_step (some ([4, 0], false)) "    return result".data =
      some ([4, 0], false) from rfl,
    step_header (a := "def " ++ w.name ++ w.inner_sig) ⟨_, rfl⟩ (.inl rfl),
    step_header (a := "def outer_wrapper" ++ w.outer_sig) ⟨_, rfl⟩ (.inr rfl),
    step_statement_in_body (foldl_in_body (.inl rfl) (lines_body_block hunwrap)) hresult,
    step_statement_in_body (foldl_in_body (.inl rfl) (lines_body_block hwrap)) hresult_,
    foldl_level (lines_body_block hresult_wrap), foldl_level (lines_body_block hresult_unwrap)]
  rfl

section MakeWrapperParts

variable (tensor_name : String) (sig : Signature)

/-- With identifiers for the function and its parameters, the inner function's header is one
line. -/
theorem make_wrapper_parts_header (hname : is_identifier sig.name)
    (hparams : ∀ p ∈ sig.params, is_identifier p.1) :
    '\n' ∉ ((make_wrapper_parts tensor_name sig).name ++
      (make_wrapper_parts tensor_name sig).inner_sig).data := by
  have hsig : '\n' ∉ (make_wrapper_parts tensor_name sig).inner_sig.data := by
    simp only [make_wrapper_parts, String.data_append, List.mem_append, not_or]
    refine ⟨⟨⟨by decide, not_mem_intercalate (by decide) ?_⟩, by decide⟩,
      wrapped_type_name_single_line _ _⟩
    simp only [List.mem_map]
    rintro _ ⟨p, hp, rfl⟩
    simp only [String.data_append, List.mem_append, not_or]
    exact ⟨⟨(is_identifier_data (hparams p hp)).1, by decide⟩, wrapped_type_name_single_line _ _⟩
  rw [String.data_append, List.mem_append, not_or]
  exact ⟨(is_identifier_data hname).1, hsig⟩

/-- The wrapping and the unwrapping code are each one statement at the left margin per
parameter. -/
theorem make_wrapper_parts_codes
    (hparams : ∀ p ∈ sig.params, is_identifier p.1 ∧ '\n' ∉ (type_name tensor_name p.2).data) :
    (∃ ls : List (List Char), (make_wrapper_parts tensor_name sig).arg_wrapping_code.data =
      (ls.map (· ++ ['\n'])).flatten ∧ ls.length = sig.params.length ∧
        ∀ l ∈ ls, StatementLine l) ∧
    ∃ ls : List (List Char), (make_wrapper_parts tensor_name sig).arg_unwrapping_code.data =
      (ls.map (· ++ ['\n'])).flatten ∧ ls.length = sig.params.length ∧
        ∀ l ∈ ls, StatementLine l := by
  have hjoin : ∀ sel : String × String → String, (∀ p ∈ sig.params, ∃ l,
      (sel (wrap_unwrap_code tensor_name p.1 p.2 (type_name tensor_name p.2))).data =
        l ++ ['\n'] ∧ StatementLine l) →
      ∃ ls : List (List Char), (String.join ((sig.params.map fun p =>
        wrap_unwrap_code tensor_name p.1 p.2 (type_name tensor_name p.2)).map sel)).data =
          (ls.map (· ++ ['\n'])).flatten ∧ ls.length = sig.params.length ∧
            ∀ l ∈ ls, StatementLine l := by
    intro sel hsel
    obtain ⟨ls, hcode, hlen, hls⟩ := join_statements ((sig.params.map fun p =>
      wrap_unwrap_code tensor_name p.1 p.2 (type_name tensor_name p.2)).map sel) (by
        simp only [List.map_map, List.mem_map]
        rintro _ ⟨p, hp, rfl⟩
        exact hsel p hp)
    exact ⟨ls, hcode, by simpa using hlen, hls⟩
  have hlines := fun p (hp : p ∈ sig.params) =>
    wrap_unwrap_statement_lines tensor_name p.1 p.2 (hparams p hp).1 (hparams p hp).2
  exact ⟨hjoin Prod.fst fun p hp => (hlines p hp).1, hjoin Prod.snd fun p hp => (hlines p hp).2⟩

/-- With identifiers for its names, the one-line parts of the source are on one line. -/
theorem make_wrapper_parts_lines (hname : is_identifier sig.name)
    (hparams : ∀ p ∈ sig.params, is_identifier p.1 ∧ '\n' ∉ (type_name tensor_name p.2).data)
    (hret : '\n' ∉ (type_name tensor_name sig.ret).data) :
    let w := make_wrapper_parts tensor_name sig
    StatementLine ("result: " ++ w.return_type_name ++ " = func(" ++ w.unwrapped_args ++ ")").data ∧
      '\n' ∉ w.outer_sig.data ∧
      StatementLine ("result_: " ++ w.wrapped_return_type_name ++ " = " ++ w.name ++ "(" ++
        w.wrapped_args ++ ")").data := by
  have hnames : ∀ a ∈ sig.params.map Prod.fst, '\n' ∉ a.data := by
    simp only [List.mem_map]
    rintro _ ⟨p, hp, rfl⟩
    exact (is_identifier_data (hparams p hp).1).1
  have hargs : '\n' ∉ (make_wrapper_parts tensor_name sig).unwrapped_args.data :=
    not_mem_intercalate (by decide) hnames
  have hwargs : '\n' ∉ (make_wrapper_parts tensor_name sig).wrapped_args.data := by
    refine not_mem_intercalate (by decide) fun x hx => ?_
    obtain ⟨a, ha, rfl⟩ := List.mem_map.mp hx
    simpa [String.data_append] using hnames a ha
  have houter : '\n' ∉ (make_wrapper_parts tensor_name sig).outer_sig.data := by
    simp only [make_wrapper_parts, String.data_append, List.mem_append, not_or]
    refine ⟨⟨⟨by decide, not_mem_intercalate (by decide) ?_⟩, by decide⟩, hret⟩
    simp only [List.mem_map]
    rintro _ ⟨p, hp, rfl⟩
    simpa [String.data_append, (is_identifier_data (hparams p hp).1).1] using (hparams p hp).2
  refine ⟨statement_line_of_parts ⟨'r', _, rfl, by decide⟩ ?_ (by decide) (by decide), houter,
    statement_line_of_parts ⟨'r', _, rfl, by decide⟩ ?_ (by decide) (by decide)⟩
  · simpa [String.data_append, hargs] using hret
  · have hw : '\n' ∉ (make_wrapper_parts tensor_name sig).wrapped_return_type_name.data :=
      wrapped_type_name_single_line _ _
    have hn : '\n' ∉ (make_wrapper_parts tensor_name sig).name.data := (is_identifier_data hname).1
    simp [String.data_append, hwargs, hw, hn]

/-- With two parameters or more, the generated source does not compile. -/
theorem make_wrapper_parts_compiles_eq_false (hname : is_identifier sig.name)
    (hparams : ∀ p ∈ sig.params, is_identifier p.1 ∧ '\n' ∉ (type_name tensor_name p.2).data)
    (hlen : 2 ≤ sig.params.length) :
    compiles (make_wrapper_parts tensor_name sig).source = false := by
  obtain ⟨ls, hcode, hls_len, hls⟩ := (make_wrapper_parts_codes tensor_name sig hparams).2
  obtain _ | ⟨l₁, _ | ⟨l₂, ls⟩⟩ := ls
  case nil | cons.nil => simp at hls_len; omega
  rw [List.forall_mem_cons, List.forall_mem_cons] at hls
  exact (make_wrapper_parts tensor_name sig).compiles_eq_false
    (make_wrapper_parts_header tensor_name sig hname fun p hp => (hparams p hp).1) hcode
    hls.1 hls.2.1 hls.2.2

/-- A block of at most one statement, as joined by `make_wrapper`. -/
theorem at_most_one_statement {u : String} {ls : List (List Char)}
    (hu : u.data = (ls.map (· ++ ['\n'])).flatten) (hlen : ls.length ≤ 1)
    (hls : ∀ l ∈ ls, StatementLine l) : AtMostOneStatement u.data := by
  match ls, hlen with
  | [], _ => exact .inl (by simpa using hu)
  | [l], _ => exact .inr ⟨l, by simpa using hu, hls l (List.mem_singleton_self l)⟩

/-- With identifiers for its names and type names on one line, the generated source compiles
exactly when the function has at most one parameter. -/
theorem make_wrapper_parts_compiles (hname : is_identifier sig.name)
    (hparams : ∀ p ∈ sig.params, is_identifier p.1 ∧ '\n' ∉ (type_name tensor_name p.2).data)
    (hret : '\n' ∉ (type_name tensor_name sig.ret).data) :
    compiles (make_wrapper_parts tensor_name sig).source = decide (sig.params.length ≤ 1) := by
  have hheader := make_wrapper_parts_header tensor_name sig hname fun p hp => (hparams p hp).1
  obtain ⟨⟨ws, hw, hws_len, hws⟩, ⟨us, hu, hus_len, hus⟩⟩ :=
    make_wrapper_parts_codes tensor_name sig hparams
  by_cases hlen : sig.params.length ≤ 1
  · obtain ⟨hresult, houter, hresult_⟩ := make_wrapper_parts_lines tensor_name sig hname hparams hret
    have hresult_code := wrap_unwrap_statement_lines tensor_name "result" sig.ret (by decide) hret
    rw [decide_eq_true hlen]
    exact (make_wrapper_parts tensor_name sig).compiles_eq_true hheader
      (at_most_one_statement hu (hus_len ▸ hlen) hus) hresult
      (let ⟨l, h, hl⟩ := hresult_code.1; .inr ⟨l, h, hl⟩) houter
      (at_most_one_statement hw (hws_len ▸ hlen) hws) hresult_
      (let ⟨l, h, hl⟩ := hresult_code.2; .inr ⟨l, h, hl⟩)
  · rw [decide_eq_false hlen]
    exact make_wrapper_parts_compiles_eq_false tensor_name sig hname hparams (by omega)

end MakeWrapperParts

/-- The inner function's annotations always resolve: a wrapped type is a builtin, a
`torch.Tensor`, or a `tuple` of them. -/
theorem wrapped_type_name_resolves (tensor_name : String) (t : ArgType) :
    resolves exec_globals (wrapped_type_name tensor_name t) = true := by
  cases t <;> simp only [wrapped_type_name, type_name] <;> decide

/-- The source runs exactly when the outer signature's annotations start with bound names. -/
theorem exec_source_eq_ok_iff (tensor_name : String) (sig : Signature) :
    exec_source tensor_name sig = .ok () ↔ ∀ t ∈ sig.params.map Prod.snd ++ [sig.ret],
      resolves (sig.name :: exec_globals) (type_name tensor_name t) = true := by
  have hinner : (sig.params.map Prod.snd ++ [sig.ret]).all
      (resolves exec_globals <| wrapped_type_name tensor_name ·) = true :=
    List.all_eq_true.mpr fun t _ => wrapped_type_name_resolves tensor_name t
  simp only [exec_source, hinner, Bool.true_and, ← List.all_eq_true]
  split_ifs with h <;> simp [h]

/-- `torch_op` returns the wrapper exactly when its source parses, runs and registers. -/
theorem torch_op_eq_ok (tensor_name : String) (register_op : Signature → Except String Unit)
    (sig : Signature) :
    torch_op tensor_name register_op sig = .ok (make_wrapper_parts tensor_name sig).source ↔
      compiles (make_wrapper_parts tensor_name sig).source = true ∧
        exec_source tensor_name sig = .ok () ∧ register_op sig = .ok () := by
  simp only [torch_op]
  cases compiles (make_wrapper_parts tensor_name sig).source <;>
    cases exec_source tensor_name sig <;> cases register_op sig <;> simp [ok_bind, error_bind]

/-- `torch_op` raises for every function of two parameters or more: the unwrapping statements
are spliced after one indentation, so the second one closes the inner function and the line
after them is indented again. -/
theorem torch_op_raises_of_two_params (tensor_name : String)
    (register_op : Signature → Except String Unit) (sig : Signature)
    (hname : is_identifier sig.name)
    (hparams : ∀ p ∈ sig.params, is_identifier p.1 ∧ '\n' ∉ (type_name tensor_name p.2).data)
    (hlen : 2 ≤ sig.params.length) :
    torch_op tensor_name register_op sig = .error ("RuntimeError: Failed to compile wrapper for " ++
      sig.name ++ ". Generated code: \n```\n" ++ (make_wrapper_parts tensor_name sig).source ++
      "```") := by
  simp only [torch_op, make_wrapper_parts_compiles_eq_false tensor_name sig hname hparams hlen]
  rfl

/-- A function `f(a: int, b: int) -> int`: `torch_op` raises, whatever `register_op` does. -/
theorem torch_op_raises_of_two_params_int :
    torch_op "Tensor" (fun _ => .ok ()) ⟨"f", [("a", .int), ("b", .int)], .int⟩ =
      .error ("RuntimeError: Failed to compile wrapper for " ++ "f" ++ ". Generated code: \n```\n" ++
        (make_wrapper_parts "Tensor" ⟨"f", [("a", .int), ("b", .int)], .int⟩).source ++ "```") :=
  torch_op_raises_of_two_params "Tensor" (fun _ => .ok ()) ⟨"f", [("a", .int), ("b", .int)], .int⟩
    (by decide) (by decide) (by decide)

end transformer_engine.sequential
