/-! The parts of the package with the names that can be asked of each.

A part hands some of its names on to the package.  Every other name of the package that it defines
or uses can be asked of it, too. -/

namespace FinalParams
namespace Package

structure Part where
  name : String
  /-- The names that the package offers as its own, in the order in which it lists them. -/
  handedOn : List String := []
  /-- All other names, in alphabetical order. -/
  others : List String
  deriving DecidableEq, Repr

def nodes : Part where
  name := "ast_nodes"
  handedOn := ["Loc", "Identifier", "Parameter", "CallableUnit", "CompilationUnit", "Assignment",
    "Update", "NameRef", "Block", "Other"]
  others := ["Node", "__all__", "block", "iter_children", "params", "render"]

def scope : Part where
  name := "scope"
  handedOn := ["extract_watched_names"]
  others := ["CallableUnit", "EMPTY", "Identifier", "WatchedNames", "__all__"]

def diagnostics : Part where
  name := "diagnostics"
  handedOn := ["DiagnosticSeverity", "SourceLocation", "Diagnostic", "DiagnosticSink",
    "CollectingSink", "Suppression", "SuppressionManager"]
  others := ["Loc", "WILDCARD", "__all__", "_file_matches"]

def scanner : Part where
  name := "scanner"
  handedOn := ["Violation", "ScanOptions", "ViolationScanner", "iter_violations",
    "find_violations"]
  others := ["Assignment", "CallableUnit", "CompilationUnit", "DiagnosticSeverity",
    "DiagnosticSink", "Identifier", "Loc", "MESSAGE_PREFIX", "NameRef", "Node", "SourceLocation",
    "Update", "WatchedNames", "__all__", "_log", "_mutated_param", "extract_watched_names",
    "iter_children", "render"]

def frontend : Part where
  name := "cppcheck_frontend"
  handedOn := ["lower_configuration"]
  others := ["Assignment", "Block", "CALLABLE_SCOPE_TYPES", "CallableUnit", "CompilationUnit",
    "Identifier", "Loc", "NameRef", "Node", "Other", "Parameter", "Update", "__all__", "_expr_kind",
    "_is_statement_root", "_loc", "_log", "_lower_token", "_operands", "_owned_children",
    "_unit_kind", "_unit_name", "expr_to_string", "function_parameters", "is_assignment",
    "is_callable_scope", "is_function_call", "is_increment_decrement", "is_name_ref",
    "is_prefix_update", "iter_ast_children", "lower_callable", "lower_expression",
    "lower_parameter", "owner_of", "scope_parameters", "tok_column", "tok_file", "tok_line",
    "tok_next", "tok_op1", "tok_op2", "tok_parent", "tok_scope", "tok_str", "tok_var_id"]

def checkers : Part where
  name := "checkers"
  handedOn := ["EffectivelyFinalChecker", "CheckerRunner", "run_addon"]
  others := ["Checker", "CheckerContext", "CheckerRegistry", "CheckerRunResults", "CheckerSink",
    "CompilationUnit", "Diagnostic", "DiagnosticSeverity", "DumpLoadError", "ERROR_ID",
    "EXIT_INFRA", "EXIT_OK", "EXIT_VIOLATION", "EffectivelyFinalError", "ErrorCode",
    "INTERNAL_ERROR_ID", "ScanOptions", "SourceLocation", "SuppressionManager", "UNIT_ANALYSIS",
    "ViolationScanner", "_CLI_HANDLER_FLAG", "_DEFAULT_REGISTRY", "_DedupKey", "__all__",
    "_configure_logging", "_dedup_key", "_list_checkers", "_log", "_main", "_source_path", "_write",
    "build_parser", "load_dump", "lower_configuration", "main"]

def errors : Part where
  name := "errors"
  others := ["DumpLoadError", "EffectivelyFinalError", "ErrorCode", "__all__"]

def tokens : Part where
  name := "token_helpers"
  others := ["ASSIGNMENT_OPS", "Token", "UPDATE_OPS", "_CALL_LIKE_KEYWORDS", "_PREFIX_OPERATORS",
    "__all__", "_as_int", "_binary_text", "_get", "_unary_text", "call_arguments", "expr_to_string",
    "is_assignment", "is_function_call", "is_increment_decrement", "is_name_ref",
    "is_prefix_update", "iter_ast_children", "tok_column", "tok_file", "tok_line", "tok_next",
    "tok_op1", "tok_op2", "tok_parent", "tok_scope", "tok_str", "tok_var_id"]

def entry : Part where
  name := "__main__"
  others := ["_main"]

def parts : List Part :=
  [nodes, scope, diagnostics, scanner, frontend, checkers, errors, tokens, entry]

namespace Part

def offers (p : Part) (name : String) : Bool :=
  p.handedOn.contains name || p.others.contains name

/-- The first of these names that the part does not have. -/
def missing? (p : Part) (names : List String) : Option String := names.find? fun n => !p.offers n

theorem offers_of_mem_handedOn {p : Part} {name : String} (h : name ∈ p.handedOn) :
    p.offers name = true := by
  simp [offers, h]

theorem missing?_eq_none_iff {p : Part} {names : List String} :
    p.missing? names = none ↔ ∀ n ∈ names, p.offers n = true := by
  simp [missing?]

end Part

end Package
end FinalParams
