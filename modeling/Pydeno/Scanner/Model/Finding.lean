import Pydeno.Scanner.Model.Classes

/-!
# Rules, policies and findings

What `check_source` is asked and what it answers: the host's
`SourcePolicy`, the options of the usability rules, and the findings with
their rule, message, position and severity. Names and messages are code
points, since a Python `str` may hold a lone surrogate. The size limit of
a policy is checked before either scanner runs and is left out.
-/

namespace Pydeno.Scanner

/-- The rules a finding can name: a `SourcePolicy`'s, then the usability
rules. -/
inductive Rule where
  | forbiddenIdentifier | forbiddenGlobal | forbiddenDynamicImport | forbiddenEval
  | forbiddenStringTimer | forbiddenFunctionConstructor | forbiddenWebassembly
  | forbiddenComputedGlobalAccess
  | globalAlias | proto | constructorConstructor | staticExport | dynamicImport | staticImport
  | require | fetch | xhr | websocket | process | deno | childProcess | eval
  deriving DecidableEq, Repr

/-- How much a finding matters: only an error makes the result not `ok`. -/
inductive Severity where
  | error | warning | info
  deriving DecidableEq, Repr

/-- One finding, at a 1-based line and column. -/
structure Finding where
  rule : Rule
  message : Text
  line : ℕ
  column : ℕ
  severity : Severity
  deriving DecidableEq, Repr

/-- The host's rules. The two sets of names are given as the caller lists
them. -/
structure Policy where
  forbiddenIdentifiers : List Text
  forbiddenGlobals : List Text
  forbidDynamicImport : Bool
  forbidEval : Bool
  forbidFunction : Bool
  forbidWebassembly : Bool
  includePreflightRules : Bool
  forbidComputedGlobalAccess : Bool
  ignoreStringsAndComments : Bool

/-- `check_source`'s options. -/
structure Options where
  allowImport : Bool
  allowDynamicImport : Bool
  reportEval : Bool

/-- Most findings one reading of the text lists. -/
def MAX_POLICY_FINDINGS : ℕ := 1000

/-- `POLICY_MESSAGES[rule].format(name=name)`. -/
def policyMessage (rule : Rule) (name : Text) : Text :=
  match rule with
  | .forbiddenIdentifier =>
      pts "`" ++ name ++ pts "` is not allowed here. Rewrite the code without it."
  | .forbiddenGlobal =>
      pts "The global `" ++ name ++ pts "` is not allowed here. Rewrite the code without it."
  | .forbiddenDynamicImport =>
      pts "import(...) is not allowed here. Use only the functions you were given."
  | .forbiddenEval =>
      pts ("eval is not allowed here. Write the code directly instead of building it from " ++
        "strings.")
  | .forbiddenStringTimer =>
      name ++ pts (" with a string argument compiles that string, which is not allowed here. " ++
        "Pass a function instead.")
  | .forbiddenFunctionConstructor =>
      pts ("The Function constructor is not allowed here. Write the code directly instead of " ++
        "building it from strings.")
  | .forbiddenWebassembly =>
      pts "WebAssembly is not allowed here. Write the computation in JavaScript."
  | .forbiddenComputedGlobalAccess =>
      pts "Looking up a global by a computed name is not allowed here. Use the name directly."
  | _ => []

/-- `_NAMES`: an identifier, its rule, the character that must follow it
(if any), and the message. -/
structure NameRule where
  name : Text
  rule : Rule
  needs : Option ℕ
  message : Text

/-- The table `_NAMES`, in its order. -/
def NAMES : List NameRule := [
  ⟨pts "require", .require, some (cp '('),
    pts ("require() does not exist in the sandbox; modules are provided by the host " ++
      "(add_static_module or a resolver), not loaded from disk.")⟩,
  ⟨pts "fetch", .fetch, some (cp '('),
    pts ("fetch() does not exist in the sandbox (no network); bind a host function that " ++
      "does the request.")⟩,
  ⟨pts "XMLHttpRequest", .xhr, none,
    pts "XMLHttpRequest does not exist in the sandbox (no network); bind a host function."⟩,
  ⟨pts "WebSocket", .websocket, none,
    pts "WebSocket does not exist in the sandbox (no network); bind a host function."⟩,
  ⟨pts "process", .process, some (cp '.'),
    pts ("process is Node.js, not part of the sandbox; pass values in as arguments or " ++
      "bindings.")⟩,
  ⟨pts "Deno", .deno, some (cp '.'),
    pts "The Deno namespace is not exposed to guest code; bind what the guest needs."⟩,
  ⟨pts "child_process", .childProcess, none,
    pts "child_process does not exist in the sandbox; guests cannot start processes."⟩]

/-- The names of the global object, in the order both scanners index them. -/
def GLOBALS : List Text := [pts "globalThis", pts "self", pts "window", pts "global"]

/-- The two timers that compile a string argument. -/
def TIMERS : List Text := [pts "setTimeout", pts "setInterval"]

/-! ## The fixed texts of the usability rules -/

/-- The message of `__proto__` as a string key. -/
def protoStringMessage : Text := pts "'__proto__' is a prototype-pollution vector."

/-- The message of `__proto__` as a name. -/
def protoNameMessage : Text := pts "__proto__ is a prototype-pollution vector."

def constructorMessage : Text :=
  pts ".constructor.constructor reaches the Function constructor."

def exportMessage : Text :=
  pts ("export statements are for modules; evaluate plain scripts, or use " ++
    "eval_module and allow_import=True.")

def dynamicImportMessage : Text :=
  pts ("import(...) loads modules at run time, which the sandbox does not allow " ++
    "unless the host registered them.")

def importMetaMessage : Text := pts "import.meta is only available in modules."

def importMessage : Text :=
  pts ("import statements are for modules; evaluate plain scripts, or use " ++
    "eval_module and allow_import=True.")

def evalMessage : Text :=
  pts ("eval() compiles strings at run time: hard to review, and an EvalError " ++
    "in a runtime started with strict_eval=True.")

def newFunctionMessage : Text :=
  pts ("new Function(...) compiles strings at run time: hard to review, and an " ++
    "EvalError in a runtime started with strict_eval=True.")

/-- `f"{base}[{name!r}] reaches {name}, which does not exist in the sandbox."`;
`name` is one of `NAMES`, whose `repr` is the name in single quotes. -/
def aliasMessage (base name : Text) : Text :=
  base ++ pts "['" ++ name ++ pts "'] reaches " ++ name ++
    pts ", which does not exist in the sandbox."

end Pydeno.Scanner
