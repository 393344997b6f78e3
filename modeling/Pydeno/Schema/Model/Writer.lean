import Pydeno.Lib.Dict
import Pydeno.Schema.Model.Json
/-!
# The writer of TypeScript declarations

`_DtsWriter` of `_schema.py` and `schema_declarations`, which runs it over the
schemas of some tools. The text of a schema is put together from the texts of its
parts; the depth that is left bounds the recursion, as `_MAX_DEPTH` does.

A declaration keeps the schema it was first registered with and the dictionary
that the references in it resolve through. That dictionary is still being filled
then: a declaration has the number of its `register` call, and the dictionaries
are looked up by that number.
-/

namespace Pydeno.Schema

open Wire (ascii)

/-! ## Parts of types -/

/-- The first occurrences. -/
def firsts (parts : List Text) : List Text :=
  parts.foldl (fun seen part => if part ∈ seen then seen else seen ++ [part]) []

/-- `_union` -/
def union (parts : List Text) : Text :=
  let seen := firsts parts
  if ascii "unknown" ∈ seen then ascii "unknown"
  else
    join (ascii " | ") <|
      if ascii "null" ∈ seen then seen.filter (· ≠ ascii "null") ++ [ascii "null"] else seen

/-- `_literal` -/
def literal : Json → Text
  | .null => ascii "null"
  | .bool true => ascii "true"
  | .bool false => ascii "false"
  | .int z => ascii (toString z)
  | .float repr => repr.text
  | .str t => dumpsString false t
  | _ => ascii "unknown"

/-- `t.startswith("{")` -/
def startsWithBrace (t : Text) : Bool := t.head? = some 0x7B

/-- `_paren` -/
def paren (t : Text) : Text :=
  if (contains t (ascii " | ") || contains t (ascii " & ")) && !startsWithBrace t then
    ascii "(" ++ t ++ ascii ")"
  else t

/-- `_arr` -/
def arr (element : Text) : Text := paren element ++ ascii "[]"

/-! ## Comments -/

/-- `_comment_lines` -/
def commentLines (parts : List Text) (indent : Text) : List Text :=
  let text := strip (replaceEnds (join [0x0A] (parts.filter (· ≠ []))))
  if text = [] then []
  else
    match splitlines text with
    | [line] =>
      if line.length ≤ 80 then [indent ++ ascii "/** " ++ line ++ ascii " */"]
      else
        [indent ++ ascii "/**", rstrip (indent ++ ascii " * " ++ line), indent ++ ascii " */"]
    | lines =>
      [indent ++ ascii "/**"] ++ lines.map (fun line => rstrip (indent ++ ascii " * " ++ line)) ++
        [indent ++ ascii " */"]

/-- The description of a schema. -/
def description (s : Fields) : List Text :=
  match get? s "description" with
  | some (.str t) => [strip t]
  | _ => []

/-- `_schema_doc` -/
def schemaDoc : Json → List Text
  | .dict s =>
    let format :=
      match get? s "format" with
      | some (.str t) => [ascii "@format " ++ t]
      | _ => []
    let default :=
      match get? s "default" with
      | some v =>
        let rendered := dumps false false v
        let rendered := if rendered.length > 80 then rendered.take 77 ++ ascii "..." else rendered
        [ascii "@default " ++ rendered]
      | none => []
    description s ++ format ++ default
  | _ => []

/-- A list that is there and is not empty. -/
def nonemptyList (s : Fields) (key : String) : Option (List Json) :=
  match get? s key with
  | some (.list (v :: rest)) => some (v :: rest)
  | _ => none

/-- `s.get(key) is not None` -/
def present (s : Fields) (key : String) : Option Json :=
  match get? s key with
  | some .null => none
  | v => v

/-- `_TS_IDENT.fullmatch(key)` -/
def isIdent (key : Text) : Bool :=
  let first := fun c => (0x41 ≤ c && c ≤ 0x5A) || (0x61 ≤ c && c ≤ 0x7A) || c = 0x5F || c = 0x24
  match key with
  | [] => false
  | c :: rest => first c && rest.all fun c => first c || (0x30 ≤ c && c ≤ 0x39)

/-- The items a tuple begins with and the items that follow: tuples of earlier
drafts have them in other places. -/
def tupleOf (s : Fields) : Option (List Json) × Option Json :=
  match present s "items" with
  | some (.list items) => (some items, present s "additionalItems")
  | rest =>
    (match present s "prefixItems" with
      | some (.list items) => some items
      | _ => none, rest)

/-- The properties that are named. -/
def props (s : Fields) : Fields :=
  match get? s "properties" with
  | some (.dict props) => props
  | _ => []

/-- `additionalProperties`, where it is a schema with keys. -/
def extraSchema (s : Fields) : Option Json :=
  match get? s "additionalProperties" with
  | some (.dict extra) => some (.dict extra)
  | _ => none

/-- The schemas of `patternProperties`. -/
def patternSchemas (s : Fields) : List Json :=
  match get? s "patternProperties" with
  | some (.dict patterns) => patterns.map Prod.snd
  | _ => []

/-- Whether a property is required. -/
def isRequired (s : Fields) (key : Text) : Bool :=
  match get? s "required" with
  | some (.list names) =>
    names.any fun
      | .str t => t = key
      | _ => false
  | _ => false

section

variable (sub : Text → Json → Text) (indent : Text)

/-- The last element of a tuple, for the items that follow. -/
def restElement : Option Json → List Text
  | none => []
  | some (.bool false) => []
  | some rest => [ascii "..." ++ arr (sub indent rest)]

/-- `_array` -/
def array (s : Fields) : Text :=
  match tupleOf s with
  | (some elements, rest) =>
    ascii "[" ++ join (ascii ", ") (elements.map (sub indent) ++ restElement sub indent rest) ++
      ascii "]"
  | (none, none) => ascii "unknown[]"
  | (none, some (.bool true)) => ascii "unknown[]"
  | (none, some rest) => arr (sub indent rest)

/-- The type of the properties that are not named. -/
def indexType (s : Fields) : Option Text :=
  match extraSchema s with
  | some extra => some (sub (indent ++ ascii "  ") extra)
  | none =>
    match patternSchemas s with
    | [] => none
    | patterns => some (union (patterns.map (sub (indent ++ ascii "  "))))

/-- The lines of one property. -/
def property (s : Fields) (e : Text × Json) : List Text :=
  let inner := indent ++ ascii "  "
  let shown := if isIdent e.1 then e.1 else dumpsString false e.1
  let optional := if isRequired s e.1 then [] else ascii "?"
  commentLines (schemaDoc e.2) inner ++
    [inner ++ shown ++ optional ++ ascii ": " ++ sub inner e.2 ++ ascii ";"]

/-- `_object` -/
def object (s : Fields) : Text :=
  let index := indexType sub indent s
  if props s = [] then
    match index with
    | some t => ascii "Record<string, " ++ t ++ ascii ">"
    | none =>
      match get? s "additionalProperties" with
      | some (.bool false) => ascii "\x7b\x7d"
      | _ => ascii "Record<string, unknown>"
  else
    let last :=
      match index with
      | some t => [indent ++ ascii "  " ++ ascii "[key: string]: " ++ t ++ ascii ";"]
      | none => []
    join [0x0A] ([ascii "\x7b"] ++ (props s).flatMap (property sub indent s) ++ last ++
      [indent ++ ascii "\x7d"])

/-- What `_ts` gives for a type that is named. -/
def namedType (s : Fields) (name : Text) : Text :=
  if name = ascii "string" then ascii "string"
  else if name = ascii "integer" ∨ name = ascii "number" then ascii "number"
  else if name = ascii "boolean" then ascii "boolean"
  else if name = ascii "null" then ascii "null"
  else if name = ascii "array" then array sub indent s
  else if name = ascii "object" then object sub indent s
  else ascii "unknown"

/-- The type of a schema that names none. -/
def inferredType (s : Fields) : Text :=
  if (get? s "properties").isSome || (get? s "additionalProperties").isSome ||
      (get? s "patternProperties").isSome then
    object sub indent s
  else if (get? s "items").isSome || (get? s "prefixItems").isSome then array sub indent s
  else ascii "unknown"

mutual

/-- `_ts` from its `type` on. A list of types is the union of what `_ts` gives
for each. -/
def typed (s : Fields) : Json → Text
  | .list types => union (typedAll s types)
  | .null => inferredType sub indent s
  | .str name => namedType sub indent s name
  | _ => ascii "unknown"

def typedAll (s : Fields) : List Json → List Text
  | [] => []
  | t :: rest => typed s t :: typedAll s rest

end

/-- The `allOf` branch: parts that say nothing are left out. -/
def allOf (parts : List Text) : Text :=
  match (firsts parts).filter (· ≠ ascii "unknown") with
  | [] => ascii "unknown"
  | [part] => part
  | parts => join (ascii " & ") (parts.map paren)

/-- `_ts` -/
def form (refmap : Text → Option Text) (s : Fields) : Text :=
  match present s "$ref" with
  | some (.str ref) => (refmap ref).getD (ascii "unknown")
  | some _ => ascii "unknown"
  | none =>
    match get? s "const" with
    | some v => literal v
    | none =>
      match nonemptyList s "enum" with
      | some values => union (values.map literal)
      | none =>
        match (nonemptyList s "anyOf").or (nonemptyList s "oneOf") with
        | some options => union (options.map (sub indent))
        | none =>
          match nonemptyList s "allOf" with
          | some parts => allOf (parts.map (sub indent))
          | none => typed sub indent s ((get? s "type").getD .null)

end

/-- **`ts`**, with the depth that is left. -/
def ts (refmap : Text → Option Text) : ℕ → Text → Json → Text
  | 0, _, _ => ascii "unknown"
  | left + 1, indent, schema =>
    match schema with
    | .bool false => ascii "never"
    | .dict s =>
      let rendered := form (ts refmap left) indent refmap s
      match get? s "nullable" with
      | some (.bool true) => union [rendered, ascii "null"]
      | _ => rendered
    | _ => ascii "unknown"

/-- `_MAX_DEPTH` -/
def maxDepth : ℕ := 24

/-- `_JS_RESERVED` -/
def jsReserved : List Text :=
  ["break", "case", "catch", "class", "const", "continue", "debugger", "default", "delete", "do",
    "else", "enum", "export", "extends", "false", "finally", "for", "function", "if", "import",
    "in", "instanceof", "new", "null", "return", "super", "switch", "this", "throw", "true", "try",
    "typeof", "var", "void", "while", "with", "yield", "let", "static", "implements", "interface",
    "package", "private", "protected", "public", "await", "arguments", "eval"].map ascii

/-- `_TS_BUILTIN_TYPES` -/
def tsBuiltinTypes : List Text :=
  ["any", "unknown", "never", "object", "string", "number", "boolean", "symbol", "bigint",
    "undefined", "null", "void", "Array", "Record", "Promise", "Set", "Map", "Date",
    "Uint8Array"].map ascii

/-- `_type_name` -/
def typeName (name : Text) : Text :=
  let isWord := fun c =>
    (0x41 ≤ c && c ≤ 0x5A) || (0x61 ≤ c && c ≤ 0x7A) || (0x30 ≤ c && c ≤ 0x39) || c = 0x5F
  let ident := name.map fun c => if isWord c then c else 0x5F
  let ident := if ident = [] then ascii "_" else ident
  let ident := if ident.head?.any (fun c => 0x30 ≤ c && c ≤ 0x39) then 0x5F :: ident else ident
  if ident ∈ jsReserved ∨ ident ∈ tsBuiltinTypes then ident ++ ascii "_" else ident

/-! ## Registers -/

/-- A declaration: its text in JSON, its schema, and the number of the `register`
call whose dictionary its references resolve through. -/
structure Decl where
  canonical : Text
  schema : Json
  root : ℕ

/-- **`_DtsWriter`**: its declarations, and the dictionaries that `register`
returned. -/
structure Writer where
  decls : Dict Text Decl
  refmaps : List (Dict Text Text)

def Writer.new : Writer := ⟨Dict.empty, []⟩

/-- The candidates for a name. -/
def candidate (base : Text) (n : ℕ) : Text :=
  if n = 0 then base else base ++ ascii "_" ++ ascii (toString (n + 1))

/-- The loop of `register` for a free name or one with the same text, with the
rounds that are left. -/
def slotFrom (decls : Dict Text Decl) (base text : Text) : ℕ → ℕ → Text
  | 0, n => candidate base n
  | rounds + 1, n =>
    match decls.get? (candidate base n) with
    | some d => if d.canonical ≠ text then slotFrom decls base text rounds (n + 1) else candidate base n
    | none => candidate base n

/-- The name a definition gets. -/
def slot (decls : Dict Text Decl) (base text : Text) : Text :=
  slotFrom decls base text decls.entries.length 0

/-- The definitions of a schema under one key, with their references. -/
def definitionsAt (s : Fields) (key : String) : List (Text × Text × Json) :=
  match get? s key with
  | some (.dict defs) => defs.map fun e => (ascii "#/" ++ ascii key ++ ascii "/" ++ e.1, e.1, e.2)
  | _ => []

/-- The definitions of a schema: reference, name and schema. -/
def found : Json → List (Text × Text × Json)
  | .dict s => definitionsAt s "$defs" ++ definitionsAt s "definitions"
  | _ => []

/-- One round of `register`. -/
def registerOne (root : ℕ) (state : Dict Text Decl × Dict Text Text)
    (e : Text × Text × Json) : Dict Text Decl × Dict Text Text :=
  let (ref, name, schema) := e
  let text := canonical schema
  let ts := slot state.1 (typeName name) text
  (if (state.1.get? ts).isSome then state.1 else state.1.set ts ⟨text, schema, root⟩,
    state.2.set ref ts)

/-- **`register`.** -/
def Writer.register (w : Writer) (schema : Json) : Writer :=
  let (decls, refmap) := (found schema).foldl (registerOne w.refmaps.length) (w.decls, Dict.empty)
  ⟨decls, w.refmaps ++ [refmap]⟩

/-- What the references of a `register` call resolve to. -/
def Writer.resolve (w : Writer) (root : ℕ) (ref : Text) : Option Text :=
  w.refmaps[root]?.bind fun refmap => refmap.get? ref

/-- The schemas of a tool. -/
structure Tool where
  params : Json
  returns : Option Json

/-- The schemas in the order in which they are registered. -/
def roots (tools : List Tool) : List Json :=
  tools.flatMap fun tool => [tool.params, tool.returns.getD .null]

/-- **All schemas are registered.** -/
def registerAll (tools : List Tool) : Writer := (roots tools).foldl Writer.register Writer.new

end Pydeno.Schema
