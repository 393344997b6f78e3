import Pydeno.Scanner.Model.ReferenceText
import Pydeno.Scanner.Model.NativeTokens

/-!
# The reference tokenizer

`_tokenize`, `check_source` and `_apply_policy` of
`_preflight_reference.py`: the whole token list is built first, with the
offsets of the braces and parentheses that decide what a later `/` is kept
in two sets, and then the usability rules and the policy rules run over it
one after the other.
-/

namespace Pydeno.Scanner.Reference

/-! ## Words -/

/-- `_REGEX_AFTER_WORD`. -/
def REGEX_AFTER_WORD : List Text :=
  [pts "return", pts "typeof", pts "instanceof", pts "in", pts "of", pts "new", pts "delete",
    pts "void", pts "throw", pts "case", pts "do", pts "else", pts "yield", pts "await"]

/-- `_POLICY_REGEX_AFTER_WORD`. -/
def POLICY_REGEX_AFTER_WORD : List Text :=
  [pts "return", pts "typeof", pts "instanceof", pts "in", pts "new", pts "delete", pts "void",
    pts "throw", pts "case", pts "do", pts "else"]

/-- `_CONTROL_HEADS`. -/
def CONTROL_HEADS : List Text := [pts "if", pts "while", pts "for", pts "with"]

/-- `_HEX`. -/
def HEX : Text := pts "0123456789abcdefABCDEF"

def MAX_BRACE_DIGITS : ℕ := 8

/-- `_LINE_ENDS`. -/
def LINE_ENDS : Text := [cp '\n', cp '\r', 0x2028, 0x2029]

/-- `_ACCESS`. -/
def ACCESS : List Text := [pts ".", pts "?."]

/-! ## Escapes -/

/-- `_unicode_escape`, with `none` for `(None, j)`. -/
def unicodeEscape (src : Text) (j : ℕ) : Option (ℕ × ℕ) :=
  if PyStr.startsWith src (pts "\\u\x7b") j then
    let stop := PyStr.find src (pts "\x7d") (j + 3) (j + 3 + MAX_BRACE_DIGITS + 1)
    let digits := if 0 < stop then PyStr.slice src ((j + 3 : ℕ) : ℤ) stop else []
    if digits ≠ [] ∧ digits.length ≤ 8 ∧ ∀ c ∈ digits, c ∈ HEX then
      let value := int 16 digits
      if value ≤ 0x10FFFF then some (value, (stop + 1).toNat) else none
    else none
  else
    let digits := PyStr.slice src ((j + 2 : ℕ) : ℤ) ((j + 6 : ℕ) : ℤ)
    if PyStr.startsWith src (pts "\\u") j ∧ digits.length = 4 ∧ ∀ c ∈ digits, c ∈ HEX then
      some (int 16 digits, j + 6)
    else none

/-- The loop of `_cooked`. -/
def cookedLoop (raw : Text) : ℕ → ℕ → Text → Text
  | 0, _, out => out
  | fuel + 1, i, out =>
      if i < raw.length then
        let ch := raw.getD i 0
        if ch ≠ cp '\\' ∨ i + 1 ≥ raw.length then cookedLoop raw fuel (i + 1) (out ++ [ch])
        else
          let nxt := raw.getD (i + 1) 0
          let hex2 := PyStr.slice raw ((i + 2 : ℕ) : ℤ) ((i + 4 : ℕ) : ℤ)
          let simple := cookedLoop raw fuel (i + 2) (out ++ [simpleEscape nxt])
          if nxt = cp 'u' then
            match unicodeEscape raw i with
            | some (c, stop) => cookedLoop raw fuel stop (out ++ [c])
            | none => simple
          else if nxt = cp 'x' ∧ hex2.length = 2 ∧ ∀ c ∈ hex2, c ∈ HEX then
            cookedLoop raw fuel (i + 4) (out ++ [int 16 hex2])
          else if nxt ∈ LINE_ENDS then
            cookedLoop raw fuel (i + if PyStr.startsWith raw (pts "\\\r\n") i then 3 else 2) out
          else simple
      else out

/-- `_cooked`. -/
def cooked (raw : Text) : Text :=
  if cp '\\' ∉ raw then raw else cookedLoop raw raw.length 0 []

/-! ## The tokenizer -/

/-- The local variables of `_tokenize`. -/
structure State where
  i : ℕ
  /-- The open braces, the innermost first. -/
  stack : List Brace
  /-- Whether each open `(` heads a control statement, the innermost first. -/
  parens : List Bool
  noRegexBefore : ℕ
  toks : List Token
  /-- The offsets of the braces that closed an object literal. -/
  closesExpression : List ℕ
  /-- The offsets of the parentheses that closed a control head. -/
  closesControl : List ℕ

/-- `toks[len(toks) - 1 - back]`. -/
def fromEnd (toks : List Token) (back : ℕ) : Option Token :=
  if back < toks.length then toks[toks.length - 1 - back]? else none

/-- `after_access`. -/
def afterAccess (toks : List Token) (k : ℤ) : Bool :=
  decide (0 < k) && (toks[(k - 1).toNat]?).any fun t => t.kind = .punct ∧ t.text ∈ ACCESS

/-- `regex_allowed`. -/
def regexAllowed (policy : Bool) (s : State) : Bool :=
  match fromEnd s.toks 0 with
  | none => true
  | some tok =>
    if tok.kind ∈ [Kind.num, .str, .tpl, .re] then false
    else if tok.kind = .id then
      if ¬ policy then decide (tok.text ∈ REGEX_AFTER_WORD)
      else decide (tok.text ∈ POLICY_REGEX_AFTER_WORD) && !afterAccess s.toks ((s.toks.length : ℤ) - 1)
    else if policy ∧ PyStr.contains (pts "+-") tok.text ∧ 1 < s.toks.length ∧
        (fromEnd s.toks 1).any (fun p => p.text = tok.text ∧ (p.off : ℤ) = tok.off - 1) then
      false
    else if policy ∧ tok.text = pts "\x7d" then decide (tok.off ∉ s.closesExpression)
    else if policy ∧ tok.text = pts ")" then decide (tok.off ∈ s.closesControl)
    else decide (tok.text ∉ [pts ")", pts "]"])

/-- `expression_expected`. -/
def expressionExpected (s : State) : Bool :=
  match fromEnd s.toks 0 with
  | none => false
  | some tok =>
    if tok.kind = .id then
      decide (tok.text ∈ POLICY_REGEX_AFTER_WORD) && !afterAccess s.toks ((s.toks.length : ℤ) - 1)
    else if tok.kind ≠ .punct then false
    else if tok.text = pts ">" ∧ 1 < s.toks.length ∧
        (fromEnd s.toks 1).any (fun p => p.text = pts "=" ∧ (p.off : ℤ) = tok.off - 1) then
      false
    else PyStr.contains (pts "([,=:?!~+-*%&|^<>/") tok.text

/-- `scan_template`. -/
def scanTemplate (src : Text) : ℕ → ℕ → ℕ × Bool
  | 0, _ => (src.length, true)
  | fuel + 1, j =>
      if j < src.length then
        let ch := src.getD j 0
        if ch = cp '\\' then scanTemplate src fuel (j + 2)
        else if ch = cp '`' then (j + 1, true)
        else if ch = cp '$' ∧ PyStr.startsWith src (pts "$\x7b") j then (j + 2, false)
        else scanTemplate src fuel (j + 1)
      else (src.length, true)

/-- The loop over a string literal. -/
def stringEnd (src : Text) (quote : ℕ) : ℕ → ℕ → ℕ
  | 0, j => j
  | fuel + 1, j =>
      if j < src.length ∧ src.getD j 0 ≠ quote ∧ src.getD j 0 ∉ pts "\n\r" then
        stringEnd src quote fuel (j + if src.getD j 0 = cp '\\' then 2 else 1)
      else j

/-- The loop over a regular expression. -/
def regexEnd (src : Text) : ℕ → ℕ → Bool → ℕ
  | 0, j, _ => j
  | fuel + 1, j, inClass =>
      if j < src.length ∧ src.getD j 0 ∉ pts "\n\r" then
        let c := src.getD j 0
        if c = cp '\\' then regexEnd src fuel (j + 2) inClass
        else if c = cp '[' then regexEnd src fuel (j + 1) true
        else if c = cp ']' then regexEnd src fuel (j + 1) false
        else if c = cp '/' ∧ ¬ inClass then j
        else regexEnd src fuel (j + 1) inClass
      else j

/-- The loop over an identifier that may have escapes: its end and its text. -/
def identifierLoop (cls : Classes) (src : Text) : ℕ → ℕ → Text → ℕ × Text
  | 0, j, parts => (j, parts)
  | fuel + 1, j, parts =>
      if j < src.length then
        if cls.isIdChar (src.getD j 0) then
          identifierLoop cls src fuel (j + 1) (parts ++ [src.getD j 0])
        else
          match if src.getD j 0 = cp '\\' then unicodeEscape src j else none with
          | none => (j, parts)
          | some (decoded, stop) => identifierLoop cls src fuel stop (parts ++ [decoded])
      else (j, parts)

/-- `toks.append((kind, text, off))`. -/
def State.append (s : State) (kind : Kind) (text : Text) (off : ℕ) : State :=
  { s with toks := s.toks ++ [⟨kind, text, off⟩] }

/-- The white space between tokens. -/
def SPACING : Text :=
  [cp ' ', cp '\t', cp '\r', cp '\n', 0x0C, 0x0B, 0xA0, 0xFEFF, 0x2028, 0x2029]

/-- One round of `_tokenize`, at a character of the source. -/
def tokenizeStep (cls : Classes) (policy : Bool) (src : Text) (s : State) : State :=
  let n := src.length
  let i := s.i
  let ch := src.getD i 0
  if ch ∈ SPACING ∨ (policy ∧ cls.isSpace ch) then { s with i := i + 1 }
  else if PyStr.startsWith src (pts "//") i then
    { s with i := skipWhile (fun x => decide (x ∉ LINE_ENDS)) src i }
  else if PyStr.startsWith src (pts "/*") i then
    let stop := PyStr.find src (pts "*/") (i + 2) n
    { s with i := if stop < 0 then n else (stop + 2).toNat }
  else if ch ∈ pts "'\"" then
    let j := stringEnd src ch n (i + 1)
    { s.append .str (PyStr.slice src ((i + 1 : ℕ) : ℤ) j) i with i := min (j + 1) n }
  else if ch = cp '`' then
    let (j, closed) := scanTemplate src n (i + 1)
    let text := if policy ∧ closed then PyStr.slice src ((i + 1 : ℕ) : ℤ) ((j : ℤ) - 1) else []
    let s := s.append .tpl text i
    { s with stack := if closed then s.stack else .template :: s.stack, i := j }
  else if ch = cp '\x7b' then
    let brace := if policy ∧ expressionExpected s then Brace.object else Brace.block
    { s.append .punct [ch] i with stack := brace :: s.stack, i := i + 1 }
  else if ch = cp '\x7d' then
    if s.stack.head? = some .template then
      let (j, closed) := scanTemplate src n (i + 1)
      { s with stack := if closed then s.stack.tail else .template :: s.stack.tail, i := j }
    else
      { s.append .punct [ch] i with
        stack := s.stack.tail
        closesExpression :=
          if s.stack.head? = some .object then i :: s.closesExpression else s.closesExpression
        i := i + 1 }
  else if policy ∧ ch ∈ pts "()" then
    let head := (s.toks.length : ℤ) - 1
    let control := (fromEnd s.toks 0).any (fun t =>
      t.kind = .id ∧ t.text ∈ CONTROL_HEADS) && !afterAccess s.toks head
    { s.append .punct [ch] i with
      parens := if ch = cp '(' then control :: s.parens else s.parens.tail
      closesControl :=
        if ch ≠ cp '(' ∧ s.parens.head? = some true then i :: s.closesControl else s.closesControl
      i := i + 1 }
  else if ch = cp '/' ∧ i ≥ s.noRegexBefore ∧ regexAllowed policy s then
    let j := regexEnd src n (i + 1) false
    if j < n ∧ src.getD j 0 = cp '/' then
      { s.append .re [] i with i := skipWhile cls.isIdChar src (j + 1) }
    else { s.append .punct (pts "/") i with noRegexBefore := j, i := i + 1 }
  else if cls.isIdChar ch ∧ ¬ cls.isDigit ch ∧ ¬ policy then
    let j := skipWhile cls.isIdChar src (i + 1)
    { s.append .id (PyStr.slice src (i : ℤ) j) i with i := j }
  else if policy ∧ ((cls.isIdChar ch ∧ ¬ cls.isDigit ch) ∨ PyStr.startsWith src (pts "\\u") i) then
    let (j, parts) := identifierLoop cls src n i []
    if j = i then { s.append .punct [ch] i with i := i + 1 }
    else { s.append .id parts i with i := j }
  else if cls.isDigit ch ∨ (ch = cp '.' ∧ i + 1 < n ∧ cls.isDigit (src.getD (i + 1) 0)) then
    let j := skipWhile (fun x => cls.isIdChar x || decide (x = cp '.')) src (i + 1)
    { s.append .num (PyStr.slice src (i : ℤ) j) i with i := j }
  else if PyStr.startsWith src (pts "?.") i ∧ ¬ (i + 2 < n ∧ cls.isDigit (src.getD (i + 2) 0)) then
    { s.append .punct (pts "?.") i with i := i + 2 }
  else { s.append .punct [ch] i with i := i + 1 }

/-- **`_tokenize`**. -/
def tokenize (cls : Classes) (policy : Bool) (src : Text) : List Token :=
  (loop (fun s : State => s.i < src.length) (tokenizeStep cls policy src) src.length
    ⟨0, [], [], 0, [], [], []⟩).toks

/-! ## Rules -/

/-- `at`. -/
def tokAt (toks : List Token) (k : ℤ) : Option Token := if 0 ≤ k then toks[k.toNat]? else none

section

variable (tokAt : ℤ → Option Token)

/-- `prev is not None and prev[0] == _P and prev[1] in _ACCESS`. -/
def afterDotAt (k : ℤ) : Bool := (tokAt (k - 1)).any fun p => p.kind = .punct ∧ p.text ∈ ACCESS

/-- `at(k)` is one of the names of the global object. -/
def isGlobalAt (k : ℤ) : Bool := (tokAt k).any fun t => t.kind = .id ∧ t.text ∈ GLOBALS

/-- `at(k) is not None and at(k)[1] == s`. -/
def textAt (k : ℤ) (s : String) : Bool := (tokAt k).any fun t => t.text = pts s

/-- The usability rules of one token, as calls of `add`. -/
def usabilityRules (options : Options) (k : ℤ) (tok : Token) : List Added :=
  let text := tok.text
  let off := tok.off
  let afterDot := afterDotAt tokAt k
  let viaGlobal := afterDot && isGlobalAt tokAt (k - 2)
  if tok.kind = .str then
    (if textAt tokAt (k - 1) "[" ∧ isGlobalAt tokAt (k - 2) ∧ text ∈ NAMES.map NameRule.name then
      [⟨.globalAlias, aliasMessage (((tokAt (k - 2)).map Token.text).getD []) text, off, .error⟩]
     else []) ++
    (if text = pts "__proto__" then [⟨.proto, protoStringMessage, off, .warning⟩] else [])
  else if tok.kind ≠ .id then []
  else if afterDot ∧ ¬ viaGlobal then
    (if text = pts "constructor" then
      if (tokAt (k - 2)).any (fun p => p.kind = .id ∧ p.text = pts "constructor") then
        [⟨.constructorConstructor, constructorMessage, off, .warning⟩]
      else []
     else []) ++
    (if text = pts "__proto__" then [⟨.proto, protoNameMessage, off, .warning⟩] else [])
  else if text = pts "__proto__" then [⟨.proto, protoNameMessage, off, .warning⟩]
  else if text ∈ [pts "import", pts "export"] then
    if text = pts "export" then
      if ¬ options.allowImport then [⟨.staticExport, exportMessage, off, .error⟩] else []
    else if textAt tokAt (k + 1) "(" then
      if ¬ options.allowDynamicImport then [⟨.dynamicImport, dynamicImportMessage, off, .error⟩]
      else []
    else if textAt tokAt (k + 1) "." then
      if ¬ options.allowImport then [⟨.staticImport, importMetaMessage, off, .error⟩] else []
    else if ¬ options.allowImport then [⟨.staticImport, importMessage, off, .error⟩]
    else []
  else
    match NAMES.find? fun w => w.name = text with
    | some w =>
      if viaGlobal ∨ w.needs = none ∨
          (tokAt (k + 1)).any (fun t => t.text ∈ [w.needs.toList, pts "?."]) then
        if viaGlobal then [⟨.globalAlias, w.message, off, .error⟩]
        else [⟨w.rule, w.message, off, .error⟩]
      else []
    | none =>
      if text = pts "eval" ∧ options.reportEval then
        if textAt tokAt (k + 1) "(" then [⟨.eval, evalMessage, off, .info⟩] else []
      else if text = pts "Function" ∧ options.reportEval then
        if (tokAt (k - 1)).any (fun p => p.kind = .id ∧ p.text = pts "new") ∧
            textAt tokAt (k + 1) "(" then
          [⟨.eval, newFunctionMessage, off, .info⟩]
        else []
      else []

/-- `_GLOBAL_BASES`. -/
def GLOBAL_BASES : List Text := GLOBALS ++ [pts "this"]

/-- `_CONSTRUCTOR_BASES`. -/
def CONSTRUCTOR_BASES : List Text := [pts "constructor", pts "Function"]

/-- `_computed_global`. -/
def computedGlobal (k : ℤ) : Bool :=
  let baseAt :=
    if (tokAt (k - 1)).any fun b => b.kind = .punct ∧ b.text = pts "?." then k - 1 - 1 else k - 1
  match tokAt baseAt with
  | none => false
  | some base =>
    let literal :=
      (tokAt (k + 1)).any (fun key => key.kind ∈ [Kind.str, .tpl, .num]) &&
        (tokAt (k + 2)).any fun c => c.kind = .punct ∧ c.text = pts "]"
    if base.kind ≠ .id then false
    else if base.text ∈ GLOBAL_BASES then
      if afterDotAt tokAt baseAt then false else !literal
    else if base.text ∉ CONSTRUCTOR_BASES then false
    else !literal

/-- The name, `on_global` and `called` of `_apply_policy`, or `none` where
it goes on to the next token. -/
def policyName (k : ℤ) (tok : Token) : Option (Text × Bool × Bool) :=
  if tok.kind ∈ [Kind.str, .tpl] then
    if ¬ (textAt tokAt (k - 1) "[" ∧ textAt tokAt (k + 1) "]") then none
    else some (cooked tok.text, isGlobalAt tokAt (k - 2), textAt tokAt (k + 2) "(")
  else if tok.kind = .id then
    some (tok.text, !afterDotAt tokAt k || isGlobalAt tokAt (k - 2), textAt tokAt (k + 1) "(")
  else none

/-- The reports of `_apply_policy` for one token: a rule and the name its
message is filled with. -/
def policyRules (policy : Policy) (k : ℤ) (tok : Token) : List (Rule × Text) :=
  let afterDot := afterDotAt tokAt k
  if tok.kind = .punct ∧ tok.text = pts "[" then
    if policy.forbidComputedGlobalAccess ∧ computedGlobal tokAt k then
      [(.forbiddenComputedGlobalAccess, [])]
    else []
  else
    match policyName tokAt k tok with
    | none => []
    | some (name, onGlobal, called) =>
      (if name ∈ policy.forbiddenIdentifiers then [(.forbiddenIdentifier, name)] else []) ++
      (if onGlobal ∧ name ∈ policy.forbiddenGlobals then [(.forbiddenGlobal, name)] else []) ++
      (if policy.forbidEval then
        if name = pts "eval" then [(.forbiddenEval, [])]
        else if name ∈ TIMERS ∧ onGlobal ∧ called ∧ tok.kind = .id then
          if (tokAt (k + 2)).any (fun f => f.kind ∈ [Kind.str, .tpl]) then
            [(.forbiddenStringTimer, name)]
          else []
        else []
       else []) ++
      (if policy.forbidFunction ∧ (name = pts "Function" ∨
          (name = pts "constructor" ∧ called ∧ (afterDot ∨ tok.kind ≠ .id))) then
        [(.forbiddenFunctionConstructor, [])]
       else []) ++
      (if policy.forbidWebassembly ∧ name = pts "WebAssembly" then [(.forbiddenWebassembly, [])]
       else []) ++
      (if policy.forbidDynamicImport ∧ tok.kind = .id ∧ name = pts "import" ∧ ¬ afterDot ∧
          called then
        [(.forbiddenDynamicImport, [])]
       else [])

end

/-- `_apply_policy`, as the calls of `add` it makes. -/
def applyPolicy (policy : Policy) (toks : List Token) : List Added :=
  toks.zipIdx.flatMap fun tk =>
    (policyRules (tokAt toks) policy tk.2 tk.1).map fun r =>
      ⟨r.1, policyMessage r.1 r.2, tk.1.off, .error⟩

/-- **`check_source`**, the reference. -/
def checkSource (cls : Classes) (options : Options) (policy : Option Policy) (code : Text) :
    List Finding :=
  let precise := policy.any (·.ignoreStringsAndComments)
  let usability := policy.all (·.includePreflightRules)
  let toks := if usability || precise then tokenize cls policy.isSome code else []
  let usable := if usability then
      toks.zipIdx.flatMap fun tk => usabilityRules (tokAt toks) options tk.2 tk.1
    else []
  let policed := match policy with
    | none => []
    | some policy => if precise then applyPolicy policy toks else scanText cls policy code
  findings code (usable ++ policed)

end Pydeno.Scanner.Reference
