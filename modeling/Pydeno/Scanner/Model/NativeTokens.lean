import Pydeno.Scanner.Model.NativeText
import Pydeno.Lib.Loop

/-!
# The native tokenizer

`src/scanner/tokens.rs`: tokens stream through a short window, the rules of
a token run once its two successors are known, and what neither the rules
nor the tokenizer read again is dropped. The scanner's fields and the local
variables of `tokenize` are one state, `Lexer`; `Scan` is what does not
change during a scan. The last section is the top of `mod.rs`: which scans
run, and the list `check_source` builds from them.
-/

namespace Pydeno.Scanner

/-- The kinds of token. -/
inductive Kind where
  | id | num | str | tpl | re | punct
  deriving DecidableEq, Repr

/-- What a rule reads of a token: its kind, its text and its offset. -/
structure Token where
  kind : Kind
  text : Text
  off : ℕ
  deriving DecidableEq, Repr

/-- What a closing brace may close: a block, an object literal, or a
substitution of a template. -/
inductive Brace where
  | block | object | template
  deriving DecidableEq, Repr

namespace Native

/-! ## Tokens and the window -/

/-- A token's text: a range of the source, or an identifier with decoded
escapes. -/
inductive TokText where
  | src (a b : ℕ)
  | own (v : Text)

/-- `Tok`. -/
structure Tok where
  kind : Kind
  off : ℕ
  text : TokText
  /-- A closing brace that closed an object literal. -/
  closesExpression : Bool
  /-- A `)` that closed a control head such as `if (...)`. -/
  closesControl : Bool

/-- `Scanner::text`. -/
def Tok.textIn (src : Text) (t : Tok) : Text :=
  match t.text with
  | .src a b => slice src a b
  | .own v => v

/-- What a rule reads of a token. -/
def Tok.seen (src : Text) (t : Tok) : Token := ⟨t.kind, t.textIn src, t.off⟩

/-- The token stream: a window over the tokens with absolute indexes. -/
structure Window where
  toks : List Tok
  base : ℕ

def Window.len (w : Window) : ℕ := w.base + w.toks.length

/-- `Window::at`. -/
def Window.tokAt (w : Window) (k : ℤ) : Option Tok :=
  if k < w.base then none else w.toks[k.toNat - w.base]?

/-- `Window::last`. -/
def Window.last (w : Window) (back : ℕ) : Option Tok := w.tokAt ((w.len : ℤ) - 1 - back)

/-- What a scan is given. -/
structure Scan where
  src : Text
  cls : Classes
  policyTokens : Bool
  usability : Option Options
  policy : Option Policy

/-! ## Words -/

def REGEX_AFTER_WORD : List String :=
  ["return", "typeof", "instanceof", "in", "of", "new", "delete", "void", "throw", "case", "do",
    "else", "yield", "await"]

def POLICY_REGEX_AFTER_WORD : List String :=
  ["return", "typeof", "instanceof", "in", "new", "delete", "void", "throw", "case", "do", "else"]

def CONTROL_HEADS : List String := ["if", "while", "for", "with"]

def MAX_BRACE_DIGITS : ℕ := 8

def oneOf (t : Text) (words : List String) : Bool := words.any fun w => eq t w

/-! ## Escapes -/

/-- `unicode_escape`: a backslash-u escape at `j`, as the character and the
index after it. -/
def unicodeEscape (src : Text) (j : ℕ) : Option (ℕ × ℕ) :=
  let n := src.length
  if !(holdsAt (· == cp '\\') src j && holdsAt (· == cp 'u') src (j + 1)) then none
  else if holdsAt (· == cp '\x7b') src (j + 2) then
    let from_ := j + 3
    let to_ := min n (j + 3 + MAX_BRACE_DIGITS + 1)
    match (List.range' from_ (to_ - from_)).find? fun k => holdsAt (· == cp '\x7d') src k with
    | none => none
    | some stop =>
      let digits := slice src from_ stop
      if !digits.isEmpty && digits.length ≤ 8 && digits.all isHex then
        let value := hexValue digits
        if value ≤ 0x10FFFF then some (value, stop + 1) else none
      else none
  else if j + 6 ≤ n && (slice src (j + 2) (j + 6)).all isHex then
    some (hexValue (slice src (j + 2) (j + 6)), j + 6)
  else none

/-- The loop of `cooked`. -/
def cookedLoop (raw : Text) : ℕ → ℕ → Text → Text
  | 0, _, out => out
  | fuel + 1, i, out =>
      if i < raw.length then
        let ch := raw.getD i 0
        if ch != cp '\\' || raw.length ≤ i + 1 then cookedLoop raw fuel (i + 1) (out ++ [ch])
        else
          let nxt := raw.getD (i + 1) 0
          let simple := cookedLoop raw fuel (i + 2) (out ++ [simpleEscape nxt])
          if nxt == cp 'u' then
            match unicodeEscape raw i with
            | some (c, stop) => cookedLoop raw fuel stop (out ++ [c])
            | none => simple
          else if nxt == cp 'x' && i + 4 ≤ raw.length && (slice raw (i + 2) (i + 4)).all isHex then
            cookedLoop raw fuel (i + 4) (out ++ [hexValue (slice raw (i + 2) (i + 4))])
          else if isTerminator nxt then
            cookedLoop raw fuel
              (i + if nxt == cp '\r' && holdsAt (· == cp '\n') raw (i + 2) then 3 else 2) out
          else simple
      else out

/-- `cooked`: a literal's text as the engine reads it, best effort. -/
def cooked (raw : Text) : Text := cookedLoop raw raw.length 0 []

/-! ## Rules

`tokAt k` is what a rule sees of the token at an absolute index. -/

section

variable (tokAt : ℤ → Option Token)

def isAccess (t : Token) : Bool := eq t.text "." || eq t.text "?."

def textIs (k : ℤ) (s : String) : Bool := (tokAt k).any fun t => eq t.text s

/-- Whether the token before `k` is `.` or `?.`. -/
def afterDotAt (k : ℤ) : Bool := (tokAt (k - 1)).any fun p => p.kind == .punct && isAccess p

/-- The index in `GLOBALS` of token `k`, an identifier. -/
def globalAt (k : ℤ) : Option ℕ :=
  match tokAt k with
  | none => none
  | some t => if t.kind != .id then none else GLOBALS.findIdx? fun g => t.text == g

/-- The index in `NAMES` of a word. -/
def nameIndex (text : Text) : Option ℕ := NAMES.findIdx? fun w => text == w.name

/-- `Pending`: room for eight findings of one token. -/
def pending (hits : List (Code × ℕ)) : List (Code × ℕ) := hits.take 8

/-- The findings `usability_rules` collects for token `k`. -/
def usabilityHits (k : ℤ) (options : Options) (tok : Token) : List (Code × ℕ) :=
  let text := tok.text
  let afterDot := afterDotAt tokAt k
  let viaGlobal := afterDot && (globalAt tokAt (k - 2)).isSome
  if tok.kind == .str then
    (if textIs tokAt (k - 1) "[" then
      match globalAt tokAt (k - 2), nameIndex text with
      | some g, some name => [(Code.globalAliasKey, 16 * g + name)]
      | _, _ => []
     else []) ++
    (if eq text "__proto__" then [(.protoString, 0)] else [])
  else if tok.kind == .id then
    if afterDot && !viaGlobal then
      (if eq text "constructor" &&
          (tokAt (k - 2)).any (fun p => p.kind == .id && eq p.text "constructor") then
        [(.constructorConstructor, 0)]
       else []) ++
      (if eq text "__proto__" then [(.protoName, 0)] else [])
    else if eq text "__proto__" then [(.protoName, 0)]
    else if eq text "export" then
      if !options.allowImport then [(.staticExport, 0)] else []
    else if eq text "import" then
      if textIs tokAt (k + 1) "(" then
        if !options.allowDynamicImport then [(.dynamicImport, 0)] else []
      else if textIs tokAt (k + 1) "." then
        if !options.allowImport then [(.importMeta, 0)] else []
      else if !options.allowImport then [(.staticImport, 0)]
      else []
    else
      match nameIndex text with
      | some name =>
        let follows : Bool := match (NAMES[name]?).bind NameRule.needs with
          | none => true
          | some needs => (tokAt (k + 1)).any fun t => t.text == [needs] || eq t.text "?."
        if viaGlobal then [(.globalAliasName, name)]
        else if follows then [(.named, name)]
        else []
      | none =>
        if eq text "eval" && options.reportEval then
          if textIs tokAt (k + 1) "(" then [(.evalCall, 0)] else []
        else if eq text "Function" && options.reportEval then
          if (tokAt (k - 1)).any (fun p => p.kind == .id && eq p.text "new") &&
              textIs tokAt (k + 1) "(" then
            [(.newFunction, 0)]
          else []
        else []
  else []

/-- `usability_rules`. -/
def usabilityRules (k : ℤ) (options : Options) : List Hit :=
  match tokAt k with
  | none => []
  | some tok =>
    (pending (usabilityHits tokAt k options tok)).map fun h => ⟨h.1, h.2, tok.off⟩

/-- `computed_global`: token `k` is a `[`. -/
def computedGlobal (k : ℤ) : Bool :=
  let baseAt :=
    if (tokAt (k - 1)).any fun b => b.kind == .punct && eq b.text "?." then k - 1 - 1 else k - 1
  match tokAt baseAt with
  | none => false
  | some base =>
    let literal :=
      (tokAt (k + 1)).any (fun key => key.kind == .str || key.kind == .tpl || key.kind == .num) &&
        (tokAt (k + 2)).any fun c => c.kind == .punct && eq c.text "]"
    if base.kind != .id then false
    else if GLOBALS.any (fun g => base.text == g) || eq base.text "this" then
      if afterDotAt tokAt baseAt then false else !literal
    else if !(eq base.text "constructor" || eq base.text "Function") then false
    else !literal

/-- The name a policy rule looks at, whether it is looked up on the global
object, and whether it is called; `none` where no rule looks. -/
def policyName (k : ℤ) (tok : Token) : Option (Text × Bool × Bool) :=
  match tok.kind with
  | .str | .tpl =>
    if !(textIs tokAt (k - 1) "[" && textIs tokAt (k + 1) "]") then none
    else some (cooked tok.text, (globalAt tokAt (k - 2)).isSome, textIs tokAt (k + 2) "(")
  | .id =>
    some (tok.text, !afterDotAt tokAt k || (globalAt tokAt (k - 2)).isSome, textIs tokAt (k + 1) "(")
  | _ => none

/-- The findings `policy_rules` collects for a name. -/
def policyHits (k : ℤ) (policy : Policy) (tok : Token) (name : Text) (onGlobal called : Bool) :
    List (Code × ℕ) :=
  (match identifier policy name with
    | some k => [(Code.forbiddenIdentifier, k)]
    | none => []) ++
  (if onGlobal then
    match global policy name with
    | some k => [(.forbiddenGlobal, k)]
    | none => []
   else []) ++
  (if policy.forbidEval then
    if eq name "eval" then [(.forbiddenEval, 0)]
    else if (eq name "setTimeout" || eq name "setInterval") && onGlobal && called &&
        tok.kind == .id then
      if (tokAt (k + 2)).any fun f => f.kind == .str || f.kind == .tpl then
        [(.forbiddenStringTimer, if eq name "setTimeout" then 0 else 1)]
      else []
    else []
   else []) ++
  (if policy.forbidFunction && (eq name "Function" ||
      (eq name "constructor" && called && (afterDotAt tokAt k || tok.kind != .id))) then
    [(.forbiddenFunctionConstructor, 0)]
   else []) ++
  (if policy.forbidWebassembly && eq name "WebAssembly" then [(.forbiddenWebassembly, 0)]
   else []) ++
  (if policy.forbidDynamicImport && tok.kind == .id && eq name "import" &&
      !afterDotAt tokAt k && called then
    [(.forbiddenDynamicImport, 0)]
   else [])

/-- `policy_rules`. -/
def policyRules (k : ℤ) (policy : Policy) : List Hit :=
  match tokAt k with
  | none => []
  | some tok =>
    if tok.kind == .punct && eq tok.text "[" then
      if policy.forbidComputedGlobalAccess && computedGlobal tokAt k then
        [⟨.forbiddenComputedGlobalAccess, 0, tok.off⟩]
      else []
    else
      match policyName tokAt k tok with
      | none => []
      | some (name, onGlobal, called) =>
        (pending (policyHits tokAt k policy tok name onGlobal called)).map fun h =>
          ⟨h.1, h.2, tok.off⟩

/-- `rules`: the usability rules, then the policy's. -/
def rules (usability : Option Options) (policy : Option Policy) (k : ℤ) : List Hit :=
  (match usability with
    | some options => usabilityRules tokAt k options
    | none => []) ++
  (match policy with
    | some policy => policyRules tokAt k policy
    | none => [])

end

/-! ## The tokenizer -/

/-- The scanner and the local variables of `tokenize`. -/
structure Lexer where
  i : ℕ
  /-- The open braces, the innermost first. -/
  stack : List Brace
  /-- Whether each open `(` heads a control statement, the innermost first. -/
  parens : List Bool
  noRegexBefore : ℕ
  window : Window
  nextRule : ℕ
  found : List Hit

/-- What a rule sees of the token at an index. -/
def Window.seen (src : Text) (w : Window) (k : ℤ) : Option Token :=
  (w.tokAt k).map (Tok.seen src)

/-- Run the rules of the next token. -/
def Lexer.runRules (c : Scan) (s : Lexer) : Lexer :=
  { s with
    found := s.found ++ rules (s.window.seen c.src) c.usability c.policy s.nextRule
    nextRule := s.nextRule + 1 }

/-- `pop_front`. -/
def Window.popFront (w : Window) : Window := ⟨w.toks.tail, w.base + 1⟩

/-- `flush`: run the rules of every token whose two successors exist, then
drop what no rule and no tokenizer step reads again. -/
def Lexer.flush (c : Scan) (s : Lexer) : Lexer :=
  let s := loop (fun s : Lexer => s.nextRule + 2 < s.window.len) (runRules c) s.window.len s
  let keepFrom := s.nextRule - 3
  { s with
    window := loop (fun w : Window => w.base < keepFrom && w.toks.length > 2) Window.popFront
      s.window.toks.length s.window }

/-- `push`. -/
def Lexer.push (c : Scan) (s : Lexer) (kind : Kind) (off : ℕ) (text : TokText) : Lexer :=
  flush c
    { s with window := { s.window with toks := s.window.toks ++ [⟨kind, off, text, false, false⟩] } }

def Lexer.punct (c : Scan) (s : Lexer) (off len : ℕ) : Lexer :=
  s.push c .punct off (.src off (off + len))

/-- `toks.back_mut()`: change the last token. -/
def Lexer.setBack (s : Lexer) (f : Tok → Tok) : Lexer :=
  match s.window.toks.getLast? with
  | none => s
  | some t => { s with window := { s.window with toks := s.window.toks.dropLast ++ [f t] } }

/-- `after_access`. -/
def afterAccess (src : Text) (w : Window) (k : ℤ) : Bool :=
  0 < k && (w.tokAt (k - 1)).any fun t =>
    t.kind == .punct && (eq (t.textIn src) "." || eq (t.textIn src) "?.")

/-- `regex_allowed`. -/
def regexAllowed (c : Scan) (w : Window) : Bool :=
  match w.last 0 with
  | none => true
  | some last =>
    let text := last.textIn c.src
    match last.kind with
    | .num | .str | .tpl | .re => false
    | .id =>
      if !c.policyTokens then oneOf text REGEX_AFTER_WORD
      else oneOf text POLICY_REGEX_AFTER_WORD && !afterAccess c.src w ((w.len : ℤ) - 1)
    | .punct =>
      if c.policyTokens && ((eq text "+" || eq text "-") && 1 < w.len &&
          (w.last 1).any fun p => p.textIn c.src == text && p.off + 1 == last.off) then
        false
      else if c.policyTokens && eq text "\x7d" then !last.closesExpression
      else if c.policyTokens && eq text ")" then last.closesControl
      else !(eq text ")" || eq text "]")

/-- `expression_expected`: would an opening brace here open an object
literal? -/
def expressionExpected (c : Scan) (w : Window) : Bool :=
  match w.last 0 with
  | none => false
  | some last =>
    let text := last.textIn c.src
    match last.kind with
    | .id => oneOf text POLICY_REGEX_AFTER_WORD && !afterAccess c.src w ((w.len : ℤ) - 1)
    | .punct =>
      if eq text ">" && 1 < w.len &&
          (w.last 1).any (fun p => eq (p.textIn c.src) "=" && p.off + 1 == last.off) then
        false
      else text.length == 1 && (pts "([,=:?!~+-*%&|^<>/").any fun ch => text.getD 0 0 == ch
    | _ => false

/-- `starts_with`. -/
def startsWith (src : Text) (i : ℕ) (s : String) : Bool :=
  (pts s).zipIdx.all fun ck => holdsAt (· == ck.1) src (i + ck.2)

/-- The white space between tokens. -/
def isSpacing (c : ℕ) : Bool :=
  c == cp ' ' || c == cp '\t' || c == cp '\r' || c == cp '\n' || c == 0x0C || c == 0x0B ||
    c == 0xA0 || c == 0xFEFF || c == 0x2028 || c == 0x2029

/-- `scan_template`: from just after a backtick or a closing brace, the index
and whether it is past the closing backtick. -/
def scanTemplate (src : Text) : ℕ → ℕ → ℕ × Bool
  | 0, _ => (src.length, true)
  | fuel + 1, j =>
      if j < src.length then
        if holdsAt (· == cp '\\') src j then scanTemplate src fuel (j + 2)
        else if holdsAt (· == cp '`') src j then (j + 1, true)
        else if holdsAt (· == cp '$') src j && holdsAt (· == cp '\x7b') src (j + 1) then
          (j + 2, false)
        else scanTemplate src fuel (j + 1)
      else (src.length, true)

/-- The end of a block comment. -/
def blockEnd (src : Text) : ℕ → ℕ → ℕ
  | 0, _ => src.length
  | fuel + 1, j =>
      if j + 1 < src.length then
        if holdsAt (· == cp '*') src j && holdsAt (· == cp '/') src (j + 1) then j + 2
        else blockEnd src fuel (j + 1)
      else src.length

/-- Where a string literal's text ends. -/
def stringEnd (src : Text) (quote : ℕ) : ℕ → ℕ → ℕ
  | 0, j => j
  | fuel + 1, j =>
      if j < src.length && !holdsAt (fun c => c == quote || c == cp '\n' || c == cp '\r') src j then
        stringEnd src quote fuel (j + if holdsAt (· == cp '\\') src j then 2 else 1)
      else j

/-- Where a regular expression's body ends. -/
def regexEnd (src : Text) : ℕ → ℕ → Bool → ℕ
  | 0, j, _ => j
  | fuel + 1, j, inClass =>
      if j < src.length && !holdsAt (fun c => c == cp '\n' || c == cp '\r') src j then
        if holdsAt (· == cp '\\') src j then regexEnd src fuel (j + 2) inClass
        else if holdsAt (· == cp '[') src j then regexEnd src fuel (j + 1) true
        else if holdsAt (· == cp ']') src j then regexEnd src fuel (j + 1) false
        else if holdsAt (· == cp '/') src j && !inClass then j
        else regexEnd src fuel (j + 1) inClass
      else j

/-- The loop over an identifier that may have escapes: its end, and its own
text once an escape was met. -/
def identifierLoop (cls : Classes) (src : Text) (i : ℕ) : ℕ → ℕ → Option Text → ℕ × Option Text
  | 0, j, own => (j, own)
  | fuel + 1, j, own =>
      if j < src.length then
        if holdsAt cls.isIdChar src j then
          identifierLoop cls src i fuel (j + 1) (own.map (· ++ [src.getD j 0]))
        else
          match unicodeEscape src j with
          | none => (j, own)
          | some (decoded, stop) =>
            identifierLoop cls src i fuel stop (some (own.getD (slice src i j) ++ [decoded]))
      else (j, own)

/-- One round of `tokenize`, at a character of the source. -/
def tokenizeStep (c : Scan) (s : Lexer) : Lexer :=
  let src := c.src
  let n := src.length
  let i := s.i
  let ch := src.getD i 0
  if isSpacing ch || (c.policyTokens && c.cls.isSpace ch) then { s with i := i + 1 }
  else if startsWith src i "//" then { s with i := skipWhile (fun x => !isTerminator x) src i }
  else if startsWith src i "/*" then { s with i := blockEnd src n (i + 2) }
  else if ch == cp '\'' || ch == cp '"' then
    let j := stringEnd src ch n (i + 1)
    { s.push c .str i (.src (i + 1) (min j n)) with i := min (j + 1) n }
  else if ch == cp '`' then
    let (j, closed) := scanTemplate src n (i + 1)
    let text := if c.policyTokens && closed then TokText.src (i + 1) (max (j - 1) (i + 1))
      else TokText.src i i
    let s := s.push c .tpl i text
    { s with stack := if closed then s.stack else .template :: s.stack, i := j }
  else if ch == cp '\x7b' then
    let brace := if c.policyTokens && expressionExpected c s.window then Brace.object
      else Brace.block
    let s := { s with stack := brace :: s.stack }
    { s.punct c i 1 with i := i + 1 }
  else if ch == cp '\x7d' then
    if s.stack.head? == some .template then
      let (j, closed) := scanTemplate src n (i + 1)
      { s with stack := if closed then s.stack.tail else .template :: s.stack.tail, i := j }
    else
      let closesExpression := s.stack.head? == some .object
      let s := { s with stack := s.stack.tail }
      let s := (s.punct c i 1).setBack fun t => { t with closesExpression := closesExpression }
      { s with i := i + 1 }
  else if c.policyTokens && (ch == cp '(' || ch == cp ')') then
    let head := (s.window.len : ℤ) - 1
    let control := (s.window.tokAt head).any (fun t =>
      t.kind == .id && oneOf (t.textIn src) CONTROL_HEADS) && !afterAccess src s.window head
    let closesControl := ch != cp '(' && s.parens.head? == some true
    let s := { s with parens := if ch == cp '(' then control :: s.parens else s.parens.tail }
    let s := (s.punct c i 1).setBack fun t => { t with closesControl := closesControl }
    { s with i := i + 1 }
  else if ch == cp '/' && s.noRegexBefore ≤ i && regexAllowed c s.window then
    let j := regexEnd src n (i + 1) false
    if holdsAt (· == cp '/') src j then
      { s.push c .re i (.src i i) with i := skipWhile c.cls.isIdChar src (j + 1) }
    else
      let s := { s with noRegexBefore := j }
      { s.punct c i 1 with i := i + 1 }
  else if !c.policyTokens && c.cls.isIdChar ch && !c.cls.isDigit ch then
    let j := skipWhile c.cls.isIdChar src (i + 1)
    { s.push c .id i (.src i j) with i := j }
  else if c.policyTokens && ((c.cls.isIdChar ch && !c.cls.isDigit ch) || startsWith src i "\\u") then
    let (j, own) := identifierLoop c.cls src i n i none
    if j == i then { s.punct c i 1 with i := i + 1 }
    else
      let text := match own with
        | some v => TokText.own v
        | none => TokText.src i j
      { s.push c .id i text with i := j }
  else if c.cls.isDigit ch || (ch == cp '.' && holdsAt c.cls.isDigit src (i + 1)) then
    let j := skipWhile (fun x => c.cls.isIdChar x || x == cp '.') src (i + 1)
    { s.push c .num i (.src i j) with i := j }
  else if startsWith src i "?." && !holdsAt c.cls.isDigit src (i + 2) then
    { s.punct c i 2 with i := i + 2 }
  else { s.punct c i 1 with i := i + 1 }

/-- The state a scan starts in. -/
def Lexer.start : Lexer := ⟨0, [], [], 0, ⟨[], 0⟩, 0, []⟩

/-- `tokenize`. -/
def tokenize (c : Scan) : Lexer :=
  loop (fun s : Lexer => s.i < c.src.length) (tokenizeStep c) c.src.length Lexer.start

/-- **`tokens::scan`**: tokenize, then run the rules of the last tokens. -/
def tokensScan (c : Scan) : List Hit :=
  let s := tokenize c
  (loop (fun s : Lexer => s.nextRule < s.window.len) (Lexer.runRules c) s.window.len s).found

/-! ## The whole scan -/

/-- Whether the usability rules run. -/
def usable (policy : Option Policy) : Bool := policy.all (·.includePreflightRules)

/-- Whether the policy reads tokens. -/
def precise (policy : Option Policy) : Bool := policy.any (·.ignoreStringsAndComments)

/-- **`scan`**, up to sorting. -/
def scan (cls : Classes) (options : Options) (policy : Option Policy) (code : Text) : List Hit :=
  (if usable policy || precise policy then
    tokensScan ⟨code, cls, policy.isSome, if usable policy then some options else none,
      policy.filter fun _ => precise policy⟩
   else []) ++
  (match policy.filter fun _ => !precise policy with
    | some policy => textScan cls policy code
    | none => [])

/-- **`check_source`**, the native scan. -/
def checkSource (cls : Classes) (options : Options) (policy : Option Policy) (code : Text) :
    List Finding :=
  findings policy code (scan cls options policy code)

end Native

end Pydeno.Scanner
