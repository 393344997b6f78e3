import Pydeno.Scanner.Model.Finding
import Pydeno.Lib.StableSort

/-!
# The native text scan

`src/scanner/text.rs` and the part of `src/scanner/mod.rs` around it: the
default `SourcePolicy` scan. Every escape is decoded wherever it appears
and the whole decoded text is read. Loops that move one index are run with
a step per character, which is more than they take; a `usize` is a natural
number, and every index is tested against the length before it is used.
-/

namespace Pydeno.Scanner

/-- The finding codes a native scan reports. -/
inductive Code where
  | forbiddenIdentifier | forbiddenGlobal | forbiddenDynamicImport | forbiddenEval
  | forbiddenStringTimer | forbiddenFunctionConstructor | forbiddenWebassembly
  | forbiddenComputedGlobalAccess
  | globalAliasKey | globalAliasName | protoString | protoName | constructorConstructor
  | staticExport | dynamicImport | importMeta | staticImport | named | evalCall | newFunction
  deriving DecidableEq, Repr

/-- The number of each code. -/
def Code.number : Code → ℕ
  | forbiddenIdentifier => 1
  | forbiddenGlobal => 2
  | forbiddenDynamicImport => 3
  | forbiddenEval => 4
  | forbiddenStringTimer => 5
  | forbiddenFunctionConstructor => 6
  | forbiddenWebassembly => 7
  | forbiddenComputedGlobalAccess => 8
  | globalAliasKey => 20
  | globalAliasName => 21
  | protoString => 22
  | protoName => 23
  | constructorConstructor => 24
  | staticExport => 25
  | dynamicImport => 26
  | importMeta => 27
  | staticImport => 28
  | named => 29
  | evalCall => 30
  | newFunction => 31

/-- One finding: a code, its argument, and its offset in code points. -/
structure Hit where
  code : Code
  arg : ℕ
  offset : ℕ
  deriving DecidableEq, Repr

namespace Native

/-! ## Small tests -/

/-- ASCII `s` equals the code points `t`. -/
def eq (t : Text) (s : String) : Bool :=
  t.length == (pts s).length && (t.zip (pts s)).all fun ab => ab.1 == ab.2

def isHex (c : ℕ) : Bool :=
  (cp '0' ≤ c && c ≤ cp '9') || (cp 'a' ≤ c && c ≤ cp 'f') || (cp 'A' ≤ c && c ≤ cp 'F')

/-- `to_digit(16).unwrap_or(0)`. -/
def hexDigit (c : ℕ) : ℕ :=
  if cp '0' ≤ c ∧ c ≤ cp '9' then c - cp '0'
  else if cp 'a' ≤ c ∧ c ≤ cp 'f' then c - cp 'a' + 10
  else if cp 'A' ≤ c ∧ c ≤ cp 'F' then c - cp 'A' + 10
  else 0

/-- Saturation at the largest `u32`. -/
def sat (n : ℕ) : ℕ := min n (2 ^ 32 - 1)

def hexValue (digits : Text) : ℕ :=
  digits.foldl (fun v c => sat (sat (v * 16) + hexDigit c)) 0

def isTerminator (c : ℕ) : Bool :=
  c == cp '\n' || c == cp '\r' || c == 0x2028 || c == 0x2029

def isOctal (c : ℕ) : Bool := cp '0' ≤ c && c ≤ cp '7'

/-- The character an identity escape stands for. -/
def simpleEscape (c : ℕ) : ℕ :=
  if c = cp 'n' then cp '\n'
  else if c = cp 'r' then cp '\r'
  else if c = cp 't' then cp '\t'
  else if c = cp 'b' then 0x08
  else if c = cp 'f' then 0x0C
  else if c = cp 'v' then 0x0B
  else if c = cp '0' then 0
  else c

/-! ## Decoding escapes -/

/-- What an escape decodes to. -/
inductive Replacement where
  | one (c : ℕ)
  | continuation
  deriving DecidableEq, Repr

/-- The braced form `u\{0*([0-9A-Fa-f]{1,6})\}` at the backslash at `i`. -/
def braceEscape (code : Text) (i : ℕ) : Option (ℕ × Replacement) :=
  if holdsAt (· == cp '\x7b') code (i + 2) then
    let start := i + 3
    let zeros := skipWhile (· == cp '0') code start
    let stop := skipWhile isHex code zeros
    if holdsAt (· == cp '\x7d') code stop && start < stop && stop - zeros ≤ 6 then
      let value := hexValue (slice code zeros stop)
      some (stop + 1, .one (if value ≤ 0x10FFFF then value else cp 'u'))
    else none
  else none

/-- `escape_at`: the escape at the backslash at `i`, as its end and what it
decodes to, or `none` for a backslash that ends the text. -/
def escapeAt (code : Text) (i : ℕ) : Option (ℕ × Replacement) :=
  match code[i + 1]? with
  | none => none
  | some c1 =>
    let other := some (i + 2, .one (simpleEscape c1))
    if c1 = cp 'u' then
      match braceEscape code i with
      | some r => some r
      | none =>
        if i + 6 ≤ code.length ∧ (slice code (i + 2) (i + 6)).all isHex then
          some (i + 6, .one (hexValue (slice code (i + 2) (i + 6))))
        else other
    else if c1 = cp 'x' then
      if i + 4 ≤ code.length ∧ (slice code (i + 2) (i + 4)).all isHex then
        some (i + 4, .one (hexValue (slice code (i + 2) (i + 4))))
      else other
    else if isOctal c1 then
      let most := if c1 ≤ cp '3' then 3 else 2
      let stop := skipUpTo isOctal code (i + 1 + most) (i + 2)
      some (stop, .one ((slice code (i + 1) stop).foldl (fun v c => v * 8 + (c - cp '0')) 0))
    else if c1 = cp '\r' ∧ holdsAt (· == cp '\n') code (i + 2) then
      some (i + 3, .continuation)
    else if isTerminator c1 then some (i + 2, .continuation)
    else other

/-- The decoded text, anchors mapping its offsets back to the source, and
whether a backslash before a line terminator was seen. -/
@[ext] structure Decoded where
  text : Text
  normAt : List ℕ
  origAt : List ℕ
  continued : Bool

/-- One escape written to the decoded text: `code[last..i]`, then what the
escape at `i` (ending at `stop`) stands for. -/
def Decoded.push (d : Decoded) (code : Text) (newline : Bool) (last i : ℕ)
    (stop : ℕ) (r : Replacement) : Decoded :=
  let text := d.text ++ slice code last i
  let text' := match r with
    | .one c => text ++ [c]
    | .continuation => if newline then text ++ [cp '\n'] else text
  { text := text'
    normAt := d.normAt ++ [text.length, text'.length]
    origAt := d.origAt ++ [i, stop]
    continued := d.continued || r == .continuation }

/-- The loop of `decode`: `i` is the cursor, and `last` the end of the last
escape. -/
def decodeLoop (code : Text) (newline : Bool) : ℕ → ℕ → ℕ → Decoded → Decoded
  | 0, _, last, d => { d with text := d.text ++ code.drop last }
  | fuel + 1, i, last, d =>
      if i < code.length then
        if holdsAt (· == cp '\\') code i then
          match escapeAt code i with
          | some (stop, r) =>
              decodeLoop code newline fuel stop stop (d.push code newline last i stop r)
          -- a backslash that ends the text stays as it is
          | none => { d with text := d.text ++ code.drop last }
        else decodeLoop code newline fuel (i + 1) last d
      else { d with text := d.text ++ code.drop last }

/-- `decode`: `newline` is how a line continuation reads. -/
def decode (code : Text) (newline : Bool) : Decoded :=
  decodeLoop code newline code.length 0 0 ⟨[], [0], [0], false⟩

/-- The offset in the source of an offset in the decoded text. -/
def Decoded.original (d : Decoded) (at_ : ℕ) : ℕ :=
  let k := partitionPoint d.normAt at_ - 1
  d.origAt.getD k 0 + at_ - d.normAt.getD k 0

/-! ## Telling a method definition from a call -/

/-- How far the `constructor` test looks back, and forward. -/
def BACK : ℕ := 64

/-- The longest parameter list it matches. -/
def PARAMS : ℕ := 1024

/-- What precedes a `constructor`. -/
inductive Before where
  | start
  | unknown
  | char (c : ℕ)
  deriving DecidableEq, Repr

/-- The last line terminator of `code[window..=p]`, or `-1`; `n` is how far
`p` is above `window`. -/
def lastTerminator (code : Text) (window : ℕ) : ℕ → ℤ
  | 0 => if holdsAt isTerminator code window then window else -1
  | n + 1 =>
      if holdsAt isTerminator code (window + (n + 1)) then (window + (n + 1) : ℕ)
      else lastTerminator code window n

/-- `code[from..=to].lstrip().startswith("//")`. -/
def commentLine (cls : Classes) (code : Text) (from_ to_ : ℕ) : Bool :=
  let q := skipUpTo cls.isSpace code (to_ + 1) from_
  q < to_ && holdsAt (· == cp '/') code q && holdsAt (· == cp '/') code (q + 1)

/-- The hops of `before`: each skips white space, then one whole comment
line. -/
def beforeHop (cls : Classes) (code : Text) : ℕ → ℤ → Before
  | 0, _ => .unknown
  | hops + 1, i0 =>
      let floor := max (-1) (i0 - BACK)
      let i := skipBack cls.isSpace code floor (i0 - floor).toNat
      if i < 0 then .start
      else if i = floor then .unknown
      else
        let window := (max 0 (i - BACK)).toNat
        let lineStart := lastTerminator code window (i.toNat - window)
        if lineStart < 0 || !commentLine cls code (lineStart + 1).toNat i.toNat then
          .char (code.getD i.toNat 0)
        else beforeHop cls code hops lineStart

/-- `before`: the character before `start`, skipping white space and up to
two whole comment lines. -/
def before (cls : Classes) (code : Text) (start : ℕ) : Before :=
  beforeHop cls code 3 ((start : ℤ) - 1)

/-- The end of a quoted string inside a parameter list: `none` at a line
terminator. -/
def quoteEnd (code : Text) (limit quote : ℕ) : ℕ → ℕ → Option ℕ
  | 0, j => some j
  | fuel + 1, j =>
      if j < limit && !holdsAt (· == quote) code j then
        if holdsAt isTerminator code j then none
        else quoteEnd code limit quote fuel (if holdsAt (· == cp '\\') code j then j + 2 else j + 1)
      else some j

/-- The loop of `parameters_end`. -/
def parametersLoop (code : Text) (limit : ℕ) : ℕ → ℤ → ℕ → Option ℕ
  | 0, _, _ => none
  | fuel + 1, depth, j =>
      if j < limit then
        let c := code.getD j 0
        if c = cp '(' ∨ c = cp '[' ∨ c = cp '\x7b' then
          parametersLoop code limit fuel (depth + 1) (j + 1)
        else if c = cp ')' ∨ c = cp ']' ∨ c = cp '\x7d' then
          if depth - 1 = 0 then (if c = cp ')' then some (j + 1) else none)
          else if depth - 1 < 0 then none
          else parametersLoop code limit fuel (depth - 1) (j + 1)
        else if c = cp '\'' ∨ c = cp '"' then
          match quoteEnd code limit c PARAMS (j + 1) with
          | none => none
          | some j' => if j' ≥ limit then none else parametersLoop code limit fuel depth (j' + 1)
        else if c = cp '/' ∨ c = cp '`' then none
        else parametersLoop code limit fuel depth (j + 1)
      else none

/-- `parameters_end`: from the `(` at `i`, the index after its matching
`)`, or `none` when that cannot be shown cheaply. -/
def parametersEnd (code : Text) (i : ℕ) : Option ℕ :=
  parametersLoop code (min code.length (i + PARAMS)) PARAMS 0 i

/-- The white space allowed between the parameters and the body. -/
def isBlank (c : ℕ) : Bool :=
  c == cp ' ' || c == cp '\t' || c == 0x0B || c == 0x0C || c == 0xA0 || c == 0xFEFF

/-- `method_definition`: is the `constructor` at `code[start..stop]`
provably a method definition? -/
def methodDefinition (cls : Classes) (code : Text) (start stop : ℕ) : Bool :=
  match before cls code start with
  | .char c =>
    if c = cp '\x7b' ∨ c = cp '\x7d' ∨ c = cp ';' then
      let limit := min code.length (stop + BACK)
      let j := skipUpTo cls.isSpace code limit stop
      if limit ≤ j || !holdsAt (· == cp '(') code j then false
      else
        match parametersEnd code j with
        | none => false
        | some close =>
          let limit := min code.length (close + BACK)
          let close := skipUpTo isBlank code limit close
          holdsAt (· == cp '\x7b') code close
    else false
  | _ => false

/-! ## Rules -/

/-- The index of an identifier the policy forbids. -/
def identifier (policy : Policy) (word : Text) : Option ℕ :=
  policy.forbiddenIdentifiers.idxOf? word

/-- The index of a global the policy forbids. -/
def global (policy : Policy) (word : Text) : Option ℕ :=
  policy.forbiddenGlobals.idxOf? word

def GLOBAL_VALUES : List String := ["globalThis", "self", "window", "global", "this"]

/-- The words a scan looks at, and the longest of them. -/
structure Interest where
  words : List Text
  longest : ℕ

/-- `Interest::new`. -/
def Interest.new (policy : Policy) : Interest :=
  let words := policy.forbiddenIdentifiers ++ policy.forbiddenGlobals ++
    (if policy.forbidEval then ["eval", "setTimeout", "setInterval"].map pts else []) ++
    (if policy.forbidFunction then ["Function", "constructor"].map pts else []) ++
    (if policy.forbidWebassembly then ["WebAssembly"].map pts else []) ++
    (if policy.forbidDynamicImport then ["import"].map pts else []) ++
    (if policy.forbidComputedGlobalAccess then
      GLOBAL_VALUES.map pts ++ ["Reflect", "constructor", "Function"].map pts else [])
  ⟨words, (words.map List.length).foldl max 0⟩

/-- The early filter on the length, then the lookup. -/
def Interest.contains (interest : Interest) (word : Text) : Bool :=
  word.length ≤ interest.longest && interest.words.contains word

/-- `\s*\(\s*['"]` (or a backtick) at `i`. -/
def stringArgument (cls : Classes) (text : Text) (i : ℕ) : Bool :=
  let i := skipWhile cls.isSpace text i
  holdsAt (· == cp '(') text i &&
    holdsAt (fun c => c == cp '\'' || c == cp '"' || c == cp '`') text
      (skipWhile cls.isSpace text (i + 1))

/-- `\s*\??\.\s*[\w$]` at `i`. -/
def dotted (cls : Classes) (text : Text) (i : ℕ) : Bool :=
  let i := skipWhile cls.isSpace text i
  let i := if holdsAt (· == cp '?') text i then i + 1 else i
  holdsAt (· == cp '.') text i &&
    holdsAt (fun c => cls.isWord c || c == cp '$') text (skipWhile cls.isSpace text (i + 1))

/-- `\s*\[` at `i`. -/
def bracket (cls : Classes) (text : Text) (i : ℕ) : Bool :=
  holdsAt (· == cp '[') text (skipWhile cls.isSpace text i)

/-- Whether the next character after white space can start a static import;
`none` at the end of the text. -/
def staticImportFollows (cls : Classes) (text : Text) (i : ℕ) : Option Bool :=
  (text[skipWhile cls.isSpace text i]?).map fun c =>
    cls.isWord c || c == cp '$' || c == cp '\x7b' || c == cp '*' || c == cp '"' ||
      c == cp '\'' || c == cp '.'

/-- Whether the word at `start` follows a dot that is not part of a `...`. -/
def afterDot (text : Text) (start : ℕ) : Bool :=
  0 < start && holdsAt (· == cp '.') text (start - 1) &&
    !(3 ≤ start && (slice text (start - 3) start).all (· == cp '.'))

/-- The reports of one word of interest, at `text[start..stop]`, in order. -/
def wordReports (cls : Classes) (policy : Policy) (code : Text) (d : Decoded) (start stop : ℕ) :
    List (Code × ℕ) :=
  let text := d.text
  let word := slice text start stop
  (match identifier policy word with
    | some k => [(.forbiddenIdentifier, k)]
    | none => []) ++
  (match global policy word with
    | some k => [(.forbiddenGlobal, k)]
    | none => []) ++
  (if policy.forbidEval then
    if eq word "eval" then [(.forbiddenEval, 0)]
    else if (eq word "setTimeout" || eq word "setInterval") && stringArgument cls text stop then
      [(.forbiddenStringTimer, if eq word "setTimeout" then 0 else 1)]
    else []
   else []) ++
  (if policy.forbidFunction && (eq word "Function" ||
      (eq word "constructor" &&
        !methodDefinition cls code (d.original start) (d.original stop))) then
    [(.forbiddenFunctionConstructor, 0)]
   else []) ++
  (if policy.forbidWebassembly && eq word "WebAssembly" then [(.forbiddenWebassembly, 0)]
   else []) ++
  (if policy.forbidDynamicImport && eq word "import" && !afterDot text start &&
      staticImportFollows cls text stop == some false then
    [(.forbiddenDynamicImport, 0)]
   else []) ++
  (if policy.forbidComputedGlobalAccess &&
      ((GLOBAL_VALUES.any (eq word ·) && !afterDot text start && !dotted cls text stop) ||
        eq word "Reflect" ||
        ((eq word "constructor" || eq word "Function") && bracket cls text stop)) then
    [(.forbiddenComputedGlobalAccess, 0)]
   else [])

/-- The loop of `scan_view`: `i` is the cursor, `reported` how many reports
this reading has made. -/
def scanViewLoop (cls : Classes) (policy : Policy) (interest : Interest) (code : Text)
    (d : Decoded) : ℕ → ℕ → ℕ → List Hit
  | 0, _, _ => []
  | fuel + 1, i, reported =>
      if i < d.text.length then
        if holdsAt (fun c => cls.isWord c || c == cp '$') d.text i then
          let stop := skipWhile (fun c => cls.isWord c || c == cp '$') d.text i
          if interest.contains (slice d.text i stop) then
            if reported ≥ MAX_POLICY_FINDINGS then []
            else
              let reports := wordReports cls policy code d i stop
              reports.map (fun r => ⟨r.1, r.2, d.original i⟩) ++
                scanViewLoop cls policy interest code d fuel stop (reported + reports.length)
          else scanViewLoop cls policy interest code d fuel stop reported
        else scanViewLoop cls policy interest code d fuel (i + 1) reported
      else []

def scanView (cls : Classes) (policy : Policy) (interest : Interest) (code : Text)
    (d : Decoded) : List Hit :=
  scanViewLoop cls policy interest code d d.text.length 0 0

/-- **`text::scan`**: both readings of a line continuation, the second only
when there is one. -/
def textScan (cls : Classes) (policy : Policy) (code : Text) : List Hit :=
  let interest := Interest.new policy
  let d := decode code false
  scanView cls policy interest code d ++
    if d.continued then scanView cls policy interest code (decode code true) else []

/-! ## Sorting, deduplicating, placing -/

/-- The rule a code reports: findings are deduplicated by rule and offset. -/
def ruleKey (code : Code) (arg : ℕ) : ℕ :=
  match code with
  | .globalAliasKey | .globalAliasName => Code.number .globalAliasName
  | .protoString | .protoName => Code.number .protoName
  | .importMeta | .staticImport => Code.number .staticImport
  | .evalCall | .newFunction => Code.number .evalCall
  | .named => 256 + arg
  | code => code.number

/-- The loop that drops a repeated rule of an offset: `out` is what is kept
so far, and `group` where the current offset starts in it. -/
def dedupeLoop : List Hit → ℕ → List Hit → List Hit
  | out, _, [] => out
  | out, group, hit :: hits =>
      let group := match out.getLast? with
        | some last => if last.offset ≠ hit.offset then out.length else group
        | none => out.length
      if (out.drop group).any fun seen =>
          ruleKey seen.code seen.arg == ruleKey hit.code hit.arg then
        dedupeLoop out group hits
      else dedupeLoop (out ++ [hit]) group hits

/-- The end of `scan`: a stable sort by offset, then the first of each rule
at each offset. -/
def sortAndDedupe (hits : List Hit) : List Hit :=
  dedupeLoop [] 0 (sortBy Hit.offset hits)

/-- The inner loop of `positions`: the cursor moves from `at` to `stop`,
counting line breaks. -/
def advance (code : Text) : ℕ → ℕ → ℕ → ℕ → ℕ × ℕ
  | 0, _, line, lineStart => (line, lineStart)
  | n + 1, at_, line, lineStart =>
      if holdsAt (· == cp '\n') code at_ then advance code n (at_ + 1) (line + 1) (at_ + 1)
      else advance code n (at_ + 1) line lineStart

/-- The loop of `positions` over the hits, in ascending order of offset. -/
def positionsLoop (code : Text) : ℕ → ℕ → ℕ → List Hit → List (ℕ × ℕ)
  | _, _, _, [] => []
  | line, lineStart, at_, hit :: hits =>
      let stop := min hit.offset code.length
      let p := advance code (stop - at_) at_ line lineStart
      (p.1, hit.offset - p.2 + 1) :: positionsLoop code p.1 p.2 (max at_ stop) hits

/-- `positions`: the 1-based line and column of each hit. -/
def positions (code : Text) (hits : List Hit) : List (ℕ × ℕ) :=
  positionsLoop code 1 0 0 hits

/-- `_native_check`'s reading of one row: the rule, the message and the
severity of a code and its argument. -/
def describe (policy : Option Policy) (code : Code) (arg : ℕ) : Rule × Text × Severity :=
  let names (l : Policy → List Text) : Text := ((policy.map l).getD []).getD arg []
  match code with
  | .forbiddenIdentifier =>
      (.forbiddenIdentifier,
        policyMessage .forbiddenIdentifier (names (·.forbiddenIdentifiers)), .error)
  | .forbiddenGlobal =>
      (.forbiddenGlobal, policyMessage .forbiddenGlobal (names (·.forbiddenGlobals)), .error)
  | .forbiddenDynamicImport =>
      (.forbiddenDynamicImport, policyMessage .forbiddenDynamicImport [], .error)
  | .forbiddenEval => (.forbiddenEval, policyMessage .forbiddenEval [], .error)
  | .forbiddenStringTimer =>
      (.forbiddenStringTimer, policyMessage .forbiddenStringTimer (TIMERS.getD arg []), .error)
  | .forbiddenFunctionConstructor =>
      (.forbiddenFunctionConstructor, policyMessage .forbiddenFunctionConstructor [], .error)
  | .forbiddenWebassembly =>
      (.forbiddenWebassembly, policyMessage .forbiddenWebassembly [], .error)
  | .forbiddenComputedGlobalAccess =>
      (.forbiddenComputedGlobalAccess, policyMessage .forbiddenComputedGlobalAccess [], .error)
  | .globalAliasKey =>
      (.globalAlias, aliasMessage (GLOBALS.getD (arg / 16) [])
        ((NAMES[arg % 16]?.map NameRule.name).getD []), .error)
  | .globalAliasName =>
      (.globalAlias, (NAMES[arg]?.map NameRule.message).getD [], .error)
  | .protoString => (.proto, protoStringMessage, .warning)
  | .protoName => (.proto, protoNameMessage, .warning)
  | .constructorConstructor => (.constructorConstructor, constructorMessage, .warning)
  | .staticExport => (.staticExport, exportMessage, .error)
  | .dynamicImport => (.dynamicImport, dynamicImportMessage, .error)
  | .importMeta => (.staticImport, importMetaMessage, .error)
  | .staticImport => (.staticImport, importMessage, .error)
  | .named =>
      ((NAMES[arg]?.map NameRule.rule).getD .require,
        (NAMES[arg]?.map NameRule.message).getD [], .error)
  | .evalCall => (.eval, evalMessage, .info)
  | .newFunction => (.eval, newFunctionMessage, .info)

/-- The findings of a native scan: the sorted and deduplicated hits, each
with its position. -/
def findings (policy : Option Policy) (code : Text) (hits : List Hit) : List Finding :=
  let hits := sortAndDedupe hits
  (hits.zip (positions code hits)).map fun hp =>
    let d := describe policy hp.1.code hp.1.arg
    ⟨d.1, d.2.1, hp.2.1, hp.2.2, d.2.2⟩

end Native

end Pydeno.Scanner
