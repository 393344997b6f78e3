import Pydeno.Scanner.Model.Finding
import Pydeno.Lib.PyStr
import Pydeno.Lib.Regex
import Pydeno.Lib.StableSort

/-!
# The reference text scan

The default scan of `_preflight_reference.py`, which the native scan was
ported from: escapes are found with a backtracking pattern, words with
another, and the rules look around a word with patterns and slices. A
finding is dropped when it is added if its rule was already reported at
its offset; the list is sorted by line and column at the end.
-/

namespace Pydeno.Scanner.Reference

/-! ## Patterns -/

/-- A literal character. -/
def lit (c : Char) : Regex ℕ := .one (· == cp c)

/-- `[0-9A-Fa-f]`. -/
def hexClass (c : ℕ) : Bool :=
  (cp '0' ≤ c && c ≤ cp '9') || (cp 'A' ≤ c && c ≤ cp 'F') || (cp 'a' ≤ c && c ≤ cp 'f')

/-- `[0-7]`. -/
def octalClass (c : ℕ) : Bool := cp '0' ≤ c && c ≤ cp '7'

/-- `_LINE_TERMINATORS`. -/
def LINE_TERMINATORS : Text := [cp '\n', cp '\r', 0x2028, 0x2029]

/-- `_ESCAPE`, whose groups are the braced digits, four digits, two digits,
the octal digits, a line continuation, and any other character. -/
def ESCAPE : Regex ℕ :=
  .seq (lit '\\') <| Regex.choice
    (Regex.cat [lit 'u', lit '\x7b', .many (· == cp '0') 0 none,
      .group 1 (.many hexClass 1 (some 6)), lit '\x7d'])
    [Regex.cat [lit 'u', .group 2 (.many hexClass 4 (some 4))],
     Regex.cat [lit 'x', .group 3 (.many hexClass 2 (some 2))],
     .group 4 (.alt
      (.seq (.one fun c => cp '0' ≤ c && c ≤ cp '3') (.many octalClass 0 (some 2)))
      (.seq (.one fun c => cp '4' ≤ c && c ≤ cp '7') (.many octalClass 0 (some 1)))),
     .group 5 (.alt (.seq (lit '\r') (lit '\n')) (.one (LINE_TERMINATORS.contains ·))),
     .group 6 (.one fun _ => true)]

/-- `_WORDS`. -/
def WORDS (cls : Classes) : Regex ℕ := .many cls.isName 1 none

/-- `\s*`. -/
def spaces (cls : Classes) : Regex ℕ := .many cls.isSpace 0 none

/-- `_BRACKET`. -/
def BRACKET (cls : Classes) : Regex ℕ := Regex.cat [spaces cls, lit '[']

/-- `_STRING_ARGUMENT`. -/
def STRING_ARGUMENT (cls : Classes) : Regex ℕ :=
  Regex.cat [spaces cls, lit '(', spaces cls, .one ((pts "'\"`").contains ·)]

/-- `_NEXT`. -/
def NEXT (cls : Classes) : Regex ℕ :=
  Regex.cat [spaces cls, .group 1 (.many (fun _ => true) 0 (some 1))]

/-- `_DOTTED`. -/
def DOTTED (cls : Classes) : Regex ℕ :=
  Regex.cat [spaces cls, .many (· == cp '?') 0 (some 1), lit '.', spaces cls, .one cls.isName]

/-- `_STATIC_IMPORT_STARTS`. -/
def STATIC_IMPORT_STARTS (cls : Classes) : Regex ℕ :=
  .one fun c => cls.isWord c || (pts "$\x7b*\"'.").contains c

/-! ## Decoding escapes -/

/-- The value of one digit of `int(text, base)`. -/
def digitValue (c : ℕ) : ℕ :=
  if c ≤ cp '9' then c - cp '0' else if c ≤ cp 'F' then c - cp 'A' + 10 else c - cp 'a' + 10

/-- `int(text, base)` of a run of digits. -/
def int (base : ℕ) (digits : Text) : ℕ := digits.foldl (fun v c => v * base + digitValue c) 0

/-- `_SIMPLE_ESCAPES`. -/
def SIMPLE_ESCAPES : List (ℕ × ℕ) :=
  [(cp 'n', cp '\n'), (cp 'r', cp '\r'), (cp 't', cp '\t'), (cp 'b', 0x08), (cp 'f', 0x0C),
    (cp 'v', 0x0B), (cp '0', 0)]

/-- `_SIMPLE_ESCAPES.get(c, c)`. -/
def simpleEscape (c : ℕ) : ℕ := (SIMPLE_ESCAPES.lookup c).getD c

/-- The state of `_decoded`. -/
structure Decoding where
  pieces : List Text
  normAt : List ℕ
  origAt : List ℕ
  last : ℕ
  size : ℕ
  continued : Bool

/-- What a match of `_ESCAPE` decodes to. -/
def replacement (m : Regex.Match ℕ) (continuation : Text) : Text :=
  match m.group 1, m.group 2, m.group 3, m.group 4, m.group 5 with
  | some brace, _, _, _, _ =>
      let value := int 16 brace
      if value ≤ 0x10FFFF then [value] else pts "u"
  | _, some four, _, _, _ =>
      let value := int 16 four
      if value ≤ 0x10FFFF then [value] else pts "u"
  | _, _, some two, _, _ => [int 16 two]
  | _, _, _, some octal, _ => [int 8 octal]
  | _, _, _, _, some _ => continuation
  | _, _, _, _, _ => ((m.group 6).getD []).map simpleEscape

/-- Whether a match of `_ESCAPE` is a line continuation. -/
def isContinuation (m : Regex.Match ℕ) : Bool :=
  (m.group 1).isNone && (m.group 2).isNone && (m.group 3).isNone && (m.group 4).isNone &&
    (m.group 5).isSome

/-- One match of `_ESCAPE`. -/
def decodedStep (code continuation : Text) (s : Decoding) (hit : Regex.Hit ℕ) : Decoding :=
  let start := hit.1
  let stop := start + hit.2.len
  let text := replacement hit.2 continuation
  let size := s.size + (start - s.last)
  { pieces := s.pieces ++ [PyStr.slice code s.last start, text]
    normAt := s.normAt ++ [size, size + text.length]
    origAt := s.origAt ++ [start, stop]
    last := stop
    size := size + text.length
    continued := s.continued || isContinuation hit.2 }

/-- What `_decoded` returns. -/
structure Decoded where
  text : Text
  normAt : List ℕ
  origAt : List ℕ
  continued : Bool

/-- `_decoded`. -/
def decoded (code continuation : Text) : Decoded :=
  let s := (ESCAPE.finditer code).foldl (decodedStep code continuation) ⟨[], [0], [0], 0, 0, false⟩
  { text := (s.pieces ++ [PyStr.slice code s.last code.length]).flatten
    normAt := s.normAt
    origAt := s.origAt
    continued := s.continued }

/-- The offset in the source of an offset in the decoded text. -/
def Decoded.original (d : Decoded) (at_ : ℕ) : ℕ :=
  let k := bisectRight d.normAt at_ - 1
  d.origAt.getD k 0 + at_ - d.normAt.getD k 0

/-! ## Telling a method definition from a call -/

def BACK : ℕ := 64

def PARAMS : ℕ := 1024

/-- The hops of `_before`. -/
def beforeHop (cls : Classes) (code : Text) : ℕ → ℤ → Text
  | 0, _ => pts "?"
  | hops + 1, i0 =>
      let floor := max (-1) (i0 - BACK)
      let i := skipBack cls.isSpace code floor (i0 - floor).toNat
      if i < 0 then []
      else if i = floor then pts "?"
      else
        let window := (max 0 (i - BACK)).toNat
        let lineStart := (LINE_TERMINATORS.map fun t =>
          PyStr.rfindChar code t window (i.toNat + 1)).foldl max (-1)
        if lineStart < 0 ∨ ¬ PyStr.startsWith
            (PyStr.lstrip cls.isSpace (PyStr.slice code (lineStart + 1) (i + 1)))
            (pts "//") 0 then
          [code.getD i.toNat 0]
        else beforeHop cls code hops lineStart

/-- `_before`: the character before `start`, or the empty text, or `?`. -/
def before (cls : Classes) (code : Text) (start : ℕ) : Text :=
  beforeHop cls code 3 ((start : ℤ) - 1)

/-- The inner loop of `_parameters_end`, over a quoted string. -/
def quoteEnd (code : Text) (limit quote : ℕ) : ℕ → ℕ → Option ℕ
  | 0, j => some j
  | fuel + 1, j =>
      if j < limit ∧ code.getD j 0 ≠ quote then
        if code.getD j 0 ∈ LINE_TERMINATORS then none
        else quoteEnd code limit quote fuel (j + if code.getD j 0 = cp '\\' then 2 else 1)
      else some j

/-- The loop of `_parameters_end`. -/
def parametersLoop (code : Text) (limit : ℕ) : ℕ → ℤ → ℕ → Option ℕ
  | 0, _, _ => none
  | fuel + 1, depth, j =>
      if j < limit then
        let c := code.getD j 0
        if c ∈ pts "([\x7b" then parametersLoop code limit fuel (depth + 1) (j + 1)
        else if c ∈ pts ")]\x7d" then
          let depth := depth - 1
          if depth = 0 then (if c = cp ')' then some (j + 1) else none)
          else if depth < 0 then none
          else parametersLoop code limit fuel depth (j + 1)
        else if c ∈ pts "'\"" then
          match quoteEnd code limit c PARAMS (j + 1) with
          | none => none
          | some j => if j ≥ limit then none else parametersLoop code limit fuel depth (j + 1)
        else if c ∈ pts "/`" then none
        else parametersLoop code limit fuel depth (j + 1)
      else none

/-- `_parameters_end`. -/
def parametersEnd (code : Text) (i : ℕ) : Option ℕ :=
  parametersLoop code (min code.length (i + PARAMS)) PARAMS 0 i

/-- The white space `_method_definition` allows before the body. -/
def BLANKS : Text := [cp ' ', cp '\t', 0x0B, 0x0C, 0xA0, 0xFEFF]

/-- `_method_definition`. -/
def methodDefinition (cls : Classes) (code : Text) (start stop : ℕ) : Bool :=
  if before cls code start ∉ [pts "\x7b", pts "\x7d", pts ";"] then false
  else
    let limit := min code.length (stop + BACK)
    let j := skipUpTo cls.isSpace code limit stop
    if j ≥ limit ∨ code.getD j 0 ≠ cp '(' then false
    else
      match parametersEnd code j with
      | none => false
      | some close =>
        let limit := min code.length (close + BACK)
        let close := skipUpTo (BLANKS.contains ·) code limit close
        close < code.length && code.getD close 0 == cp '\x7b'

/-! ## Rules -/

/-- `_GLOBAL_VALUES`. -/
def GLOBAL_VALUES : List Text :=
  [pts "globalThis", pts "self", pts "window", pts "global", pts "this"]

/-- The words a reading looks at. -/
def interest (policy : Policy) : List Text :=
  policy.forbiddenIdentifiers ++ policy.forbiddenGlobals ++
    (if policy.forbidEval then pts "eval" :: TIMERS else []) ++
    (if policy.forbidFunction then [pts "Function", pts "constructor"] else []) ++
    (if policy.forbidWebassembly then [pts "WebAssembly"] else []) ++
    (if policy.forbidDynamicImport then [pts "import"] else []) ++
    (if policy.forbidComputedGlobalAccess then
      GLOBAL_VALUES ++ [pts "Reflect", pts "constructor", pts "Function"] else [])

/-- One call of `add`: a finding before it is placed. -/
structure Added where
  rule : Rule
  message : Text
  offset : ℕ
  severity : Severity
  deriving DecidableEq, Repr

/-- Does the word at `start` follow a dot, other than that of a `...`? -/
def afterDot (text : Text) (start : ℕ) : Bool :=
  0 < start && text.getD (start - 1) 0 == cp '.' &&
    PyStr.slice text ((start : ℤ) - 3) start != pts "..."

/-- `_NEXT.match(text, end).group(1)`. -/
def following (cls : Classes) (text : Text) (stop : ℕ) : Text :=
  (((NEXT cls).match? (text.drop stop)).bind (·.group 1)).getD []

/-- The reports of one word of interest, at `text[start:stop]`, in order: a
rule and the name its message is filled with. -/
def wordReports (cls : Classes) (policy : Policy) (code : Text) (d : Decoded) (start stop : ℕ)
    (word : Text) : List (Rule × Text) :=
  let text := d.text
  (if word ∈ policy.forbiddenIdentifiers then [(.forbiddenIdentifier, word)] else []) ++
  (if word ∈ policy.forbiddenGlobals then [(.forbiddenGlobal, word)] else []) ++
  (if policy.forbidEval then
    if word = pts "eval" then [(.forbiddenEval, [])]
    else if word ∈ TIMERS ∧ ((STRING_ARGUMENT cls).match? (text.drop stop)).isSome then
      [(.forbiddenStringTimer, word)]
    else []
   else []) ++
  (if policy.forbidFunction ∧ (word = pts "Function" ∨ (word = pts "constructor" ∧
      ¬ methodDefinition cls code (d.original start) (d.original stop))) then
    [(.forbiddenFunctionConstructor, [])]
   else []) ++
  (if policy.forbidWebassembly ∧ word = pts "WebAssembly" then [(.forbiddenWebassembly, [])]
   else []) ++
  (if policy.forbidDynamicImport ∧ word = pts "import" ∧ ¬ afterDot text start then
    if following cls text stop ≠ [] ∧
        ((STATIC_IMPORT_STARTS cls).match? (following cls text stop)).isNone then
      [(.forbiddenDynamicImport, [])]
    else []
   else []) ++
  (if policy.forbidComputedGlobalAccess ∧
      ((word ∈ GLOBAL_VALUES ∧ ¬ afterDot text start ∧
          ((DOTTED cls).match? (text.drop stop)).isNone) ∨
        word = pts "Reflect" ∨
        (word ∈ [pts "constructor", pts "Function"] ∧
          ((BRACKET cls).match? (text.drop stop)).isSome)) then
    [(.forbiddenComputedGlobalAccess, [])]
   else [])

/-- The loop of `_scan_view` over the words: `reported` is how many reports
this reading has made. -/
def scanViewLoop (cls : Classes) (policy : Policy) (code : Text) (d : Decoded) :
    List (Regex.Hit ℕ) → ℕ → List Added
  | [], _ => []
  | (start, m) :: words, reported =>
      let stop := start + m.len
      let word := PyStr.slice d.text start stop
      if word ∉ interest policy then scanViewLoop cls policy code d words reported
      else if reported ≥ MAX_POLICY_FINDINGS then []
      else
        let reports := wordReports cls policy code d start stop word
        reports.map (fun r => ⟨r.1, policyMessage r.1 r.2, d.original start, .error⟩) ++
          scanViewLoop cls policy code d words (reported + reports.length)

/-- `_scan_view`. -/
def scanView (cls : Classes) (policy : Policy) (code : Text) (d : Decoded) : List Added :=
  scanViewLoop cls policy code d ((WORDS cls).finditer d.text) 0

/-- **`_scan_text`**, as the calls of `add` it makes. -/
def scanText (cls : Classes) (policy : Policy) (code : Text) : List Added :=
  let d := decoded code []
  scanView cls policy code d ++
    if d.continued then scanView cls policy code (decoded code (pts "\n")) else []

/-! ## Placing, deduplicating, sorting -/

/-- `line_starts`. -/
def lineStarts (code : Text) : List ℕ :=
  0 :: ((Regex.one (· == cp '\n')).finditer code).map fun hit => hit.1 + hit.2.len

/-- The position `add` computes for an offset. -/
def place (code : Text) (offset : ℕ) : ℕ × ℕ :=
  let line := bisectRight (lineStarts code) offset
  (line, offset - (lineStarts code).getD (line - 1) 0 + 1)

/-- The findings of `check_source`, from the calls of `add` in their order:
a repeated rule at an offset is dropped when it is added, and the list is
sorted by line and column at the end. -/
def findings (code : Text) (added : List Added) : List Finding :=
  let kept := keepFirst (fun a : Added => (a.rule, a.offset)) added
  let found := kept.map fun a =>
    let p := place code a.offset
    (⟨a.rule, a.message, p.1, p.2, a.severity⟩ : Finding)
  sortBy (fun f : Finding => toLex (f.line, f.column)) found

end Pydeno.Scanner.Reference
