import Pydeno.Lib.Utf8
/-!
# What a URL parser makes of a path

The part of the URL standard that rewrites text: what follows the host of a URL
with a scheme that is not special. Blanks at the end, tabs and newlines are
dropped, dot segments of the path are resolved, and characters of a percent-encode
set are escaped, by the path's set, the query's or the fragment's (`normal`).
-/

namespace Pydeno.UrlText

open List

abbrev Text := List ℕ

def slash : ℕ := 0x2F

def question : ℕ := 0x3F

def number : ℕ := 0x23

/-! ## Percent-encode sets -/

/-- The C0 control percent-encode set. -/
def inControlSet (c : ℕ) : Bool := c ≤ 0x1F || 0x7E < c

/-- The fragment percent-encode set. -/
def inFragmentSet (c : ℕ) : Bool := inControlSet c || [0x20, 0x22, 0x3C, 0x3E, 0x60].contains c

/-- The query percent-encode set. -/
def inQuerySet (c : ℕ) : Bool := inControlSet c || [0x20, 0x22, 0x23, 0x3C, 0x3E].contains c

/-- The path percent-encode set. -/
def inPathSet (c : ℕ) : Bool := inQuerySet c || [0x3F, 0x5E, 0x60, 0x7B, 0x7D].contains c

def hexDigit (n : ℕ) : ℕ := if n < 10 then 0x30 + n else 0x37 + n

/-- UTF-8 percent-encode a code point using a set. -/
def percentEncode (set : ℕ → Bool) (c : ℕ) : Text :=
  if set c then (Utf8.encode c).flatMap fun b => [0x25, hexDigit (b / 16 % 16), hexDigit (b % 16)]
  else [c]

/-! ## The parser's states -/

/-- A single-dot segment: `.`, also escaped. -/
def isSingleDot (s : Text) : Bool :=
  s == [0x2E] || s == [0x25, 0x32, 0x65] || s == [0x25, 0x32, 0x45]

/-- A double-dot segment: two single ones. -/
def isDoubleDot (s : Text) : Bool :=
  (isSingleDot (s.take 1) && isSingleDot (s.drop 1)) ||
    (isSingleDot (s.take 3) && isSingleDot (s.drop 3))

/-- The end of a segment, at a slash or not: the segments of the path with it. -/
def close (atSlash : Bool) (path : List Text) (buffer : Text) : List Text :=
  if isDoubleDot buffer then
    if atSlash then path.dropLast else path.dropLast ++ [[]]
  else if isSingleDot buffer then
    if atSlash then path else path ++ [[]]
  else path ++ [buffer]

/-- The fragment state. -/
def fragmentText (text : Text) : Text := text.flatMap (percentEncode inFragmentSet)

/-- The query state, and the fragment after it. -/
def queryText : Text → Text
  | [] => []
  | c :: rest =>
    if c = number then number :: fragmentText rest
    else percentEncode inQuerySet c ++ queryText rest

/-- The path state: the segments, and the text of what follows the path. -/
def pathState (path : List Text) (buffer : Text) : Text → List Text × Text
  | [] => (close false path buffer, [])
  | c :: rest =>
    if c = slash then pathState (close true path buffer) [] rest
    else if c = question then (close false path buffer, question :: queryText rest)
    else if c = number then (close false path buffer, number :: fragmentText rest)
    else pathState path (buffer ++ percentEncode inPathSet c) rest

def isBlank (c : ℕ) : Bool := c ≤ 0x20

def isTabOrNewline (c : ℕ) : Bool := c == 0x09 || c == 0x0A || c == 0x0D

/-- **What a text becomes** that stands after the host and a slash. -/
def normal (text : Text) : Text :=
  let (path, rest) :=
    pathState [] [] ((text.rdropWhile isBlank).filter fun c => !isTabOrNewline c)
  List.intercalate [slash] path ++ rest

/-! ## Plain texts -/

/-- The segment is no dot segment. -/
def Solid (s : Text) : Prop := isSingleDot s = false ∧ isDoubleDot s = false

/-- What follows a path, with nothing to escape. -/
inductive PlainRest : Text → Prop
  | nil : PlainRest []
  | fragment {f : Text} (hf : ∀ c ∈ f, inFragmentSet c = false) : PlainRest (number :: f)
  | query {q : Text} (hq : ∀ c ∈ q, inQuerySet c = false) : PlainRest (question :: q)
  | both {q f : Text} (hq : ∀ c ∈ q, inQuerySet c = false)
      (hf : ∀ c ∈ f, inFragmentSet c = false) : PlainRest (question :: q ++ number :: f)

/-- **A text the parser has nothing to do on**: nothing to escape, and no dot
segment in the path. -/
def Plain (text : Text) : Prop :=
  ∃ path rest, text = path ++ rest ∧ (∀ c ∈ path, inPathSet c = false) ∧
    (∀ s ∈ path.splitOn slash, Solid s) ∧ PlainRest rest

section

variable {c : ℕ}

theorem blank_of_not_control (h : inControlSet c = false) : 0x20 ≤ c ∧ c ≤ 0x7E := by
  simp only [inControlSet, Bool.or_eq_false_iff, decide_eq_false_iff_not] at h
  omega

theorem inQuerySet_of_path (h : inPathSet c = false) : inQuerySet c = false :=
  (Bool.or_eq_false_iff.mp h).1

/-- What is not escaped is no blank, and so no tab and no newline. -/
theorem not_isBlank_of_query (h : inQuerySet c = false) : isBlank c = false := by
  obtain ⟨hcontrol, hmem⟩ := Bool.or_eq_false_iff.mp h
  have hlow := (blank_of_not_control hcontrol).1
  have hspace : c ≠ 0x20 := by
    rintro rfl
    simp at hmem
  simp only [isBlank, decide_eq_false_iff_not]
  omega

theorem not_isBlank_of_fragment (h : inFragmentSet c = false) : isBlank c = false := by
  obtain ⟨hcontrol, hmem⟩ := Bool.or_eq_false_iff.mp h
  have hlow := (blank_of_not_control hcontrol).1
  have hspace : c ≠ 0x20 := by
    rintro rfl
    simp at hmem
  simp only [isBlank, decide_eq_false_iff_not]
  omega

theorem not_isTabOrNewline (h : isBlank c = false) : isTabOrNewline c = false := by
  simp only [isBlank, decide_eq_false_iff_not] at h
  simp only [isTabOrNewline, Bool.or_eq_false_iff, beq_eq_false_iff_ne, ne_eq]
  omega

theorem ne_number_of_query (h : inQuerySet c = false) : c ≠ number := by
  rintro rfl
  revert h
  decide

theorem ne_question_of_path (h : inPathSet c = false) : c ≠ question := by
  rintro rfl
  revert h
  decide

theorem percentEncode_of_not {set : ℕ → Bool} (h : set c = false) : percentEncode set c = [c] := by
  rw [percentEncode, h]
  rfl

theorem flatMap_percentEncode {set : ℕ → Bool} {t : Text} (h : ∀ c ∈ t, set c = false) :
    t.flatMap (percentEncode set) = t := by
  induction t with
  | nil => rfl
  | cons c t ih =>
    rw [flatMap_cons, percentEncode_of_not (h c mem_cons_self),
      ih fun d hd => h d (mem_cons_of_mem _ hd)]
    rfl

end

/-! ## Plain texts stay -/

theorem close_solid {s : Text} (h : Solid s) (atSlash : Bool) (path : List Text) :
    close atSlash path s = path ++ [s] := by
  simp [close, h.1, h.2]

theorem queryText_plain {q : Text} (hq : ∀ c ∈ q, inQuerySet c = false) (rest : Text) :
    queryText (q ++ rest) = q ++ queryText rest := by
  induction q with
  | nil => rfl
  | cons c q ih =>
    have hc := hq c mem_cons_self
    rw [cons_append, queryText, if_neg (ne_number_of_query hc), percentEncode_of_not hc,
      ih fun d hd => hq d (mem_cons_of_mem _ hd)]
    rfl

/-- At a plain end of the path the last segment is closed and the rest kept. -/
theorem pathState_plainRest {rest : Text} (h : PlainRest rest) (path : List Text)
    {buffer : Text} (hbuffer : Solid buffer) :
    pathState path buffer rest = (path ++ [buffer], rest) := by
  cases h with
  | nil => rw [pathState, close_solid hbuffer]
  | fragment hf =>
    rw [pathState, if_neg (by decide), if_neg (by decide), if_pos rfl, close_solid hbuffer,
      fragmentText, flatMap_percentEncode hf]
  | @query q hq =>
    have hquery := queryText_plain hq []
    rw [append_nil, queryText, append_nil] at hquery
    rw [pathState, if_neg (by decide), if_pos rfl, close_solid hbuffer, hquery]
  | @both q f hq hf =>
    rw [cons_append, pathState, if_neg (by decide), if_pos rfl, close_solid hbuffer,
      queryText_plain hq, queryText, if_pos rfl, fragmentText, flatMap_percentEncode hf]

/-- **The path state on a plain text.** The buffer holds the segment so far. -/
theorem pathState_plain {chars rest : Text} (hrest : PlainRest rest)
    (hchars : ∀ c ∈ chars, inPathSet c = false) {buffer : Text} (hbuffer : slash ∉ buffer)
    (hsolid : ∀ s ∈ (buffer ++ chars).splitOn slash, Solid s) (path : List Text) :
    pathState path buffer (chars ++ rest) = (path ++ (buffer ++ chars).splitOn slash, rest) := by
  induction chars generalizing buffer path with
  | nil =>
    rw [append_nil, splitOn_eq_singleton hbuffer] at hsolid ⊢
    exact pathState_plainRest hrest path (hsolid buffer mem_cons_self)
  | cons c chars ih =>
    have hc := hchars c mem_cons_self
    have htail : ∀ d ∈ chars, inPathSet d = false := fun d hd => hchars d (mem_cons_of_mem _ hd)
    rw [cons_append, pathState]
    by_cases hslash : c = slash
    · subst hslash
      have hsplit : (buffer ++ slash :: chars).splitOn slash = buffer :: chars.splitOn slash :=
        splitOn_append_cons_self_of_not_mem hbuffer chars
      rw [hsplit] at hsolid ⊢
      rw [if_pos rfl, close_solid (hsolid buffer mem_cons_self)]
      have hnext := ih htail (not_mem_nil (a := slash))
        (fun s hs => hsolid s (mem_cons_of_mem _ hs)) (path ++ [buffer])
      rw [hnext]
      simp
    · rw [if_neg hslash, if_neg (ne_question_of_path hc),
        if_neg (ne_number_of_query (inQuerySet_of_path hc)), percentEncode_of_not hc]
      have hmem : slash ∉ buffer ++ [c] := by
        simp [hbuffer, Ne.symm hslash]
      have hnext := ih htail hmem (by simpa using hsolid) path
      rw [hnext]
      simp

/-- No character of a plain text is a blank. -/
theorem Plain.not_isBlank {text : Text} (h : Plain text) {c : ℕ} (hc : c ∈ text) :
    isBlank c = false := by
  obtain ⟨path, rest, rfl, hpath, -, hrest⟩ := h
  rcases mem_append.mp hc with hc | hc
  · exact not_isBlank_of_query (inQuerySet_of_path (hpath c hc))
  · cases hrest with
    | nil => cases hc
    | fragment hf =>
      rcases mem_cons.mp hc with rfl | hc
      · decide
      · exact not_isBlank_of_fragment (hf c hc)
    | query hq =>
      rcases mem_cons.mp hc with rfl | hc
      · decide
      · exact not_isBlank_of_query (hq c hc)
    | both hq hf =>
      rcases mem_append.mp hc with hc | hc
      · rcases mem_cons.mp hc with rfl | hc
        · decide
        · exact not_isBlank_of_query (hq c hc)
      · rcases mem_cons.mp hc with rfl | hc
        · decide
        · exact not_isBlank_of_fragment (hf c hc)

theorem Plain.normal_eq {text : Text} (h : Plain text) : normal text = text := by
  have htrim : text.rdropWhile isBlank = text := by
    rw [rdropWhile_eq_self_iff]
    intro hne
    simp [h.not_isBlank (getLast_mem hne)]
  have hfilter : (text.filter fun c => !isTabOrNewline c) = text := by
    rw [filter_eq_self]
    intro c hc
    rw [not_isTabOrNewline (h.not_isBlank hc)]
    rfl
  obtain ⟨path, rest, rfl, hpath, hsolid, hrest⟩ := h
  have hstate := pathState_plain hrest hpath (not_mem_nil (a := slash)) hsolid []
  rw [normal, htrim, hfilter, hstate]
  simp [intercalate_splitOn]

end Pydeno.UrlText
