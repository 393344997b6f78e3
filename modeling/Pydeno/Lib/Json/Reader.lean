import Pydeno.Lib.Json.Grammar

/-!
# A reader for JSON

A recursive-descent reader over the text that is left, and the proof that
it decides the grammar: `read t = some v` exactly when `t` is a document
that denotes `v` (`read_eq_some_iff`). Reading is maximal munch, so the
completeness of each part says what may follow it.
-/

namespace Pydeno.Json

open List Derives Number
open Option (map_eq_some_iff map_some)

/-! ## The reader -/

def skipWs (t : Text) : Text := t.dropWhile isWs

/-- The body of a string and what follows its closing quote. -/
def readChars : Text → Option (Text × Text)
  | [] => none
  | c :: t =>
      if c = quote then some ([], t)
      else if c = backslash then
        match t with
        | [] => none
        | e :: t =>
            if e = letterU then
              match t with
              | a :: b :: c :: d :: t =>
                  match hex4? a b c d with
                  | some u => (readChars t).map fun r => (u :: r.1, r.2)
                  | none => none
              | _ => none
            else
              match simpleEscape? e with
              | some x => (readChars t).map fun r => (x :: r.1, r.2)
              | none => none
      else if isRaw c then (readChars t).map fun r => (Utf16.encode c ++ r.1, r.2)
      else none

/-- A run of digits and what follows it. -/
def readDigits (t : Text) : Text × Text := (t.takeWhile isDigit, t.dropWhile isDigit)

/-- The integer part of a number. -/
def readInt : Text → Option (Text × Text)
  | [] => none
  | c :: t =>
      if c = 0x30 then some ([c], t)
      else if isDigit c then some (c :: (readDigits t).1, (readDigits t).2)
      else none

/-- The fraction, if there is one. -/
def readFrac : Text → Option (Option Text × Text)
  | [] => some (none, [])
  | c :: t =>
      if c = point then
        if (readDigits t).1 = [] then none else some (some (readDigits t).1, (readDigits t).2)
      else some (none, c :: t)

/-- The sign of an exponent, if there is one. -/
def readSign : Text → Option ℕ × Text
  | [] => (none, [])
  | c :: t => if c = plus ∨ c = minus then (some c, t) else (none, c :: t)

/-- The exponent, if there is one. -/
def readExp : Text → Option (Option Exponent × Text)
  | [] => some (none, [])
  | c :: t =>
      if c = 0x65 ∨ c = 0x45 then
        let s := readSign t
        if (readDigits s.2).1 = [] then none
        else some (some ⟨c, s.1, (readDigits s.2).1⟩, (readDigits s.2).2)
      else some (none, c :: t)

/-- The sign of a number. -/
def readMinus : Text → Bool × Text
  | [] => (false, [])
  | c :: t => if c = minus then (true, t) else (false, c :: t)

/-- A number, as far as it goes. -/
def readNumber (t : Text) : Option (Number × Text) :=
  match readInt (readMinus t).2 with
  | none => none
  | some (int, t') =>
    match readFrac t' with
    | none => none
    | some (frac, t'') =>
      match readExp t'' with
      | none => none
      | some (exp, t''') => some (⟨(readMinus t).1, int, frac, exp⟩, t''')

/-- A fixed word and what follows it. -/
def readWord (word : Text) (v : Value) (t : Text) : Option (Value × Text) :=
  if word.isPrefixOf t then some (v, t.drop word.length) else none

mutual

/-- A value, with the white space before it. -/
def readValue : ℕ → Text → Option (Value × Text)
  | 0, _ => none
  | fuel + 1, t =>
      match skipWs t with
      | [] => none
      | c :: r =>
          if c = 0x6E then readWord nullText .null (c :: r)
          else if c = 0x74 then readWord trueText (.bool true) (c :: r)
          else if c = 0x66 then readWord falseText (.bool false) (c :: r)
          else if c = quote then (readChars r).map fun s => (.str s.1, s.2)
          else if c = openBracket then
            match skipWs r with
            | [] => none
            | d :: r' =>
                if d = closeBracket then some (.arr [], r')
                else (readItems fuel (d :: r')).map fun s => (.arr s.1, s.2)
          else if c = openBrace then
            match skipWs r with
            | [] => none
            | d :: r' =>
                if d = closeBrace then some (.obj [], r')
                else (readEntries fuel (d :: r')).map fun s => (.obj s.1, s.2)
          else if c = minus ∨ isDigit c = true then
            (readNumber (c :: r)).map fun s => (.num s.1, s.2)
          else none

/-- The values of an array, up to and past its closing bracket. -/
def readItems : ℕ → Text → Option (List Value × Text)
  | 0, _ => none
  | fuel + 1, t =>
      match readValue fuel t with
      | none => none
      | some (v, r) =>
          match skipWs r with
          | [] => none
          | c :: r' =>
              if c = comma then (readItems fuel r').map fun s => (v :: s.1, s.2)
              else if c = closeBracket then some ([v], r')
              else none

/-- The entries of an object, up to and past its closing brace. -/
def readEntries : ℕ → Text → Option (List (Text × Value) × Text)
  | 0, _ => none
  | fuel + 1, t =>
      match skipWs t with
      | [] => none
      | c :: r =>
          if c = quote then
            match readChars r with
            | none => none
            | some (key, r) =>
                match skipWs r with
                | [] => none
                | c :: r =>
                    if c = colon then
                      match readValue fuel r with
                      | none => none
                      | some (v, r) =>
                          match skipWs r with
                          | [] => none
                          | c :: r =>
                              if c = comma then
                                (readEntries fuel r).map fun s => ((key, v) :: s.1, s.2)
                              else if c = closeBrace then some ([(key, v)], r)
                              else none
                    else none
          else none

end

/-- The rounds a text can need: two for each character. -/
def readFuel (t : Text) : ℕ := 2 * t.length + 2

/-- **Read a whole document.** -/
def read (t : Text) : Option Value :=
  match readValue (readFuel t) t with
  | some (v, rest) => if skipWs rest = [] then some v else none
  | none => none

/-! ## White space -/

variable {w r t ds : Text} {c : ℕ} {v : Value}

theorem skipWs_append (hw : Ws w) (t : Text) : skipWs (w ++ t) = skipWs t := by
  induction w with
  | nil => rfl
  | cons c w ih =>
    rw [cons_append, skipWs, dropWhile_cons_of_pos (hw c (by simp))]
    exact ih fun x hx => hw x (by simp [hx])

theorem skipWs_cons (hc : isWs c = false) (t : Text) : skipWs (c :: t) = c :: t := by
  rw [skipWs, dropWhile_cons_of_neg (by rw [hc]; simp)]

theorem isWs_of_skipWs (h : skipWs t = c :: r) : isWs c = false := by
  unfold skipWs at h
  have hhead := head_dropWhile_not isWs (l := t) (by rw [h]; simp)
  simp only [h, head_cons] at hhead
  exact hhead

theorem skipWs_skipWs (t : Text) : skipWs (skipWs t) = skipWs t := by
  cases h : skipWs t with
  | nil => rfl
  | cons c r => exact skipWs_cons (isWs_of_skipWs h) r

/-- What was skipped is white space. -/
theorem exists_ws (t : Text) : ∃ w, Ws w ∧ t = w ++ skipWs t :=
  ⟨t.takeWhile isWs, fun _ hc => mem_takeWhile_imp hc, takeWhile_append_dropWhile.symm⟩

theorem skipWs_eq_cons (h : skipWs t = c :: r) : ∃ w, Ws w ∧ t = w ++ c :: r := by
  obtain ⟨w, hw, ht⟩ := exists_ws t
  exact ⟨w, hw, by rw [← h]; exact ht⟩

/-! ## Strings -/

theorem readChars_sound : ∀ {t us r : Text}, readChars t = some (us, r) →
    ∃ body, t = body ++ quote :: r ∧ Chars body us := by
  intro t
  -- the reader takes up to six characters at a time
  induction hn : t.length using Nat.strong_induction_on generalizing t with
  | _ n ih =>
    intro us r h
    cases t with
    | nil => cases h
    | cons c t =>
      rw [length_cons] at hn
      rw [readChars.eq_def] at h
      simp only at h
      split_ifs at h with hq hb hraw
      · cases h
        exact ⟨[], by rw [hq]; rfl, Chars.nil⟩
      · cases t with
        | nil => cases h
        | cons e t =>
          rw [length_cons] at hn
          simp only at h
          split_ifs at h with hu
          · split at h
            next a b c' d t' =>
              rw [length_cons, length_cons, length_cons, length_cons] at hn
              split at h
              next u hhex =>
                obtain ⟨⟨us', r'⟩, hrest, heq⟩ := map_eq_some_iff.mp h
                cases heq
                obtain ⟨body, rfl, hbody⟩ := ih t'.length (by omega) rfl hrest
                exact ⟨backslash :: letterU :: a :: b :: c' :: d :: body, by rw [hb, hu]; rfl,
                  Chars.unicode hhex hbody⟩
              · cases h
            · cases h
          · split at h
            next x hx =>
              obtain ⟨⟨us', r'⟩, hrest, heq⟩ := map_eq_some_iff.mp h
              cases heq
              obtain ⟨body, rfl, hbody⟩ := ih t.length (by omega) rfl hrest
              exact ⟨backslash :: e :: body, by rw [hb]; rfl, Chars.simple hx hbody⟩
            · cases h
      · obtain ⟨⟨us', r'⟩, hrest, heq⟩ := map_eq_some_iff.mp h
        cases heq
        obtain ⟨body, rfl, hbody⟩ := ih t.length (by omega) rfl hrest
        exact ⟨c :: body, rfl, Chars.raw hraw hbody⟩

theorem isRaw_ne (h : isRaw c = true) : c ≠ quote ∧ c ≠ backslash := by
  simp only [isRaw, Bool.and_eq_true, bne_iff_ne] at h
  exact ⟨h.1.2, h.2⟩

theorem simpleEscape?_letterU : simpleEscape? letterU = none := by decide

theorem backslash_ne_quote : backslash ≠ quote := by decide

/-- A character that begins no escape. -/
theorem readChars_of_ne (hb : c ≠ backslash) (t : Text) : readChars (c :: t) =
    if c = quote then some ([], t)
    else if isRaw c then (readChars t).map fun r => (Utf16.encode c ++ r.1, r.2) else none := by
  rw [readChars.eq_def]
  simp only [if_neg hb]

/-- An escape. -/
theorem readChars_escape (e : ℕ) (t : List ℕ) : readChars (backslash :: e :: t) =
    if e = letterU then
      match t with
      | a :: b :: c :: d :: t =>
        match hex4? a b c d with
        | some u => (readChars t).map fun r => (u :: r.1, r.2)
        | none => none
      | _ => none
    else
      match simpleEscape? e with
      | some x => (readChars t).map fun r => (x :: r.1, r.2)
      | none => none := by
  rw [readChars.eq_def]
  simp only [if_neg backslash_ne_quote, if_true]

theorem readChars_quote (t : Text) : readChars (quote :: t) = some ([], t) := by
  rw [readChars_of_ne backslash_ne_quote.symm, if_pos rfl]

/-- Neither the end of a string nor an escape nor a character it may hold. -/
theorem readChars_control (hq : c ≠ quote) (hb : c ≠ backslash) (h : isRaw c = false) (t : Text) :
    readChars (c :: t) = none := by
  have hraw : ¬ isRaw c = true := by rw [h]; simp
  rw [readChars_of_ne hb, if_neg hq, if_neg hraw]

/-- Past a run of characters that stand for themselves. -/
theorem readChars_raw {chunk : Text} (h : ∀ c ∈ chunk, isRaw c = true) (t : Text) :
    readChars (chunk ++ t) = (readChars t).map fun r => (Utf16.units chunk ++ r.1, r.2) := by
  induction chunk with
  | nil => rw [nil_append]; cases readChars t <;> rfl
  | cons c chunk ih =>
    have hc := h c (by simp)
    rw [cons_append, readChars_of_ne (isRaw_ne hc).2, if_neg (isRaw_ne hc).1, if_pos hc,
      ih fun x hx => h x (by simp [hx]), Option.map_map, Utf16.units_cons]
    cases readChars t with
    | none => rfl
    | some r => simp [append_assoc]

/-- Past a unicode escape. -/
theorem readChars_unicode {a b d u : ℕ} (h : hex4? a b c d = some u) (t : Text) :
    readChars (backslash :: letterU :: a :: b :: c :: d :: t)
      = (readChars t).map fun r => (u :: r.1, r.2) := by
  rw [readChars_escape, if_pos rfl]
  simp only [h]

/-- A unicode escape that is cut off or malformed is no string. -/
theorem readChars_unicode_bad
    (h : ∀ a b c d t' u, t = a :: b :: c :: d :: t' → hex4? a b c d ≠ some u) :
    readChars (backslash :: letterU :: t) = none := by
  rw [readChars_escape, if_pos rfl]
  split
  next a b c d t' =>
    split
    next u hu =>
      exact absurd hu (h a b c d t' u rfl)
    · rfl
  · rfl

theorem simpleEscape?_lt {x : ℕ} (h : simpleEscape? c = some x) : x < 0x80 := by
  rw [simpleEscape?] at h
  split_ifs at h <;> cases h <;> decide

/-- Past a simple escape. -/
theorem readChars_simple {x : ℕ} (h : simpleEscape? c = some x) (t : Text) :
    readChars (backslash :: c :: t) = (readChars t).map fun r => (x :: r.1, r.2) := by
  have hne : c ≠ letterU := fun he => by rw [he, simpleEscape?_letterU] at h; cases h
  rw [readChars_escape, if_neg hne]
  simp only [h]

theorem readChars_simple_bad (hu : c ≠ letterU) (h : simpleEscape? c = none) (t : Text) :
    readChars (backslash :: c :: t) = none := by
  rw [readChars_escape, if_neg hu]
  simp only [h]

theorem readChars_complete {body us : Text} (h : Chars body us) (r : Text) :
    readChars (body ++ quote :: r) = some (us, r) := by
  induction h with
  | nil => exact readChars_quote r
  | raw hc _ ih =>
    rw [cons_append, ← singleton_append, readChars_raw (by simpa using hc), ih]
    simp
  | simple hx _ ih =>
    rw [cons_append, cons_append, readChars_simple hx, ih]
    rfl
  | unicode hu _ ih =>
    simp only [cons_append]
    rw [readChars_unicode hu, ih]
    rfl

/-! ## Numbers -/

/-- The text does not go on with a character of the class. -/
def StopsAt (p : ℕ → Bool) (r : Text) : Prop := ∀ c ∈ r.head?, p c = false

theorem readDigits_append (hd : ∀ c ∈ ds, isDigit c = true) (hr : StopsAt isDigit r) :
    readDigits (ds ++ r) = (ds, r) := by
  have hstop : r.takeWhile isDigit = [] ∧ r.dropWhile isDigit = r := by
    cases r with
    | nil => exact ⟨rfl, rfl⟩
    | cons c r =>
      have hc := hr c rfl
      exact ⟨takeWhile_cons_of_neg (by rw [hc]; simp), dropWhile_cons_of_neg (by rw [hc]; simp)⟩
  rw [readDigits, takeWhile_append_of_pos hd, dropWhile_append_of_pos hd, hstop.1,
    hstop.2, append_nil]

theorem readDigits_sound (t : Text) :
    t = (readDigits t).1 ++ (readDigits t).2 ∧ ∀ c ∈ (readDigits t).1, isDigit c = true :=
  ⟨takeWhile_append_dropWhile.symm, fun _ hc => mem_takeWhile_imp hc⟩

theorem readInt_sound (h : readInt t = some (ds, r)) : t = ds ++ r ∧ IntPart ds := by
  cases t with
  | nil => cases h
  | cons c t =>
    rw [readInt] at h
    split_ifs at h with h0 hd
    · cases h
      exact ⟨rfl, .inl (by rw [h0])⟩
    · cases h
      obtain ⟨hsplit, hall⟩ := readDigits_sound t
      simp only [isDigit, Bool.and_eq_true, decide_eq_true_eq] at hd
      exact ⟨congrArg (c :: ·) hsplit, .inr ⟨c, _, rfl, by omega, by omega, hall⟩⟩

theorem readInt_complete (h : IntPart ds) (hr : StopsAt isDigit r) :
    readInt (ds ++ r) = some (ds, r) := by
  rcases h with rfl | ⟨d, rest, rfl, h1, h2, hall⟩
  · rfl
  · have hd : isDigit d = true := by
      simp only [isDigit, Bool.and_eq_true, decide_eq_true_eq]
      omega
    rw [cons_append, readInt, if_neg (by omega), if_pos hd, readDigits_append hall hr]

/-- The text of the fraction. -/
def fracText : Option Text → Text
  | some ds => point :: ds
  | none => []

/-- The text of the exponent. -/
def expText : Option Exponent → Text
  | some e => e.text
  | none => []

theorem Number.text_eq (n : Number) :
    n.text = (if n.neg then [minus] else []) ++ (n.int ++ (fracText n.frac ++ expText n.exp)) := by
  rw [text, append_assoc, append_assoc]
  rfl

theorem readFrac_sound {frac : Option Text} (h : readFrac t = some (frac, r)) :
    t = fracText frac ++ r ∧ ∀ ds ∈ frac, Digits ds := by
  cases t with
  | nil =>
    cases h
    exact ⟨rfl, by simp⟩
  | cons c t =>
    rw [readFrac] at h
    split_ifs at h with hp hne
    · cases h
      obtain ⟨hsplit, hall⟩ := readDigits_sound t
      refine ⟨?_, ?_⟩
      · rw [hp, fracText, cons_append, ← hsplit]
      · rintro ds ⟨⟩
        exact ⟨hne, hall⟩
    · cases h
      exact ⟨rfl, by simp⟩

theorem readFrac_complete {frac : Option Text} (h : ∀ ds ∈ frac, Digits ds)
    (hr : StopsAt isDigit r) (hp : StopsAt (· == point) r) :
    readFrac (fracText frac ++ r) = some (frac, r) := by
  cases frac with
  | none =>
    rw [fracText, nil_append]
    cases r with
    | nil => rfl
    | cons c r =>
      have hc : c ≠ point := beq_eq_false_iff_ne.mp (hp c rfl)
      rw [readFrac, if_neg hc]
  | some ds =>
    obtain ⟨hne, hall⟩ := h ds rfl
    rw [fracText, cons_append, readFrac, if_pos rfl, readDigits_append hall hr, if_neg hne]

theorem readSign_sound (t : Text) :
    t = (readSign t).1.toList ++ (readSign t).2 ∧ ∀ s ∈ (readSign t).1, s = plus ∨ s = minus := by
  cases t with
  | nil => exact ⟨rfl, by simp [readSign]⟩
  | cons c t =>
    rw [readSign]
    split_ifs with hc
    · refine ⟨rfl, ?_⟩
      rintro s ⟨⟩
      exact hc
    · exact ⟨rfl, by simp⟩

theorem readSign_complete {sign : Option ℕ} (hs : ∀ s ∈ sign, s = plus ∨ s = minus) (hd : Digits ds) :
    readSign (sign.toList ++ (ds ++ r)) = (sign, ds ++ r) := by
  cases sign with
  | some s =>
    change readSign (s :: (ds ++ r)) = _
    rw [readSign, if_pos (hs s rfl)]
  | none =>
    obtain ⟨d, ds', rfl⟩ := exists_cons_of_ne_nil hd.1
    have hdig := hd.2 d (by simp)
    have hne : ¬ (d = plus ∨ d = minus) := by
      rintro (rfl | rfl)
      · exact absurd hdig (by decide)
      · exact absurd hdig (by decide)
    change readSign (d :: (ds' ++ r)) = _
    rw [readSign, if_neg hne]
    rfl

theorem readExp_sound {exp : Option Exponent} (h : readExp t = some (exp, r)) :
    t = expText exp ++ r ∧ ∀ e ∈ exp, e.Valid := by
  cases t with
  | nil =>
    cases h
    exact ⟨rfl, by simp⟩
  | cons c t =>
    rw [readExp] at h
    simp only at h
    split_ifs at h with hc hne
    · cases h
      obtain ⟨hsign, hs⟩ := readSign_sound t
      obtain ⟨hsplit, hall⟩ := readDigits_sound (readSign t).2
      refine ⟨?_, ?_⟩
      · rw [expText, Exponent.text, cons_append, append_assoc, ← hsplit, ← hsign]
      · rintro e ⟨⟩
        exact ⟨hc, hs, hne, hall⟩
    · cases h
      exact ⟨rfl, by simp⟩

/-- The letters of an exponent. -/
def isExpLetter (c : ℕ) : Bool := c == 0x65 || c == 0x45

theorem readExp_complete {exp : Option Exponent} (h : ∀ e ∈ exp, e.Valid)
    (hr : StopsAt isDigit r) (he : StopsAt isExpLetter r) :
    readExp (expText exp ++ r) = some (exp, r) := by
  cases exp with
  | none =>
    rw [expText, nil_append]
    cases r with
    | nil => rfl
    | cons c r =>
      have hc := he c rfl
      rw [isExpLetter, Bool.or_eq_false_iff, beq_eq_false_iff_ne, beq_eq_false_iff_ne] at hc
      rw [readExp, if_neg (not_or.mpr hc)]
  | some e =>
    have hv := h e rfl
    rw [expText, Exponent.text, cons_append, append_assoc, readExp, if_pos hv.letter,
      readSign_complete hv.sign hv.digits]
    simp only [readDigits_append hv.digits.2 hr, if_neg hv.digits.1]

theorem readMinus_sound (t : Text) :
    t = (if (readMinus t).1 = true then [minus] else []) ++ (readMinus t).2 := by
  cases t with
  | nil => rfl
  | cons c t =>
    rw [readMinus]
    by_cases hc : c = minus
    · rw [if_pos hc, hc]; rfl
    · rw [if_neg hc]; rfl

theorem readNumber_sound {n : Number} (h : readNumber t = some (n, r)) :
    t = n.text ++ r ∧ n.Valid := by
  rw [readNumber] at h
  split at h
  · cases h
  rename_i int t1 hint
  split at h
  · cases h
  rename_i frac t2 hfrac
  split at h
  · cases h
  rename_i exp t3 hexp
  cases h
  obtain ⟨h1, hi⟩ := readInt_sound hint
  obtain ⟨h2, hf⟩ := readFrac_sound hfrac
  obtain ⟨h3, he⟩ := readExp_sound hexp
  refine ⟨?_, ⟨hi, hf, he⟩⟩
  rw [text_eq, append_assoc, append_assoc, append_assoc, ← h3, ← h2, ← h1, ← readMinus_sound]

/-- What may follow a number: nothing that would make it longer. -/
structure EndsNumber (r : Text) : Prop where
  digit : StopsAt isDigit r
  point : StopsAt (· == point) r
  letter : StopsAt isExpLetter r

theorem readNumber_complete {n : Number} (hn : n.Valid) (hr : EndsNumber r) :
    readNumber (n.text ++ r) = some (n, r) := by
  -- neither part runs into the next one
  have hexp : StopsAt isDigit (expText n.exp ++ r) ∧ StopsAt (· == point) (expText n.exp ++ r) := by
    cases hx : n.exp with
    | none => exact ⟨hr.digit, hr.point⟩
    | some e =>
      have hne : isDigit e.letter = false ∧ (e.letter == point) = false := by
        rcases (hn.exp e hx).letter with hl | hl <;> rw [hl] <;> decide
      refine ⟨?_, ?_⟩
      · rintro c ⟨⟩; exact hne.1
      · rintro c ⟨⟩; exact hne.2
  have hfrac : StopsAt isDigit (fracText n.frac ++ (expText n.exp ++ r)) := by
    cases n.frac with
    | none => exact hexp.1
    | some ds => rintro c ⟨⟩; decide
  have hminus : readMinus (n.text ++ r)
      = (n.neg, n.int ++ (fracText n.frac ++ (expText n.exp ++ r))) := by
    rw [text_eq, append_assoc, append_assoc, append_assoc]
    cases n.neg with
    | true => rfl
    | false =>
      -- the integer part starts with a digit
      rcases hn.int with hi | ⟨d, rest, hi, h1, -, -⟩
      · rw [hi]; rfl
      · rw [hi]
        change readMinus (d :: _) = _
        rw [readMinus, if_neg (by rw [minus]; omega)]
        rfl
  rw [readNumber, hminus]
  simp only [readInt_complete hn.int hfrac, readFrac_complete hn.frac hexp.1 hexp.2,
    readExp_complete hn.exp hr.digit hr.letter]

/-! ## Soundness -/

theorem readWord_sound {word : Text} {v' : Value} (h : readWord word v t = some (v', r)) :
    v' = v ∧ t = word ++ r := by
  rw [readWord] at h
  split_ifs at h with hw
  cases h
  obtain ⟨rest, rfl⟩ := isPrefixOf_iff_prefix.mp hw
  exact ⟨rfl, by rw [drop_left]⟩

/-- **What is read is in the grammar.** The induction is on the rounds; each
part reads with one round less. -/
theorem reads_sound : ∀ fuel : ℕ, (∀ t v r, readValue fuel t = some (v, r) →
      ∃ w body, Ws w ∧ Derives body v ∧ t = w ++ body ++ r) ∧
    (∀ t items r, readItems fuel t = some (items, r) →
      ∃ body, DerivesItems body items ∧ t = body ++ closeBracket :: r) ∧
    (∀ t entries r, readEntries fuel t = some (entries, r) →
      ∃ body, DerivesEntries body entries ∧ t = body ++ closeBrace :: r) := by
  intro fuel
  induction fuel with
  | zero =>
    refine ⟨?_, ?_, ?_⟩
    · intro t v r h; rw [readValue] at h; cases h
    · intro t v r h; rw [readItems] at h; cases h
    · intro t v r h; rw [readEntries] at h; cases h
  | succ fuel ih =>
    obtain ⟨ihV, ihI, ihE⟩ := ih
    refine ⟨?_, ?_, ?_⟩
    · intro t v r h
      rw [readValue] at h
      split at h
      · cases h
      rename_i c rest hskip
      obtain ⟨w, hw, rfl⟩ := skipWs_eq_cons hskip
      simp only [append_assoc]
      -- the value starts after the white space
      suffices hbody : ∃ body, Derives body v ∧ c :: rest = body ++ r by
        obtain ⟨body, hd, heq⟩ := hbody
        exact ⟨w, body, hw, hd, by rw [heq]⟩
      split_ifs at h with h1 h2 h3 h4 h5 h6 h7
      · obtain ⟨rfl, heq⟩ := readWord_sound h
        exact ⟨_, nullWord, heq⟩
      · obtain ⟨rfl, heq⟩ := readWord_sound h
        exact ⟨_, trueWord, heq⟩
      · obtain ⟨rfl, heq⟩ := readWord_sound h
        exact ⟨_, falseWord, heq⟩
      · obtain ⟨⟨us, r'⟩, hchars, heq⟩ := map_eq_some_iff.mp h
        cases heq
        obtain ⟨body, rfl, hc⟩ := readChars_sound hchars
        exact ⟨_, str hc, by rw [h4]; simp⟩
      · split at h
        · cases h
        next d rest' hskip' =>
          obtain ⟨w', hw', rfl⟩ := skipWs_eq_cons hskip'
          split_ifs at h with hd
          · cases h
            exact ⟨_, emptyArr hw', by rw [h5, hd]; simp⟩
          · obtain ⟨⟨items, r'⟩, hitems, heq⟩ := map_eq_some_iff.mp h
            cases heq
            obtain ⟨body, hbody, hrest⟩ := ihI _ _ _ hitems
            -- the white space before the first value belongs to the items
            exact ⟨_, arr (hbody.ws_append hw'), by rw [h5, hrest]; simp⟩
      · split at h
        · cases h
        next d rest' hskip' =>
          obtain ⟨w', hw', rfl⟩ := skipWs_eq_cons hskip'
          split_ifs at h with hd
          · cases h
            exact ⟨_, emptyObj hw', by rw [h6, hd]; simp⟩
          · obtain ⟨⟨entries, r'⟩, hentries, heq⟩ := map_eq_some_iff.mp h
            cases heq
            obtain ⟨body, hbody, hrest⟩ := ihE _ _ _ hentries
            exact ⟨_, obj (hbody.ws_append hw'), by rw [h6, hrest]; simp⟩
      · obtain ⟨⟨n, r'⟩, hnum, heq⟩ := map_eq_some_iff.mp h
        cases heq
        obtain ⟨heq, hv⟩ := readNumber_sound hnum
        exact ⟨_, num hv, heq⟩
    · intro t items r h
      rw [readItems] at h
      split at h
      · cases h
      rename_i v r1 hv
      obtain ⟨w, body, hw, hd, rfl⟩ := ihV _ _ _ hv
      split at h
      · cases h
      rename_i c r2 hskip
      obtain ⟨w', hw', rfl⟩ := skipWs_eq_cons hskip
      split_ifs at h with hc hb
      · obtain ⟨⟨items', r'⟩, hitems, heq⟩ := map_eq_some_iff.mp h
        cases heq
        obtain ⟨rest, hrest, rfl⟩ := ihI _ _ _ hitems
        exact ⟨_, DerivesItems.cons hw hd hw' hrest, by rw [hc]; simp⟩
      · cases h
        exact ⟨_, DerivesItems.one hw hd hw', by rw [hb]; simp⟩
    · intro t entries r h
      rw [readEntries] at h
      split at h
      · cases h
      rename_i c r1 hskip
      obtain ⟨w, hw, rfl⟩ := skipWs_eq_cons hskip
      split_ifs at h with hq
      split at h
      · cases h
      rename_i key r2 hkey
      obtain ⟨k, rfl, hk⟩ := readChars_sound hkey
      split at h
      · cases h
      rename_i c' r3 hskip'
      obtain ⟨w', hw', rfl⟩ := skipWs_eq_cons hskip'
      split_ifs at h with hcolon
      split at h
      · cases h
      rename_i v r4 hv
      obtain ⟨w'', body, hw'', hd, rfl⟩ := ihV _ _ _ hv
      split at h
      · cases h
      rename_i c'' r5 hskip''
      obtain ⟨w3, hw₃, rfl⟩ := skipWs_eq_cons hskip''
      split_ifs at h with hc hb
      · obtain ⟨⟨entries', r'⟩, hentries, heq⟩ := map_eq_some_iff.mp h
        cases heq
        obtain ⟨rest, hrest, rfl⟩ := ihE _ _ _ hentries
        exact ⟨_, DerivesEntries.cons hw hk hw' hw'' hd hw₃ hrest, by rw [hq, hcolon, hc]; simp⟩
      · cases h
        exact ⟨_, DerivesEntries.one hw hk hw' hw'' hd hw₃, by rw [hq, hcolon, hb]; simp⟩

/-! ## Completeness -/

/-- What may follow a value: white space, a separator, a closing mark, or
nothing. -/
def isFollow (c : ℕ) : Bool := isWs c || c == comma || c == closeBracket || c == closeBrace

def Follows (r : Text) : Prop := ∀ c ∈ r.head?, isFollow c = true

theorem Follows.endsNumber (h : Follows r) : EndsNumber r := by
  have hclass : ∀ c, isFollow c = true →
      isDigit c = false ∧ (c == point) = false ∧ isExpLetter c = false := by
    intro c hc
    simp only [isFollow, isWs, Bool.or_eq_true, beq_iff_eq] at hc
    rcases hc with (((((rfl | rfl) | rfl) | rfl) | rfl) | rfl) | rfl <;> decide
  exact ⟨fun c hc => (hclass c (h c hc)).1, fun c hc => (hclass c (h c hc)).2.1,
    fun c hc => (hclass c (h c hc)).2.2⟩

theorem Follows.ws (hw : Ws w) (hr : Follows r) : Follows (w ++ r) := by
  cases w with
  | nil => exact hr
  | cons c w =>
    rintro x ⟨⟩
    have hc := hw c (by simp)
    simp only [isFollow, hc, Bool.true_or]

theorem follows_cons (hc : isFollow c = true) (r : Text) : Follows (c :: r) := by
  rintro x ⟨⟩
  exact hc

theorem readWord_complete (word r : Text) (v : Value) :
    readWord word v (word ++ r) = some (v, r) := by
  rw [readWord, if_pos ( isPrefixOf_iff_prefix.mpr (prefix_append _ _)), drop_left]

theorem readValue_skipWs (fuel : ℕ) (t : Text) : readValue fuel (skipWs t) = readValue fuel t := by
  cases fuel with
  | zero => rw [readValue, readValue]
  | succ fuel => rw [readValue, readValue, skipWs_skipWs]

theorem readItems_skipWs (fuel : ℕ) (t : Text) : readItems fuel (skipWs t) = readItems fuel t := by
  cases fuel with
  | zero => rw [readItems, readItems]
  | succ fuel => rw [readItems, readItems, readValue_skipWs]

theorem readEntries_skipWs (fuel : ℕ) (t : Text) :
    readEntries fuel (skipWs t) = readEntries fuel t := by
  cases fuel with
  | zero => rw [readEntries, readEntries]
  | succ fuel => rw [readEntries, readEntries, skipWs_skipWs]

/-- A value starts with a character that is neither white space nor a
closing bracket. -/
theorem Derives.head {body : Text} (h : Derives body v) :
    ∃ c rest, body = c :: rest ∧ isWs c = false ∧ c ≠ closeBracket := by
  cases h with
  | nullWord | trueWord | falseWord | str _ | emptyArr _ | arr _ | emptyObj _ | obj _ =>
    exact ⟨_, _, rfl, by decide, by decide⟩
  | @num n hn =>
    rw [text_eq]
    cases n.neg with
    | true => exact ⟨_, _, rfl, by decide, by decide⟩
    | false =>
      rcases hn.int with hi | ⟨d, rest, hi, h1, h2, -⟩
      · rw [hi]
        exact ⟨_, _, rfl, by decide, by decide⟩
      · rw [hi]
        refine ⟨d, _, rfl, ?_, ?_⟩
        · simp only [isWs, Bool.or_eq_false_iff, beq_eq_false_iff_ne]
          omega
        · rw [closeBracket]
          omega

/-- The first character of a number. -/
theorem Number.Valid.head {n : Number} (hn : n.Valid) :
    ∃ c rest, n.text = c :: rest ∧ (c = minus ∨ isDigit c = true) := by
  rw [text_eq]
  cases n.neg with
  | true => exact ⟨_, _, rfl, .inl rfl⟩
  | false =>
    rcases hn.int with hi | ⟨d, rest, hi, h1, h2, -⟩
    · rw [hi]
      exact ⟨_, _, rfl, .inr (by decide)⟩
    · rw [hi]
      refine ⟨d, _, rfl, .inr ?_⟩
      simp only [isDigit, Bool.and_eq_true, decide_eq_true_eq]
      omega

theorem number_dispatch (h : c = minus ∨ isDigit c = true) :
    c ≠ 0x6E ∧ c ≠ 0x74 ∧ c ≠ 0x66 ∧ c ≠ quote ∧ c ≠ openBracket ∧ c ≠ openBrace ∧
      isWs c = false := by
  rcases h with rfl | h
  · decide
  · simp only [isDigit, Bool.and_eq_true, decide_eq_true_eq] at h
    simp only [isWs, Bool.or_eq_false_iff, beq_eq_false_iff_ne, quote, openBracket, openBrace]
    omega

/-- White space in front does not matter. -/
theorem readValue_ws (hw : Ws w) (fuel : ℕ) (t : Text) :
    readValue fuel (w ++ t) = readValue fuel t := by
  rw [← readValue_skipWs, skipWs_append hw, readValue_skipWs]

theorem readItems_ws (hw : Ws w) (fuel : ℕ) (t : Text) :
    readItems fuel (w ++ t) = readItems fuel t := by
  rw [← readItems_skipWs, skipWs_append hw, readItems_skipWs]

theorem readEntries_ws (hw : Ws w) (fuel : ℕ) (t : Text) :
    readEntries fuel (w ++ t) = readEntries fuel t := by
  rw [← readEntries_skipWs, skipWs_append hw, readEntries_skipWs]

theorem DerivesItems.head {items : List Value} (h : DerivesItems t items) :
    ∃ w c rest, Ws w ∧ t = w ++ c :: rest ∧ isWs c = false ∧ c ≠ closeBracket := by
  cases h with
  | one hw hv hw' =>
    obtain ⟨c, rest, rfl, h1, h2⟩ := hv.head
    exact ⟨_, c, _, hw, by rw [append_assoc]; rfl, h1, h2⟩
  | cons hw hv hw' hrest =>
    obtain ⟨c, rest, rfl, h1, h2⟩ := hv.head
    exact ⟨_, c, _, hw, by rw [append_assoc, append_assoc]; rfl, h1, h2⟩

theorem DerivesEntries.head {entries : List (Text × Value)} (h : DerivesEntries t entries) :
    ∃ w rest, Ws w ∧ t = w ++ quote :: rest := by
  cases h with
  | one hw hk hw' hw'' hv hw3 | cons hw hk hw' hw'' hv hw3 hrest => exact ⟨_, _, hw, rfl⟩

/-- An array after its opening bracket. -/
theorem readValue_openBracket (fuel : ℕ) (t : Text) :
    readValue (fuel + 1) (openBracket :: t) = match skipWs t with
      | [] => none
      | d :: r =>
          if d = closeBracket then some (.arr [], r)
          else (readItems fuel (d :: r)).map fun s => (.arr s.1, s.2) := by
  rw [readValue, skipWs_cons (by decide)]
  rfl

/-- An object after its opening brace. -/
theorem readValue_openBrace (fuel : ℕ) (t : Text) :
    readValue (fuel + 1) (openBrace :: t) = match skipWs t with
      | [] => none
      | d :: r =>
          if d = closeBrace then some (.obj [], r)
          else (readEntries fuel (d :: r)).map fun s => (.obj s.1, s.2) := by
  rw [readValue, skipWs_cons (by decide)]
  rfl

mutual

/-- **What is in the grammar is read**, with two rounds for each character. -/
theorem readValue_complete : ∀ {body : Text} {v : Value}, Derives body v → ∀ (r : Text) (fuel : ℕ),
    Follows r → 2 * body.length ≤ fuel + 1 → readValue fuel (body ++ r) = some (v, r)
  | _, _, .nullWord, r, 0, _, hf => by simp [nullText] at hf
  | _, _, .nullWord, r, fuel + 1, _, _ => by
      have hword := readWord_complete nullText r .null
      rw [readValue, nullText, cons_append, skipWs_cons (by decide)]
      exact hword
  | _, _, .trueWord, r, 0, _, hf => by simp [trueText] at hf
  | _, _, .trueWord, r, fuel + 1, _, _ => by
      have hword := readWord_complete trueText r (.bool true)
      rw [readValue, trueText, cons_append, skipWs_cons (by decide)]
      exact hword
  | _, _, .falseWord, r, 0, _, hf => by simp [falseText] at hf
  | _, _, .falseWord, r, fuel + 1, _, _ => by
      have hword := readWord_complete falseText r (.bool false)
      rw [readValue, falseText, cons_append, skipWs_cons (by decide)]
      exact hword
  | _, _, .num hn, r, fuel, hr, hf => by
      have hnum := readNumber_complete hn hr.endsNumber
      obtain ⟨c, rest, htext, hc⟩ := hn.head
      rw [htext, length_cons] at hf
      obtain ⟨fuel, rfl⟩ : ∃ n, fuel = n + 1 := ⟨fuel - 1, by omega⟩
      obtain ⟨h1, h2, h3, h4, h5, h6, hws⟩ := number_dispatch hc
      rw [htext, cons_append] at hnum
      rw [htext, cons_append, readValue, skipWs_cons hws]
      simp only [if_neg h1, if_neg h2, if_neg h3, if_neg h4, if_neg h5, if_neg h6, if_pos hc, hnum,
        map_some]
  | _, _, .str hs, r, 0, _, hf | _, _, .emptyArr hw, r, 0, _, hf
  | _, _, .emptyObj hw, r, 0, _, hf => by simp at hf; omega
  | _, _, .str hs, r, fuel + 1, _, _ => by
      have hchars := readChars_complete hs r
      rw [cons_append, append_assoc, singleton_append, readValue, skipWs_cons (by decide)]
      simp only [hchars, map_some]
      rfl
  | _, _, .emptyArr hw, r, fuel + 1, _, _ => by
      rw [cons_append, append_assoc, singleton_append, readValue_openBracket,
        skipWs_append hw, skipWs_cons (by decide)]
      rfl
  | _, _, .arr hi, r, fuel, _, hf => by
      rw [length_cons, length_append, length_singleton] at hf
      obtain ⟨fuel, rfl⟩ : ∃ n, fuel = n + 1 := ⟨fuel - 1, by omega⟩
      have hitems := readItems_complete hi r fuel (by omega)
      obtain ⟨w, c, rest, hw, rfl, hc, hne⟩ := hi.head
      rw [append_assoc, readItems_ws hw, cons_append] at hitems
      rw [cons_append, append_assoc, singleton_append, readValue_openBracket,
        append_assoc, skipWs_append hw, cons_append, skipWs_cons hc]
      simp only [if_neg hne, hitems, map_some]
  | _, _, .emptyObj hw, r, fuel + 1, _, _ => by
      rw [cons_append, append_assoc, singleton_append, readValue_openBrace,
        skipWs_append hw, skipWs_cons (by decide)]
      rfl
  | _, _, .obj he, r, fuel, _, hf => by
      rw [length_cons, length_append, length_singleton] at hf
      obtain ⟨fuel, rfl⟩ : ∃ n, fuel = n + 1 := ⟨fuel - 1, by omega⟩
      have hentries := readEntries_complete he r fuel (by omega)
      obtain ⟨w, rest, hw, rfl⟩ := he.head
      rw [append_assoc, readEntries_ws hw, cons_append] at hentries
      rw [cons_append, append_assoc, singleton_append, readValue_openBrace,
        append_assoc, skipWs_append hw, cons_append, skipWs_cons (by decide)]
      simp only [if_neg (show quote ≠ closeBrace by decide), hentries, map_some]

theorem readItems_complete : ∀ {t : Text} {items : List Value}, DerivesItems t items →
    ∀ (r : Text) (fuel : ℕ), 2 * t.length ≤ fuel →
    readItems fuel (t ++ closeBracket :: r) = some (items, r)
  | _, _, .one hw hv hw', r, fuel, hf => by
      obtain ⟨c, rest, hbody, -, -⟩ := hv.head
      have hlen := congrArg List.length hbody
      simp only [length_append, length_cons] at hf hlen
      obtain ⟨fuel, rfl⟩ : ∃ n, fuel = n + 1 := ⟨fuel - 1, by omega⟩
      have hfol := Follows.ws hw' (follows_cons (show isFollow closeBracket = true by decide) r)
      have hval := readValue_complete hv _ fuel hfol (by omega)
      rw [append_assoc, append_assoc, readItems_ws hw, readItems, hval]
      simp only [skipWs_append hw', skipWs_cons (show isWs closeBracket = false by decide)]
      rfl
  | _, _, .cons hw hv hw' hrest, r, fuel, hf => by
      simp only [length_append, length_cons] at hf
      obtain ⟨fuel, rfl⟩ : ∃ n, fuel = n + 1 := ⟨fuel - 1, by omega⟩
      have hitems := readItems_complete hrest r fuel (by omega)
      have hval := fun x => readValue_complete hv _ fuel (Follows.ws hw' (follows_cons (c := comma)
        (by decide) x)) (by omega)
      rw [append_assoc, append_assoc, append_assoc, readItems_ws hw, readItems, cons_append, hval]
      simp only [skipWs_append hw', skipWs_cons (show isWs comma = false by decide), if_true, hitems,
        map_some]

theorem readEntries_complete : ∀ {t : Text} {entries : List (Text × Value)},
    DerivesEntries t entries → ∀ (r : Text) (fuel : ℕ), 2 * t.length ≤ fuel →
    readEntries fuel (t ++ closeBrace :: r) = some (entries, r)
  | _, _, .one hw hk hw' hw'' hv hw3, r, fuel, hf => by
      simp only [length_append, length_cons] at hf
      obtain ⟨fuel, rfl⟩ : ∃ n, fuel = n + 1 := ⟨fuel - 1, by omega⟩
      have hfol := Follows.ws hw3 (follows_cons (show isFollow closeBrace = true by decide) r)
      have hval := readValue_complete hv _ fuel hfol (by omega)
      rw [← readValue_ws hw''] at hval
      simp only [append_assoc, cons_append]
      rw [readEntries_ws hw, readEntries, skipWs_cons (by decide)]
      simp only [if_true, readChars_complete hk, skipWs_append hw',
        skipWs_cons (show isWs colon = false by decide), hval, skipWs_append hw3,
        skipWs_cons (show isWs closeBrace = false by decide),
        if_neg (show closeBrace ≠ comma by decide)]
  | _, _, .cons hw hk hw' hw'' hv hw3 hrest, r, fuel, hf => by
      simp only [length_append, length_cons] at hf
      obtain ⟨fuel, rfl⟩ : ∃ n, fuel = n + 1 := ⟨fuel - 1, by omega⟩
      have hentries := readEntries_complete hrest r fuel (by omega)
      have hval := fun x => (readValue_ws hw'' fuel _).trans (readValue_complete hv _ fuel
        (Follows.ws hw3 (follows_cons (c := comma) (by decide) x)) (by omega))
      simp only [append_assoc, cons_append]
      rw [readEntries_ws hw, readEntries, skipWs_cons (by decide)]
      simp only [if_true, readChars_complete hk, skipWs_append hw',
        skipWs_cons (show isWs colon = false by decide), hval, skipWs_append hw3,
        skipWs_cons (show isWs comma = false by decide), hentries, map_some]

end

/-- With enough rounds the reader finds the document, and only white space
after it. -/
theorem document_iff_readValue {fuel : ℕ} (hf : 2 * t.length ≤ fuel + 1) :
    Document t v ↔ ∃ r, readValue fuel t = some (v, r) ∧ skipWs r = [] := by
  constructor
  · rintro ⟨w, body, w', hw, hd, hw', rfl⟩
    have hfol : Follows w' := by
      have h := Follows.ws hw' (r := []) (by simp [Follows])
      rwa [append_nil] at h
    have hval := readValue_complete hd w' fuel hfol
      (by rw [length_append, length_append] at hf; omega)
    have hskip : skipWs w' = [] := by
      have h := skipWs_append hw' []
      rwa [append_nil] at h
    exact ⟨w', by rw [append_assoc, readValue_ws hw]; exact hval, hskip⟩
  · rintro ⟨rest, hread, hskip⟩
    obtain ⟨w, body, hw, hd, rfl⟩ := (reads_sound _).1 _ _ _ hread
    obtain ⟨w', hw', heq⟩ := exists_ws rest
    rw [hskip, append_nil] at heq
    exact ⟨w, body, rest, hw, hd, heq ▸ hw', rfl⟩

/-- **The reader decides the grammar.** -/
theorem read_eq_some_iff : read t = some v ↔ Document t v := by
  rw [document_iff_readValue (show 2 * t.length ≤ readFuel t + 1 by rw [readFuel]; omega), read]
  constructor
  · intro h
    split at h
    next v' rest hread =>
      split_ifs at h with hskip
      cases h
      exact ⟨rest, hread, hskip⟩
    · cases h
  · rintro ⟨r, hread, hskip⟩
    rw [hread]
    simp only [hskip, if_true]

theorem document_unique {v' : Value} (h : Document t v) (h' : Document t v') : v = v' :=
  Option.some.inj ((read_eq_some_iff.mpr h).symm.trans (read_eq_some_iff.mpr h'))

end Pydeno.Json
