import Pydeno.HttpFetch.Model.Url
/-!
# Prefixes hold however the path is read

What the parser lets through is clean (`clean_of_parse`): its refusals together
leave no spelling at which two readers part. A path that matches an entry begins
with the segments of the entry's prefix, and for clean paths that stays so under
every way to read them.
-/

namespace Pydeno.HttpFetch

open List UrlPath

open UrlPath (percent dot slash semicolon backslash hexValue Escaped Ambiguous Clean segments trimmed
  Step)
open Wire (ascii)

/-! ## Checks that pass -/

theorem bind_eq_ok {ε α β : Type} {x : Except ε α} {f : α → Except ε β} {v : β} :
    (x >>= f) = .ok v ↔ ∃ a, x = .ok a ∧ f a = .ok v := by
  cases x with
  | error e => exact ⟨nofun, fun ⟨_, h, _⟩ => (nomatch h)⟩
  | ok a => exact ⟨fun h => ⟨a, rfl, h⟩, fun ⟨_, h, hf⟩ => by cases h; exact hf⟩

theorem refuse_eq_ok {condition : Bool} {message : String} {u : Unit} :
    refuse condition message = .ok u ↔ condition = false := by
  unfold refuse
  cases condition <;> simp

/-- A check that passes, and what follows. -/
theorem refuse_bind {α : Type} {condition : Bool} {message : String}
    {f : Unit → Except HttpFetchError α} {v : α} :
    (refuse condition message >>= f) = .ok v ↔ condition = false ∧ f () = .ok v := by
  rw [bind_eq_ok]
  simp only [refuse_eq_ok]
  exact ⟨fun ⟨_, hc, hf⟩ => ⟨hc, hf⟩, fun ⟨hc, hf⟩ => ⟨(), hc, hf⟩⟩

/-- **A pattern that is not found** is not there at any position. -/
theorem not_pattern_of_search {pattern : Text → Bool} {t rest : Text}
    (h : search pattern t = false) (hrest : rest <:+ t) : pattern rest = false := by
  have hall := any_eq_false.1 h rest ((mem_tails _ _).2 hrest)
  simpa using hall

/-- **What `checkPath` lets through.** -/
structure PathOk (path : Text) : Prop where
  separator : search encodedSeparator path = false
  params : search pathParams path = false
  ambiguous : search ambiguousEscape path = false
  dots : ∀ s ∈ segments path, dots (unquote s) = false

theorem pathOk_of_checkPath {path : Text} {u : Unit} (h : checkPath path = .ok u) :
    PathOk path := by
  unfold checkPath at h
  obtain ⟨hseparator, h⟩ := refuse_bind.1 h
  obtain ⟨hparams, h⟩ := refuse_bind.1 h
  obtain ⟨hambiguous, h⟩ := refuse_bind.1 h
  have hdots := any_eq_false.1 (refuse_eq_ok.1 h)
  exact ⟨hseparator, hparams, hambiguous, fun s hs => by simpa using hdots s hs⟩

/-- **What `parse` says of the path.** -/
theorem path_of_parse {net : Net} {schemes : List Scheme} {maxLength : ℕ} {url : Text}
    {t : Target} (h : parse net schemes maxLength url = .ok t) :
    t.path.head? = some slash ∧ t.path.all pathChar = true ∧ search badEscape t.path = false ∧
      PathOk t.path := by
  unfold parse at h
  rw [refuse_bind, refuse_bind] at h
  obtain ⟨-, -, h⟩ := h
  split at h
  · cases h
  rename_i rest _
  split at h
  · cases h
  rw [bind_eq_ok] at h
  obtain ⟨⟨host, port, explicit, isIp⟩, -, h⟩ := h
  simp only at h
  generalize (if rest.takeWhile (· ≠ 0x3F) = [] then [slash] else rest.takeWhile (· ≠ 0x3F))
    = path at h
  rw [refuse_bind, refuse_bind, refuse_bind, refuse_bind, bind_eq_ok] at h
  obtain ⟨-, hpath, -, hescape, u, hcheck, h⟩ := h
  cases h
  simp only [Bool.or_eq_false_iff, decide_eq_false_iff_not, not_not, ne_eq,
    Bool.not_eq_false'] at hpath hescape
  exact ⟨hpath.1, hpath.2, hescape.1, pathOk_of_checkPath hcheck⟩

/-! ## Clean paths -/

/-- **No escape that is let through is a character at which readings part.** -/
theorem not_ambiguous {a b x y : ℕ} {rest : Text} (ha : hexValue a = some x)
    (hb : hexValue b = some y) (hseparator : encodedSeparator (percent :: a :: b :: rest) = false)
    (hparams : pathParams (percent :: a :: b :: rest) = false)
    (hambiguous : ambiguousEscape (percent :: a :: b :: rest) = false) :
    ¬ Ambiguous (16 * x + y) := by
  have hx := hexValue_eq_some ha
  have hy := hexValue_eq_some hb
  have hxlt : x < 16 := by omega
  have hylt : y < 16 := by omega
  simp only [encodedSeparator, pathParams, ambiguousEscape, percent, semicolon, decide_true,
    Bool.true_and, Bool.or_eq_false_iff, Bool.and_eq_false_iff,
    decide_eq_false_iff_not] at hseparator hparams hambiguous
  unfold Ambiguous percent slash semicolon backslash
  -- each of the characters has one pair of digits
  rintro (h | h | h | h | h)
  · obtain ⟨rfl, rfl⟩ : x = 0 ∧ y = 0 := by omega
    clear hseparator hparams
    omega
  · obtain ⟨rfl, rfl⟩ : x = 2 ∧ y = 5 := by omega
    clear hseparator hparams
    omega
  · obtain ⟨rfl, rfl⟩ : x = 2 ∧ y = 15 := by omega
    clear hparams hambiguous
    omega
  · obtain ⟨rfl, rfl⟩ : x = 3 ∧ y = 11 := by omega
    clear hseparator hambiguous
    omega
  · obtain ⟨rfl, rfl⟩ : x = 5 ∧ y = 12 := by omega
    clear hparams hambiguous
    omega

/-- The escapes of a path that is let through. -/
theorem escaped_of_pathOk {path : Text} (hescape : search badEscape path = false)
    (h : PathOk path) : Escaped (fun c => ¬ Ambiguous c) path := by
  -- over the suffixes of the path, by their length: an escape takes three characters
  have hall : ∀ n q, q.length ≤ n → q <:+ path → Escaped (fun c => ¬ Ambiguous c) q := by
    intro n
    induction n with
    | zero =>
      intro q hn _
      rw [length_eq_zero_iff.1 (Nat.le_zero.1 hn)]
      exact .nil
    | succ n ih =>
      intro q hn hq
      cases q with
      | nil => exact .nil
      | cons c q =>
        have hrest : q <:+ path := (suffix_cons c q).trans hq
        rw [length_cons] at hn
        by_cases hc : c = percent
        · subst hc
          have hbad := not_pattern_of_search hescape hq
          match q, hbad with
          | a :: b :: q, hbad =>
            simp only [badEscape, decide_true, Bool.true_and, Bool.not_eq_false', Bool.and_eq_true,
              Option.isSome_iff_exists] at hbad
            obtain ⟨⟨x, hx⟩, ⟨y, hy⟩⟩ := hbad
            refine .escape hx hy (not_ambiguous hx hy (not_pattern_of_search h.separator hq)
              (not_pattern_of_search h.params hq) (not_pattern_of_search h.ambiguous hq)) ?_
            simp only [length_cons] at hn
            exact ih q (by omega) (((suffix_cons b q).trans (suffix_cons a _)).trans hrest)
        · exact .char hc (ih q (by omega) hrest)
  exact hall path.length path le_rfl suffix_rfl

theorem ne_of_pathChar {c : ℕ} (h : pathChar c = true) : c ≠ 0 ∧ c ≠ backslash := by
  refine ⟨?_, ?_⟩
  · rintro rfl
    exact absurd h (by decide)
  · rintro rfl
    exact absurd h (by decide)

theorem ne_semicolon_of_pathOk {path : Text} (h : PathOk path) {c : ℕ} (hc : c ∈ path) :
    c ≠ semicolon := by
  rintro rfl
  obtain ⟨before, after, rfl⟩ := append_of_mem hc
  have hno := not_pattern_of_search h.params (suffix_append before (semicolon :: after))
  match after, hno with
  | [], hno => exact absurd hno (by decide)
  | [_], hno | _ :: _ :: _, hno => simp [pathParams] at hno

/-- A segment of dots, escaped or not, is not let through. -/
theorem dots_unquote {s : Text} (h : decode s = [dot] ∨ decode s = [dot, dot]) :
    dots (unquote s) = true := by
  have hascii : Utf8.decodeReplace (decode s) = decode s := by
    refine Utf8.decodeReplace_ascii fun b hb => ?_
    rcases h with h | h <;> rw [h] at hb <;> simp [dot] at hb <;> omega
  have hunquote : unquote s = decode s := by
    unfold unquote
    split
    · exact hascii
    next hnone =>
      exact (decode_eq_self hnone).symm
  rw [hunquote]
  rcases h with h | h <;> rw [h] <;> rfl

/-- **A path that the parser lets through is clean.** -/
theorem clean_of_parse {net : Net} {schemes : List Scheme} {maxLength : ℕ} {url : Text}
    {t : Target} (h : parse net schemes maxLength url = .ok t) : Clean t.path := by
  obtain ⟨-, hchars, hescape, hok⟩ := path_of_parse h
  refine ⟨escaped_of_pathOk hescape hok, fun c hc => ?_, fun s hs => ?_⟩
  · have hne := ne_of_pathChar (all_eq_true.1 hchars c hc)
    exact ⟨hne.1, ne_semicolon_of_pathOk hok hc, hne.2⟩
  · have hdots := hok.dots s hs
    refine ⟨fun hone => ?_, fun htwo => ?_⟩
    · rw [dots_unquote (.inl hone)] at hdots
      cases hdots
    · rw [dots_unquote (.inr htwo)] at hdots
      cases hdots

/-! ## Entries -/

/-- The prefix of an entry is the path of a URL that the parser lets through. -/
theorem parse_of_entry {net : Net} {spec : Text} {e : Entry} (h : entry net spec = .ok e) :
    ∃ url t, parse net [.http, .https] 2048 url = .ok t ∧ e.pathPrefix = t.path := by
  unfold entry at h
  split at h
  · cases h
  simp only at h
  split at h
  · cases h
  rename_i t hparse
  split at h
  · cases h
  cases h
  exact ⟨_, t, hparse, rfl⟩

/-- **A path that matches begins with the segments of the prefix.** -/
theorem segments_of_matches {e : Entry} {t : Target} (h : e.matches t = true)
    (hslash : t.path.head? = some slash) : trimmed (segments e.pathPrefix) <+: segments t.path := by
  have hbase := trimmed_segments_prefix e.pathPrefix
  generalize hb : e.pathPrefix.rdropWhile (· = slash) = base at hbase
  refine hbase.trans ?_
  simp only [Entry.matches, hb, Bool.and_eq_true, Bool.or_eq_true, decide_eq_true_eq] at h
  rcases h.2 with (hroot | hwhole) | hpart
  · rw [hroot] at hb
    obtain rfl : [] = base := hb
    obtain ⟨rest, hrest⟩ : ∃ rest, t.path = [] ++ slash :: rest := by
      cases hpath : t.path with
      | nil => rw [hpath] at hslash; cases hslash
      | cons c rest => rw [hpath] at hslash; cases hslash; exact ⟨rest, rfl⟩
    rw [hrest]
    unfold segments
    rw [splitOn_append_cons_self]
    exact prefix_append _ _
  · rw [hwhole]
  · obtain ⟨rest, hrest⟩ := isPrefixOf_iff_prefix.1 hpart
    rw [← hrest, append_assoc, singleton_append]
    unfold segments
    rw [splitOn_append_cons_self]
    exact prefix_append _ _

/-- **Prefix containment.** However a path that matches an entry is read, it
begins with the segments of the entry's prefix read in the same way; and with
the prefix's own segments just when the reading does not decode or the prefix
has no escape. -/
theorem prefix_containment (net : Net) {spec : List ℕ} {e : Entry} (he : entry net spec = .ok e)
    {schemes : List Scheme} {maxLength : ℕ} {url : List ℕ} {t : Target}
    (ht : parse net schemes maxLength url = .ok t) (hmatch : e.matches t = true)
    (steps : List Step) :
    trimmed (segments (UrlPath.read steps e.pathPrefix)) <+: segments (UrlPath.read steps t.path) ∧
      (trimmed (segments e.pathPrefix) <+: segments (UrlPath.read steps t.path) ↔
        .decode ∉ steps ∨ percent ∉ e.pathPrefix) := by
  obtain ⟨url', t', ht', hfront⟩ := parse_of_entry he
  have hclean : Clean e.pathPrefix := by
    rw [hfront]
    exact clean_of_parse ht'
  have hinitial := segments_of_matches hmatch (path_of_parse ht).1
  exact ⟨hclean.prefix_read (clean_of_parse ht) hinitial steps,
    hclean.raw_prefix_iff (clean_of_parse ht) hinitial steps⟩

/-- A platform that knows no addresses and no other alphabets. -/
def bareNet : Net where
  ipv4Address _ := none
  ipv6Address _ := none
  str _ := []
  flags _ := ⟨true, false, false, false, false, false, false⟩
  idna _ := none
  urljoin _ location := location

def spacedEntry : Entry := ⟨none, ascii "example.com", none, ascii "/a%20b/"⟩

def spacedTarget : Target :=
  ⟨.https, ascii "example.com", 443, false, ascii "/a%20b/c", [], false⟩

theorem entry_spaced : entry bareNet (ascii "example.com/a%20b/") = .ok spacedEntry := by
  decide +kernel

theorem parse_spaced :
    parse bareNet [.https] 2048 (ascii "https://Example.com/a%20b/c") = .ok spacedTarget := by
  decide +kernel

theorem matches_spaced : spacedEntry.matches spacedTarget = true := by
  decide +kernel

/-- Read by a server that decodes twice and resolves dot segments. -/
theorem prefix_containment_spaced :
    entry bareNet (ascii "example.com/a%20b/") = .ok spacedEntry ∧
      trimmed (segments (UrlPath.read [.decode, .decode, .dots] spacedEntry.pathPrefix)) <+:
        segments (UrlPath.read [.decode, .decode, .dots] spacedTarget.path) :=
  ⟨entry_spaced,
    (prefix_containment bareNet entry_spaced parse_spaced matches_spaced
      [.decode, .decode, .dots]).1⟩

/-- **The prefix's own segments are not found once the path is decoded**: the
server sees `/a b/c`, and the prefix is `/a%20b`. -/
theorem raw_prefix_fails :
    entry bareNet (ascii "example.com/a%20b/") = .ok spacedEntry ∧
      parse bareNet [.https] 2048 (ascii "https://Example.com/a%20b/c") = .ok spacedTarget ∧
      spacedEntry.matches spacedTarget = true ∧
      ¬ trimmed (segments spacedEntry.pathPrefix) <+:
        segments (UrlPath.read [.decode] spacedTarget.path) := by
  refine ⟨entry_spaced, parse_spaced, matches_spaced, ?_⟩
  decide +kernel

end Pydeno.HttpFetch
