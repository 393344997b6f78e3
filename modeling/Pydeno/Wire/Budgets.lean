import Pydeno.Wire.Model.Decoder
import Pydeno.Wire.Parsing

/-!
# What a peer can make the decoder build

A frame comes from a process that may be hostile. Whatever bytes it sends,
the values decoded from one frame are bounded: in number, in depth, in the
integers that come without a tag, and in how many members of a set or keys
of a tagged dictionary share a hash. One lemma says what a decoding step
pays for and keeps (`decode_spec`, `decodeNode_spec`), by induction on the
levels that are left; the frame's bounds follow.
-/

namespace Pydeno.Wire

open List

variable {Date : Type}

/-! ## Measures -/

/-- The values a value holds directly. -/
def Decoded.children : Decoded Date → List (Decoded Date)
  | .list items => items
  | .set members => members
  | .dict entries => entries.map Prod.snd
  | .mapping entries => entries.flatMap fun e => [e.1, e.2]
  | _ => []

mutual

/-- How many decoded values a value holds, itself included: the keys of a
tagged dictionary are decoded, those of a plain one are not. -/
def Decoded.count : Decoded Date → ℕ
  | .list items => 1 + countItems items
  | .set members => 1 + countItems members
  | .dict entries => 1 + countEntries entries
  | .mapping entries => 1 + countPairs entries
  | _ => 1

def Decoded.countItems : List (Decoded Date) → ℕ
  | [] => 0
  | d :: rest => d.count + Decoded.countItems rest

def Decoded.countEntries : List (List ℕ × Decoded Date) → ℕ
  | [] => 0
  | (_, d) :: rest => d.count + Decoded.countEntries rest

def Decoded.countPairs : List (Decoded Date × Decoded Date) → ℕ
  | [] => 0
  | (k, d) :: rest => k.count + d.count + Decoded.countPairs rest

end

mutual

/-- How deep a value nests: a scalar and an empty container are at depth 0. -/
def Decoded.depth : Decoded Date → ℕ
  | .list items => depthItems items
  | .set members => depthItems members
  | .dict entries => depthEntries entries
  | .mapping entries => depthPairs entries
  | _ => 0

def Decoded.depthItems : List (Decoded Date) → ℕ
  | [] => 0
  | d :: rest => max (d.depth + 1) (Decoded.depthItems rest)

def Decoded.depthEntries : List (List ℕ × Decoded Date) → ℕ
  | [] => 0
  | (_, d) :: rest => max (d.depth + 1) (Decoded.depthEntries rest)

def Decoded.depthPairs : List (Decoded Date × Decoded Date) → ℕ
  | [] => 0
  | (k, d) :: rest => max (max (k.depth + 1) (d.depth + 1)) (Decoded.depthPairs rest)

end

/-- `x` is `d` or stands somewhere inside it. -/
inductive PartOf (x : Decoded Date) : Decoded Date → Prop where
  | refl : PartOf x x
  | step {c d : Decoded Date} : c ∈ d.children → PartOf x c → PartOf x d

/-- No integer that came without a tag is outside the safe range. -/
def SafeInts (d : Decoded Date) : Prop :=
  ∀ z, PartOf (.plain (.int z)) d → -SAFE_INT ≤ z ∧ z ≤ SAFE_INT

/-- All of them can be hashed, and no more than 16 of them share a hash. -/
def FewPerHash (py : Python) (values : List (Decoded py.Date)) : Prop :=
  ∃ scalars : List (Scalar py.Date), values.map Decoded.scalar? = scalars.map some ∧
    ∀ h, (scalars.map py.hash).count h ≤ MAX_HASH_REPEATS

/-- Every set, and every dictionary that came in a tag, was built from a
list in which few share a hash. -/
def FewRepeats (py : Python) (d : Decoded py.Date) : Prop :=
  (∀ members, PartOf (.set members) d → FewPerHash py members) ∧
  ∀ entries, PartOf (.mapping entries) d → FewPerHash py (entries.map Prod.fst)

/-- **What holds of a value decoded with `room` levels left.** -/
structure Within (py : Python) (room : ℕ) (d : Decoded py.Date) : Prop where
  deep : d.depth < room
  safe : SafeInts d
  few : FewRepeats py d

/-! ## Values and their children -/

theorem countItems_eq (ds : List (Decoded Date)) :
    Decoded.countItems ds = (ds.map Decoded.count).sum := by
  induction ds with
  | nil => rfl
  | cons d ds ih => rw [Decoded.countItems, ih, map_cons, sum_cons]

theorem countEntries_eq (es : List (List ℕ × Decoded Date)) :
    Decoded.countEntries es = (es.map fun e => e.2.count).sum := by
  induction es with
  | nil => rfl
  | cons e es ih =>
    obtain ⟨k, d⟩ := e
    rw [Decoded.countEntries, ih, map_cons, sum_cons]

theorem countPairs_eq (es : List (Decoded Date × Decoded Date)) :
    Decoded.countPairs es = (es.map fun e => e.1.count + e.2.count).sum := by
  induction es with
  | nil => rfl
  | cons e es ih =>
    obtain ⟨k, d⟩ := e
    rw [Decoded.countPairs, ih, map_cons, sum_cons]

theorem depthItems_lt {ds : List (Decoded Date)} {n : ℕ} :
    Decoded.depthItems ds < n + 1 ↔ ∀ d ∈ ds, d.depth < n := by
  induction ds with
  | nil => simp [Decoded.depthItems]
  | cons d ds ih =>
    rw [Decoded.depthItems, forall_mem_cons, ← ih]
    omega

theorem depthEntries_lt {es : List (List ℕ × Decoded Date)} {n : ℕ} :
    Decoded.depthEntries es < n + 1 ↔ ∀ e ∈ es, e.2.depth < n := by
  induction es with
  | nil => simp [Decoded.depthEntries]
  | cons e es ih =>
    obtain ⟨k, d⟩ := e
    rw [Decoded.depthEntries, forall_mem_cons, ← ih]
    simp only
    omega

theorem depthPairs_lt {es : List (Decoded Date × Decoded Date)} {n : ℕ} :
    Decoded.depthPairs es < n + 1 ↔ ∀ e ∈ es, e.1.depth < n ∧ e.2.depth < n := by
  induction es with
  | nil => simp [Decoded.depthPairs]
  | cons e es ih =>
    obtain ⟨k, d⟩ := e
    rw [Decoded.depthPairs, forall_mem_cons, ← ih]
    simp only
    omega

theorem depth_lt_of_children {d : Decoded Date} {n : ℕ} (h : ∀ c ∈ d.children, c.depth < n) :
    d.depth < n + 1 := by
  cases d with
  | plain s | tagged s => simp only [Decoded.depth]; omega
  | list items | set members => rw [Decoded.depth, depthItems_lt]; exact h
  | dict entries =>
    rw [Decoded.depth, depthEntries_lt]
    exact fun e he => h e.2 (mem_map_of_mem he)
  | mapping entries =>
    rw [Decoded.depth, depthPairs_lt]
    refine fun e he => ⟨h e.1 ?_, h e.2 ?_⟩
    · exact mem_flatMap.mpr ⟨e, he, by simp⟩
    · exact mem_flatMap.mpr ⟨e, he, by simp⟩

theorem partOf_iff {x d : Decoded Date} : PartOf x d ↔ x = d ∨ ∃ c ∈ d.children, PartOf x c := by
  constructor
  · intro h
    cases h with
    | refl => exact .inl rfl
    | step hc hx => exact .inr ⟨_, hc, hx⟩
  · rintro (rfl | ⟨c, hc, hx⟩)
    · exact PartOf.refl
    · exact PartOf.step hc hx

variable {py : Python} {multi single : List (List ℕ)} {entries : List (Str × Node)}
    {msg : List (List ℕ × Field py.Date)}

/-- **A value from its children**: what is asked of the value itself is left. -/
theorem Within.of_children {room : ℕ} {d : Decoded py.Date}
    (hc : ∀ c ∈ d.children, Within py room c)
    (hint : ∀ z, d = .plain (.int z) → -SAFE_INT ≤ z ∧ z ≤ SAFE_INT)
    (hset : ∀ members, d = .set members → FewPerHash py members)
    (hmap : ∀ entries, d = .mapping entries → FewPerHash py (entries.map Prod.fst)) :
    Within py (room + 1) d := by
  refine ⟨depth_lt_of_children fun c h => (hc c h).deep, ?_, ?_, ?_⟩
  · intro z hz
    rcases partOf_iff.mp hz with h | ⟨c, hin, hx⟩
    · exact hint z h.symm
    · exact (hc c hin).safe z hx
  · intro members hm
    rcases partOf_iff.mp hm with h | ⟨c, hin, hx⟩
    · exact hset members h.symm
    · exact (hc c hin).few.1 members hx
  · intro entries he
    rcases partOf_iff.mp he with h | ⟨c, hin, hx⟩
    · exact hmap entries h.symm
    · exact (hc c hin).few.2 entries hx

/-! ## Loops -/

/-- What every turn of a loop pays for, the loop pays for. -/
theorem decodeAll_spec {α β : Type} {f : α → ℤ → Spending β} {P : β → Prop} {cost : β → ℕ}
    (hf : ∀ x left y left', f x left = .ok (y, left') → P y ∧ 0 ≤ left' ∧ left' + cost y = left) :
    ∀ (xs : List α) (left : ℤ) (ys : List β) (left' : ℤ), 0 ≤ left →
      decodeAll f xs left = .ok (ys, left') →
      (∀ y ∈ ys, P y) ∧ 0 ≤ left' ∧ left' + ((ys.map cost).sum : ℕ) = left := by
  intro xs
  induction xs with
  | nil =>
    intro left ys left' hleft h
    rw [decodeAll] at h
    cases h
    exact ⟨by simp, hleft, by simp⟩
  | cons x xs ih =>
    intro left ys left' hleft h
    rw [decodeAll] at h
    split at h
    · cases h
    rename_i y left₁ hy
    obtain ⟨hP, hnn, hcost⟩ := hf x left y left₁ hy
    split at h
    · cases h
    rename_i ys' left₂ hys
    obtain ⟨rfl, rfl⟩ := Prod.mk.inj (Except.ok.inj h)
    obtain ⟨hPs, hnn2, hcosts⟩ := ih left₁ ys' left₂ hnn hys
    refine ⟨forall_mem_cons.mpr ⟨hP, hPs⟩, hnn2, ?_⟩
    rw [map_cons, sum_cons]
    push_cast at hcosts ⊢
    omega

theorem count_le_of_floodLoop {kind : Collection} :
    ∀ (values : List (Decoded py.Date)) (seen : List ℤ), floodLoop py kind values seen = .ok () →
      (∀ h, seen.count h ≤ MAX_HASH_REPEATS) →
      ∃ scalars : List (Scalar py.Date), values.map Decoded.scalar? = scalars.map some ∧
        ∀ h, (scalars.map py.hash).count h + seen.count h ≤ MAX_HASH_REPEATS := by
  intro values
  induction values with
  | nil => intro seen _ hseen; exact ⟨[], rfl, by simpa using hseen⟩
  | cons v values ih =>
    intro seen h hseen
    rw [floodLoop] at h
    split at h
    · cases h
    rename_i s hs
    simp only at h
    split_ifs at h with hover
    have hseen' : ∀ h, (py.hash s :: seen).count h ≤ MAX_HASH_REPEATS := by
      intro h
      rw [count_cons]
      split_ifs with heq
      · rw [beq_iff_eq] at heq
        rw [← heq]
        omega
      · exact hseen h
    obtain ⟨scalars, hmap, hcount⟩ := ih _ h hseen'
    refine ⟨s :: scalars, by rw [map_cons, map_cons, hs, hmap], fun h => ?_⟩
    have := hcount h
    rw [map_cons, count_cons]
    rw [count_cons] at this
    omega

/-- What has passed both checks was built from a list in which few share a
hash. -/
theorem fewPerHash_of_checkMembers {values : List (Decoded py.Date)} {kind : Collection}
    (h : checkMembers py values kind = .ok ()) : FewPerHash py values := by
  rw [checkMembers] at h
  split at h
  · cases h
  rename_i hflood
  rw [rejectHashFlood] at hflood
  split_ifs at hflood with hlen
  · -- a list of 16 cannot hold more than 16 of anything
    rw [hashAll] at h
    split_ifs at h with hall
    rw [all_eq_true] at hall
    obtain ⟨scalars, hs⟩ : ∃ scalars : List (Scalar py.Date),
        values.map Decoded.scalar? = scalars.map some := by
      clear hlen
      induction values with
      | nil => exact ⟨[], rfl⟩
      | cons v values ih =>
        obtain ⟨scalars, hs⟩ := ih fun x hx => hall x (by simp [hx])
        obtain ⟨s, hv⟩ := Option.isSome_iff_exists.mp (hall v (by simp))
        exact ⟨s :: scalars, by rw [map_cons, map_cons, hs, hv]⟩
    refine ⟨scalars, hs, fun h => ?_⟩
    have hl := congrArg List.length hs
    rw [length_map, length_map] at hl
    have hle := count_le_length (a := h) (l := scalars.map py.hash)
    rw [length_map] at hle
    omega
  · obtain ⟨scalars, hs, hcount⟩ := count_le_of_floodLoop values [] hflood (by simp)
    exact ⟨scalars, hs, by simpa using hcount⟩

/-! ## One value -/

/-- **What a decoding step pays for**: the value is within the limits of
`room`, and the budget has shrunk by the number of values in it. -/
def Pays (py : Python) (room : ℕ) (d : Decoded py.Date) (left left' : ℤ) : Prop :=
  Within py room d ∧ 0 ≤ left' ∧ left' + d.count = left

/-- A decoder that pays for what it returns. -/
def Paying {α : Type} (py : Python) (room : ℕ) (dec : α → ℤ → Spending (Decoded py.Date)) : Prop :=
  ∀ x left d left', dec x left = .ok (d, left') → Pays py room d left left'

section

variable {py : Python} {room : ℕ} {left left' : ℤ}
variable {d : Decoded py.Date} {dec : Obj → ℤ → Spending (Decoded py.Date)}

theorem pays_scalar {v : Decoded py.Date}
    (h : (.ok (v, left - 1) : Spending (Decoded py.Date)) = .ok (d, left'))
    (hleft : ¬ left - 1 < 0)
    (hint : ∀ z, v = .plain (.int z) → -SAFE_INT ≤ z ∧ z ≤ SAFE_INT := by simp)
    (hcount : v.count = 1 := by simp only [Decoded.count]) (hc : v.children = [] := by rfl) :
    Pays py (room + 1) d left left' := by
  cases h
  refine ⟨Within.of_children (by rw [hc]; simp) hint ?_ ?_, by omega, by rw [hcount]; omega⟩
  · -- sets and dictionaries are charged for their members
    rintro members rfl
    rw [Decoded.children] at hc
    subst hc
    exact ⟨[], rfl, by simp⟩
  · rintro entries rfl
    rw [Decoded.children] at hc
    cases entries with
    | nil => exact ⟨[], rfl, by simp⟩
    | cons e es => simp at hc

theorem pays_list {items : List (Decoded py.Date)} (h : ∀ d ∈ items, Within py room d)
    (hleft : 0 ≤ left') (hcost : left' + ((items.map Decoded.count).sum : ℕ) = left - 1) :
    Pays py (room + 1) (.list items) left left' := by
  refine ⟨Within.of_children h (by simp) (by simp) (by simp), hleft, ?_⟩
  rw [Decoded.count, countItems_eq]
  push_cast at hcost ⊢
  omega

theorem pays_dict {entries : List (List ℕ × Decoded py.Date)} (h : ∀ e ∈ entries, Within py room e.2)
    (hleft : 0 ≤ left') (hcost : left' + ((entries.map fun e => e.2.count).sum : ℕ) = left - 1) :
    Pays py (room + 1) (.dict entries) left left' := by
  refine ⟨Within.of_children ?_ (by simp) (by simp) (by simp), hleft, ?_⟩
  · intro c hc
    obtain ⟨e, he, rfl⟩ := mem_map.mp hc
    exact h e he
  · rw [Decoded.count, countEntries_eq]
    push_cast at hcost ⊢
    omega

theorem decodeEntry_spec {α K : Type} {dec : α → ℤ → Spending (Decoded py.Date)}
    (hdec : Paying py room dec) (e : K × α) (left : ℤ) (y : K × Decoded py.Date) (left' : ℤ)
    (h : decodeEntry dec e left = .ok (y, left')) :
    Within py room y.2 ∧ 0 ≤ left' ∧ left' + y.2.count = left := by
  rw [decodeEntry] at h
  split at h
  · cases h
  rename_i v left₁ hv
  cases h
  exact hdec _ _ _ _ hv

theorem decodePair_spec (hdec : Paying py room dec)
    (pair : Obj) (left : ℤ) (y : Decoded py.Date × Decoded py.Date) (left' : ℤ)
    (h : decodePair py dec pair left = .ok (y, left')) :
    (Within py room y.1 ∧ Within py room y.2) ∧ 0 ≤ left' ∧
      left' + (y.1.count + y.2.count : ℕ) = left := by
  rw [decodePair.eq_def] at h
  split at h
  · split at h
    · cases h
    next key left₁ hk =>
      split at h
      · cases h
      rename_i value left₂ hv
      cases h
      obtain ⟨hwk, -, hck⟩ := hdec _ _ _ _ hk
      obtain ⟨hwv, hnn, hcv⟩ := hdec _ _ _ _ hv
      refine ⟨⟨hwk, hwv⟩, hnn, ?_⟩
      push_cast
      omega
  · cases h

/-- A tagged value: the payload of a set or a dictionary is paid for value by
value, everything else is one scalar. -/
theorem decodeTagged_spec (hdec : Paying py room dec)
    {tag : List ℕ} {payload : Obj} (hleft : ¬ left - 1 < 0)
    (h : decodeTagged py dec tag payload (left - 1) = .ok (d, left')) :
    Pays py (room + 1) d left left' := by
  have hscalar : ∀ r, taggedScalar py (left - 1) r = .ok (d, left') →
      Pays py (room + 1) d left left' := by
    intro r hr
    rw [taggedScalar.eq_def] at hr
    split at hr
    · exact pays_scalar hr hleft
    · cases hr
  have hnn : 0 ≤ left - 1 := by omega
  unfold decodeTagged at h
  simp only at h
  split_ifs at h
  · exact hscalar _ h
  · exact hscalar _ h
  · exact hscalar _ h
  · exact hscalar _ h
  · rw [setPayload.eq_def] at h
    split at h
    · split at h
      · cases h
      next members left₁ hall =>
        split at h
        · cases h
        rename_i hcheck
        cases h
        obtain ⟨hw, hl, hcost⟩ := decodeAll_spec hdec _ _ _ _ hnn hall
        refine ⟨Within.of_children hw (by simp) ?_ (by simp), hl, ?_⟩
        · rintro _ ⟨⟩
          exact fewPerHash_of_checkMembers hcheck
        · rw [Decoded.count, countItems_eq]
          push_cast at hcost ⊢
          omega
    · cases h
  · rw [dictPayload.eq_def] at h
    split at h
    · split at h
      · cases h
      next entries left₁ hall =>
        split at h
        · cases h
        rename_i hcheck
        cases h
        obtain ⟨hw, hl, hcost⟩ := decodeAll_spec (decodePair_spec hdec) _ _ _ _ hnn hall
        refine ⟨Within.of_children ?_ (by simp) (by simp) ?_, hl, ?_⟩
        · intro c hc
          obtain ⟨e, he, hin⟩ := mem_flatMap.mp hc
          simp only [mem_cons, not_mem_nil, or_false] at hin
          rcases hin with rfl | rfl
          · exact (hw e he).1
          · exact (hw e he).2
        · rintro _ ⟨⟩
          exact fewPerHash_of_checkMembers hcheck
        · rw [Decoded.count, countPairs_eq]
          push_cast at hcost ⊢
          omega
    · cases h

theorem decodeDict_spec (hdec : Paying py room dec)
    {entries : List (List ℕ × Obj)} (hleft : ¬ left - 1 < 0)
    (h : decodeDict py dec entries (left - 1) = .ok (d, left')) :
    Pays py (room + 1) d left left' := by
  rw [decodeDict] at h
  split at h
  · split at h
    · cases h
    next out left₁ hall =>
      cases h
      obtain ⟨hw, hl, hcost⟩ := decodeAll_spec (decodeEntry_spec hdec) _ _ _ _ (by omega) hall
      exact pays_dict hw hl hcost
  · split_ifs at h
    · exact pays_scalar h hleft
    · split at h
      · cases h
      · exact decodeTagged_spec hdec hleft h
  · cases h

/-- **`decode` pays for what it returns.** The induction is on the levels
that are left. -/
theorem decode_spec (py : Python) : ∀ room : ℕ, Paying py room (decode py room) := by
  intro room
  induction room with
  | zero =>
    intro obj left d left' h
    rw [decode] at h
    split_ifs at h
  | succ room ih =>
    intro obj left d left' h
    rw [decode] at h
    split_ifs at h with hleft
    simp only at h
    split at h
    · exact pays_scalar h hleft
    · exact pays_scalar h hleft
    · exact pays_scalar h hleft
    · split_ifs at h with hsafe
      refine pays_scalar h hleft ?_
      rintro _ ⟨⟩
      exact hsafe
    · exact pays_scalar h hleft
    · split at h
      · cases h
      next out left₁ hall =>
        cases h
        obtain ⟨hw, hl, hcost⟩ := decodeAll_spec ih _ _ _ _ (by omega) hall
        exact pays_list hw hl hcost
    · exact decodeDict_spec ih hleft h

/-- **`decode_node` pays for what it returns**, and leaves a tagged object to
`decode`. -/
theorem decodeNode_spec (py : Python) : ∀ room : ℕ, Paying py room (decodeNode py room) := by
  intro room
  induction room with
  | zero =>
    intro node left d left' h
    rw [decodeNode] at h
    split_ifs at h
    split at h
    · cases h
    exact decode_spec py 0 _ _ _ _ h
  | succ room ih =>
    intro node left d left' h
    rw [decodeNode] at h
    split_ifs at h with hdollar hleft
    · split at h
      · cases h
      · exact decode_spec py _ _ _ _ _ h
    simp only at h
    split at h
    · exact pays_scalar h hleft
    · exact pays_scalar h hleft
    · exact pays_scalar h hleft
    · exact pays_scalar h hleft
    · split_ifs at h with hsafe
      refine pays_scalar h hleft ?_
      rintro _ ⟨⟩
      exact hsafe
    · cases h
    · split at h
      · cases h
      next out left₁ hall =>
        cases h
        obtain ⟨hw, hl, hcost⟩ := decodeAll_spec ih _ _ _ _ (by omega) hall
        exact pays_list hw hl hcost
    · split at h
      · cases h
      next out left₁ hall =>
        cases h
        obtain ⟨hw, hl, hcost⟩ := decodeAll_spec (decodeEntry_spec ih) _ _ _ _ (by omega) hall
        refine pays_dict ?_ hl (by rw [map_map]; exact hcost)
        intro e he
        obtain ⟨e', he', rfl⟩ := mem_map.mp he
        exact hw e' he'

end

/-! ## Frames -/

/-- **The bounds on the values of one frame**, taken together. -/
structure Bounded (py : Python) (ds : List (Decoded py.Date)) : Prop where
  count_le : (ds.map Decoded.count).sum ≤ MAX_NODES
  depth_le : ∀ d ∈ ds, d.depth ≤ MAX_DEPTH
  safe : ∀ d ∈ ds, SafeInts d
  few : ∀ d ∈ ds, FewRepeats py d

theorem bounded_of_within {ds : List (Decoded py.Date)} {left' : ℤ}
    (h : ∀ d ∈ ds, Within py (MAX_DEPTH + 1) d) (hleft : 0 ≤ left')
    (hcost : left' + ((ds.map Decoded.count).sum : ℕ) = MAX_NODES) : Bounded py ds :=
  ⟨by omega, fun d hd => Nat.lt_succ_iff.mp (h d hd).deep, fun d hd => (h d hd).safe,
    fun d hd => (h d hd).few⟩

/-- Every field of the message comes from an entry of the frame. -/
theorem mem_decodeFields {maxNodes : ℤ} {maxDepth : ℕ} :
    ∀ {entries : List (Str × Node)} {msg : List (List ℕ × Field py.Date)},
      decodeFields py single multi maxNodes maxDepth entries = .ok msg → ∀ f ∈ msg,
        ∃ e ∈ entries, decodeField py single multi maxNodes maxDepth e = .ok f := by
  intro entries
  induction entries with
  | nil =>
    intro msg h f hf
    rw [decodeFields] at h
    cases h
    cases hf
  | cons e entries ih =>
    intro msg h f hf
    rw [decodeFields] at h
    split at h
    · cases h
    rename_i field hfield
    split at h
    · cases h
    rename_i out hout
    cases h
    rcases mem_cons.mp hf with rfl | hf
    · exact ⟨e, by simp, hfield⟩
    · obtain ⟨e', he', hdec⟩ := ih hout f hf
      exact ⟨e', by simp [he'], hdec⟩

/-- The key of a field is the key of its entry. -/
theorem decodeField_key {maxNodes : ℤ} {maxDepth : ℕ} {e : Str × Node} {f : List ℕ × Field py.Date}
    (h : decodeField py single multi maxNodes maxDepth e = .ok f) : f.1 = pyStr e.1 := by
  have hmap : ∀ {α : Type} {r : Except DecodeError α} {g : α → Field py.Date},
      r.map (fun x => (pyStr e.1, g x)) = .ok f → f.1 = pyStr e.1 := by
    intro α r g hr
    cases r with
    | error err => cases hr
    | ok x => cases hr; rfl
  unfold decodeField at h
  simp only at h
  split_ifs at h
  · exact hmap h
  · split at h
    · exact hmap h
    · exact hmap h

/-- A key of the parser that is an ASCII text is kept as text. -/
theorem canon_eq_plain {us text : List ℕ} (htext : Utf8.Scalars text)
    (h : pyStr (canon us) = text) : canon us = .plain text := by
  rw [canon] at h ⊢
  split_ifs at h ⊢ with hs
  · rw [← h, pyStr]
  · rw [pyStr] at h
    rw [h] at hs
    exact absurd htext hs

theorem keys_toEntries (es : List (List ℕ × Json.Value)) :
    ∀ e ∈ toEntries es, ∃ us, e.1 = canon us := by
  intro e he
  have hmem : e.1 ∈ (toEntries es).map Prod.fst := mem_map_of_mem he
  rw [map_fst_toEntries] at hmem
  obtain ⟨us, -, hus⟩ := mem_map.mp hmem
  exact ⟨us, hus.symm⟩

/-- **The entries of a parsed object**: their keys are canonical and
distinct. -/
theorem parse_obj_keys {data : Bytes} {maxNodes maxDepth : ℕ}
    (h : parse data maxNodes maxDepth = .ok (.obj entries)) :
    (∀ e ∈ entries, ∃ us, e.1 = canon us) ∧ (entries.map Prod.fst).Nodup := by
  cases hutf : Utf8.fromUtf8 data with
  | none =>
    rw [parse_of_not_utf8 hutf] at h
    cases h
  | some t =>
    rcases parse_spec hutf maxNodes maxDepth with ⟨d, hd, hfits, hok⟩ | ⟨-, e, herr⟩
    · rw [hok] at h
      have hnode : toNode d = .obj entries := Except.ok.inj h
      cases d with
      | obj es =>
        rw [toNode] at hnode
        obtain rfl := Node.obj.inj hnode
        refine ⟨keys_toEntries es, ?_⟩
        have hkeys := hfits.distinct
        rw [DistinctKeys] at hkeys
        obtain ⟨hscalars, -⟩ := Utf8.fromUtf8_eq_some_iff.mp hutf
        obtain ⟨w, body, w', -, hder, -, rfl⟩ := hd
        have hrange := inRange_of_derives hder fun c hc => hscalars c (by simp [hc])
        rw [InRange] at hrange
        rw [← hasDuplicate_eq_false, hasDuplicate_toEntries (keys_inRange hrange)]
        exact hkeys.1
      | null | bool b | str us | arr items => rw [toNode] at hnode; cases hnode
      | num n => rw [toNode, numNode] at hnode; split_ifs at hnode
    · rw [herr] at h
      cases h

/-- The frame behind a message. -/
theorem loadsDecoded_frame {data : Bytes} (h : loadsDecoded py data = .ok msg) :
    ∃ entries kind, (∀ e ∈ entries, ∃ us, e.1 = canon us) ∧ (entries.map Prod.fst).Nodup ∧
      kindOf entries = some kind ∧
      decodeFields py (DECODE_SPEC kind).1 (DECODE_SPEC kind).2 MAX_NODES MAX_DEPTH entries
        = .ok msg := by
  rw [loadsDecoded, wireLoadsDecoded] at h
  split at h
  · cases h
  next entries hparse =>
    split at h
    · cases h
    rename_i kind hkind
    obtain ⟨hcanon, hnodup⟩ := parse_obj_keys hparse
    exact ⟨entries, kind, hcanon, hnodup, hkind, h⟩
  · cases h

/-- The entry behind a field, found by its key. -/
theorem mem_field (hcanon : ∀ e ∈ entries, ∃ us, e.1 = canon us)
    (h : decodeFields py single multi MAX_NODES MAX_DEPTH entries = .ok msg) {key : List ℕ}
    (hkey : Utf8.Scalars key) {f : Field py.Date} (hf : (key, f) ∈ msg) :
    ∃ node, (Str.plain key, node) ∈ entries ∧
      decodeField py single multi MAX_NODES MAX_DEPTH (.plain key, node) = .ok (key, f) := by
  obtain ⟨e, he, hdec⟩ := mem_decodeFields h _ hf
  obtain ⟨us, hus⟩ := hcanon e he
  have htext := decodeField_key hdec
  have hplain : e.1 = .plain key := by
    rw [hus]
    exact canon_eq_plain hkey (by rw [← hus]; exact htext.symm)
  obtain ⟨k, node⟩ := e
  simp only at hplain
  subst hplain
  exact ⟨node, he, hdec⟩

theorem decodeField_plain {key : List ℕ} {node : Node}
    {f : Field py.Date} (hsingle : key ∉ single) (hmulti : key ∉ multi)
    (h : decodeField py single multi MAX_NODES MAX_DEPTH (.plain key, node) = .ok (key, f)) :
    ∃ o, toPy py node = .ok o ∧ f = .plain o := by
  have hno : decide (key ∈ multi) = false := decide_eq_false hmulti
  unfold decodeField at h
  simp only [if_neg hsingle, hno] at h
  cases hpy : toPy py node with
  | error e => rw [hpy] at h; cases h
  | ok o => rw [hpy] at h; cases h; exact ⟨o, rfl, rfl⟩

theorem toPy_not_list {node : Node} {o : Obj} (h : ∀ items, node ≠ .list items)
    (hpy : toPy py node = .ok o) : ∀ items, o ≠ .list items := by
  rintro items rfl
  cases node with
  | list items => exact h items rfl
  | big text | obj entries =>
    rw [toPy] at hpy
    split at hpy <;> cases hpy
  | _ => rw [toPy] at hpy; cases hpy

/-- The type a message carries is the type it was decoded by. -/
theorem kind_of_mem {kind k : List ℕ} (hcanon : ∀ e ∈ entries, ∃ us, e.1 = canon us)
    (hnodup : (entries.map Prod.fst).Nodup) (hkind : kindOf entries = some kind)
    (h : decodeFields py (DECODE_SPEC kind).1 (DECODE_SPEC kind).2 MAX_NODES MAX_DEPTH entries
      = .ok msg) (hk : (ascii "t", Field.plain (.str k)) ∈ msg) : k = kind := by
  have hspec : ascii "t" ∉ (DECODE_SPEC kind).1 ∧ ascii "t" ∉ (DECODE_SPEC kind).2 := by
    unfold DECODE_SPEC
    split_ifs <;> decide
  obtain ⟨node, hmem, hdec⟩ := mem_field hcanon h (by decide) hk
  obtain ⟨o, hpy, ho⟩ := decodeField_plain hspec.1 hspec.2 hdec
  obtain rfl := Field.plain.inj ho
  -- the entry the type was read from has the same key, so it is the same entry
  rw [kindOf] at hkind
  split at hkind
  next key s hfind =>
    cases hkind
    have hin := mem_reverse.mp (mem_of_find?_eq_some hfind)
    have hkey := List.find?_some hfind
    simp only [beq_iff_eq] at hkey
    subst hkey
    have hsame := inj_on_of_nodup_map hnodup hmem hin rfl
    obtain rfl := (Prod.mk.inj hsame).2
    rw [toPy, pyStr] at hpy
    exact (Obj.str.inj (Except.ok.inj hpy)).symm
  · cases hkind

/-- **What a peer can make the decoder build.** The value of a result frame,
and the arguments of a call frame taken together, are within the budgets;
and so is whatever `decode_node`, or `decode` below a tagged object, returns
for a subtree, with what is left of the budget and of the depth there. -/
theorem loadsDecoded_bounded (py : Python) (data : Bytes) (msg : List (List ℕ × Field py.Date))
    (h : loadsDecoded py data = .ok msg) :
    ((ascii "t", Field.plain (.str (ascii "result"))) ∈ msg → ∀ f, (ascii "v", f) ∈ msg →
      ∃ d, f = .single d ∧ Bounded py [d]) ∧
    ((ascii "t", Field.plain (.str (ascii "call"))) ∈ msg → ∀ f, (ascii "args", f) ∈ msg →
      (∃ ds, f = .multi ds ∧ Bounded py ds) ∨ ∃ o, f = .plain o ∧ ∀ items, o ≠ .list items) ∧
    (∀ room node left d left', decodeNode py room node left = .ok (d, left') →
      0 ≤ left' ∧ left' + d.count = left ∧ d.depth < room ∧ SafeInts d ∧ FewRepeats py d) ∧
    (∀ room obj left d left', decode py room obj left = .ok (d, left') →
      0 ≤ left' ∧ left' + d.count = left ∧ d.depth < room ∧ SafeInts d ∧ FewRepeats py d) := by
  obtain ⟨entries, kind, hcanon, hnodup, hkind, hfields⟩ := loadsDecoded_frame h
  refine ⟨?_, ?_, ?_, ?_⟩
  · intro hresult f hf
    obtain rfl := kind_of_mem hcanon hnodup hkind hfields hresult
    obtain ⟨node, -, hdec⟩ := mem_field hcanon hfields (by decide) hf
    unfold decodeField at hdec
    simp only at hdec
    rw [if_pos (by decide)] at hdec
    cases hnode : decodeNode py (MAX_DEPTH + 1) node MAX_NODES with
    | error e => rw [hnode] at hdec; cases hdec
    | ok r =>
      obtain ⟨d, left'⟩ := r
      rw [hnode] at hdec
      cases hdec
      obtain ⟨hw, hl, hcost⟩ := decodeNode_spec py _ _ _ _ _ hnode
      exact ⟨d, rfl, bounded_of_within (by simpa using hw) hl (by simpa using hcost)⟩
  · intro hcall f hf
    obtain rfl := kind_of_mem hcanon hnodup hkind hfields hcall
    obtain ⟨node, -, hdec⟩ := mem_field hcanon hfields (by decide) hf
    unfold decodeField at hdec
    simp only at hdec
    rw [if_neg (by decide), decide_eq_true (by decide)] at hdec
    split at hdec
    next items _ =>
      cases hall : decodeAll (decodeNode py (MAX_DEPTH + 1)) items MAX_NODES with
      | error e => rw [hall] at hdec; cases hdec
      | ok r =>
        obtain ⟨ds, left'⟩ := r
        rw [hall] at hdec
        cases hdec
        obtain ⟨hw, hl, hcost⟩ := decodeAll_spec (decodeNode_spec py _) _ _ _ _ (by decide) hall
        exact .inl ⟨ds, rfl, bounded_of_within hw hl hcost⟩
    next node _ _ hnot =>
      cases hpy : toPy py node with
      | error e => rw [hpy] at hdec; cases hdec
      | ok o =>
        rw [hpy] at hdec
        cases hdec
        exact .inr ⟨o, rfl, toPy_not_list (fun items he => hnot items rfl he) hpy⟩
  · intro room node left d left' hnode
    obtain ⟨hw, hl, hcost⟩ := decodeNode_spec py room node left d left' hnode
    exact ⟨hl, hcost, hw.deep, hw.safe, hw.few⟩
  · intro room obj left d left' hobj
    obtain ⟨hw, hl, hcost⟩ := decode_spec py room obj left d left' hobj
    exact ⟨hl, hcost, hw.deep, hw.safe, hw.few⟩

/-- A Python that converts nothing. -/
def barePython : Python where
  Date := Unit
  dateEq := fun _ _ => true
  int := fun _ => none
  b64decode := fun _ => none
  fromisoformat := fun _ => none
  hash := fun _ => 0

/-- A message of two fields, its type and one that was decoded. -/
def carries (kind name : List ℕ) : Except DecodeError (List (List ℕ × Field barePython.Date)) → Bool
  | .ok [(t, .plain (.str s)), (v, .single _)] => t = ascii "t" ∧ s = kind ∧ v = name
  | .ok [(t, .plain (.str s)), (v, .multi _)] => t = ascii "t" ∧ s = kind ∧ v = name
  | _ => false

theorem mem_of_carries {kind name : List ℕ}
    {r : Except DecodeError (List (List ℕ × Field barePython.Date))}
    (h : carries kind name r = true) : ∃ msg f, r = .ok msg ∧
      (ascii "t", .plain (.str kind)) ∈ msg ∧ (name, f) ∈ msg ∧ ∀ o, f ≠ .plain o := by
  unfold carries at h
  split at h
  · obtain ⟨rfl, rfl, rfl⟩ := of_decide_eq_true h
    exact ⟨_, _, rfl, .head _, .tail _ (.head _), nofun⟩
  · obtain ⟨rfl, rfl, rfl⟩ := of_decide_eq_true h
    exact ⟨_, _, rfl, .head _, .tail _ (.head _), nofun⟩
  · cases h

/-- A result frame with a set and a tagged dictionary. -/
def resultFrame : Bytes :=
  ascii ("\x7b\"t\":\"result\",\"v\":[\x7b\"$\":\"set\",\"v\":[1,\"a\"]\x7d," ++
    "\x7b\"$\":\"d\",\"v\":[[1,\"x\"]]\x7d]\x7d")

/-- A call frame with a number and a set. -/
def callFrame : Bytes :=
  ascii "\x7b\"t\":\"call\",\"args\":[1,\x7b\"$\":\"set\",\"v\":[2]\x7d]\x7d"

/-- Both are within the budgets. -/
theorem loadsDecoded_bounded_list :
    (∃ msg d, loadsDecoded barePython resultFrame = .ok msg ∧
      (ascii "v", Field.single d) ∈ msg ∧ Bounded barePython [d]) ∧
    ∃ msg ds, loadsDecoded barePython callFrame = .ok msg ∧
      (ascii "args", Field.multi ds) ∈ msg ∧ Bounded barePython ds := by
  have hresult : carries (ascii "result") (ascii "v") (loadsDecoded barePython resultFrame) =
      true := by decide +kernel
  have hcall : carries (ascii "call") (ascii "args") (loadsDecoded barePython callFrame) =
      true := by decide +kernel
  constructor
  · obtain ⟨msg, f, hload, hkind, hf, -⟩ := mem_of_carries hresult
    obtain ⟨d, rfl, hbound⟩ := (loadsDecoded_bounded _ _ _ hload).1 hkind f hf
    exact ⟨msg, d, hload, hf, hbound⟩
  · obtain ⟨msg, f, hload, hkind, hf, hdecoded⟩ := mem_of_carries hcall
    obtain ⟨ds, rfl, hbound⟩ | ⟨o, rfl, -⟩ := (loadsDecoded_bounded _ _ _ hload).2.1 hkind f hf
    · exact ⟨msg, ds, hload, hf, hbound⟩
    · exact absurd rfl (hdecoded o)

end Pydeno.Wire
