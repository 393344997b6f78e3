import Pydeno.Runtime.Model.Ops
/-!
# Op capabilities: what a guest's number reaches

The registry against the history of the calls made of it. `status` follows one
token through the history; the registry agrees with it at every token, and a
token's status is `exposed` exactly where the history has a registration, then an
exposure, and no revocation since.
-/

namespace Pydeno.Runtime.Ops

open List Wire

variable {Handler : Type*}

/-! ## Tokens -/

/-- A token that can be drawn. -/
def IsToken (id : ℕ) : Prop := 1 ≤ id ∧ id ≤ maxOpToken

variable {draws : List Uuid} {id : ℕ} {raw : JsNumber} {entry : Entry Handler}
    {calls : List (Call Handler)} {mode : Mode} {name : Text} {s s' : Runner Handler}

theorem isToken_of_randomOpToken {rest : List Uuid} (h : randomOpToken draws = some (id, rest)) :
    IsToken id := by
  induction draws with
  | nil => cases h
  | cons b draws ih =>
    rw [randomOpToken] at h
    split at h
    next hne =>
      cases h
      have hlt := Nat.mod_lt (tokenFromUuidBytes b) (show 0 < maxOpToken + 1 by omega)
      exact ⟨Nat.one_le_iff_ne_zero.mpr hne, by omega⟩
    · exact ih h

theorem drawUntaken_spec {taken : ℕ → Bool} {rounds : ℕ}
    (h : drawUntaken taken rounds draws = some id) : IsToken id ∧ taken id = false := by
  induction rounds generalizing draws with
  | zero => cases h
  | succ rounds ih =>
    rw [drawUntaken] at h
    split at h
    · cases h
    rename_i drawn rest hdraw
    split at h
    · exact ih h
    next hfree =>
      cases h
      exact ⟨isToken_of_randomOpToken hdraw, by simpa using hfree⟩

/-- **The numbers that name a token.** -/
theorem tokenFromJs_eq_some_iff : tokenFromJs raw = some id ↔ raw = .finite id ∧ IsToken id := by
  cases raw with
  | nan | infinity negative => simp [tokenFromJs]
  | finite raw =>
    rw [tokenFromJs, JsNumber.finite.injEq]
    constructor
    · intro h
      split at h
      · cases h
      rename_i hraw
      push Not at hraw
      obtain ⟨hden, hlow, hhigh⟩ := hraw
      cases h
      have hint : (raw.num : ℚ) = raw := Rat.coe_int_num_of_den_eq_one hden
      have hnum : 1 ≤ raw.num := by rw [← hint] at hlow; exact_mod_cast hlow
      have hcast : ((raw.num.toNat : ℕ) : ℤ) = raw.num := Int.toNat_of_nonneg (by omega)
      have hmax : raw.num ≤ (maxOpToken : ℤ) := by rw [← hint] at hhigh; exact_mod_cast hhigh
      refine ⟨?_, by omega, by omega⟩
      calc raw = (raw.num : ℚ) := hint.symm
        _ = ((raw.num.toNat : ℤ) : ℚ) := by rw [hcast]
        _ = (raw.num.toNat : ℚ) := Int.cast_natCast _
    · rintro ⟨rfl, hlow, hhigh⟩
      have hlow' : (1 : ℚ) ≤ id := by exact_mod_cast hlow
      have hhigh' : (id : ℚ) ≤ maxOpToken := by exact_mod_cast hhigh
      rw [if_neg (by push Not; exact ⟨Rat.den_natCast id, hlow', hhigh'⟩)]
      simp

/-! ## The history of one token -/

/-- One call, as a token sees it: what it changes of the token's entry and of
whether that is exposed. -/
def track (id : ℕ) (status : Option (Entry Handler × Bool)) :
    Call Handler → Option (Entry Handler × Bool)
  | .register entry => if entry.id = id then some (entry, false) else status
  | .expose i => if i = id then status.map fun p => (p.1, true) else status
  | .revoke i => if i = id then none else status

/-- The whole history, as a token sees it. -/
def status (id : ℕ) (calls : List (Call Handler)) : Option (Entry Handler × Bool) :=
  calls.foldl (track id) none

theorem status_snoc (id : ℕ) (calls : List (Call Handler)) (call : Call Handler) :
    status id (calls ++ [call]) = track id (status id calls) call := by
  rw [status, status, foldl_append]
  rfl

/-- The entry was registered by the call at `i` and its token not revoked since. -/
def LiveAt (calls : List (Call Handler)) (i : ℕ) (entry : Entry Handler) : Prop :=
  calls[i]? = some (.register entry) ∧ .revoke entry.id ∉ calls.drop (i + 1)

/-- **Exposed after its registration and not revoked since.** -/
def ExposedSince (calls : List (Call Handler)) (entry : Entry Handler) : Prop :=
  ∃ i j, LiveAt calls i entry ∧ i < j ∧ calls[j]? = some (.expose entry.id)

/-- **A history the registry can have**: a token is registered only while it is
not live. -/
inductive Proper : List (Call Handler) → Prop where
  | nil : Proper []
  | register {calls : List (Call Handler)} {entry : Entry Handler} (h : Proper calls)
      (hfree : status entry.id calls = none) (htoken : IsToken entry.id) :
      Proper (calls ++ [.register entry])
  | expose {calls : List (Call Handler)} (h : Proper calls) (id : ℕ) :
      Proper (calls ++ [.expose id])
  | revoke {calls : List (Call Handler)} (h : Proper calls) (id : ℕ) :
      Proper (calls ++ [.revoke id])

theorem not_liveAt_nil {i : ℕ} : ¬LiveAt [] i entry := by
  rintro ⟨hi, -⟩
  simp at hi

theorem liveAt_snoc {call : Call Handler} {i : ℕ} : LiveAt (calls ++ [call]) i entry ↔
      (LiveAt calls i entry ∧ call ≠ .revoke entry.id) ∨
        (i = calls.length ∧ call = .register entry) := by
  unfold LiveAt
  rcases lt_trichotomy i calls.length with hlt | rfl | hgt
  · rw [List.getElem?_append_left hlt, drop_append_of_le_length (by omega)]
    simp only [mem_append, mem_singleton, not_or, ← ne_eq]
    constructor
    · rintro ⟨hi, hdrop, hne⟩
      exact .inl ⟨⟨hi, hdrop⟩, hne.symm⟩
    · rintro (⟨⟨hi, hdrop⟩, hne⟩ | ⟨rfl, -⟩)
      · exact ⟨hi, hdrop, hne.symm⟩
      · omega
  · rw [List.getElem?_concat_length, drop_eq_nil_of_le (by simp)]
    simp
  · rw [List.getElem?_eq_none (by simp; omega), List.getElem?_eq_none (by omega)]
    simp only [reduceCtorEq, false_and, false_or, false_iff, not_and]
    omega

theorem exposedSince_snoc {call : Call Handler} : ExposedSince (calls ++ [call]) entry ↔
      (ExposedSince calls entry ∧ call ≠ .revoke entry.id) ∨
        (call = .expose entry.id ∧ ∃ i, LiveAt calls i entry) := by
  constructor
  · rintro ⟨i, j, hlive, hij, hj⟩
    have hjlt : j < calls.length + 1 := by
      have := (List.getElem?_eq_some_iff.mp hj).1
      simpa using this
    rcases liveAt_snoc.mp hlive with ⟨hold, hne⟩ | ⟨rfl, -⟩
    · rcases Nat.lt_succ_iff_lt_or_eq.mp hjlt with hlt | rfl
      · rw [List.getElem?_append_left hlt] at hj
        exact .inl ⟨⟨i, j, hold, hij, hj⟩, hne⟩
      · rw [List.getElem?_concat_length] at hj
        exact .inr ⟨Option.some.inj hj, i, hold⟩
    · omega
  · rintro (⟨⟨i, j, hlive, hij, hj⟩, hne⟩ | ⟨rfl, i, hlive⟩)
    · have hjlt := (List.getElem?_eq_some_iff.mp hj).1
      exact ⟨i, j, liveAt_snoc.mpr (.inl ⟨hlive, hne⟩), hij,
        by rw [List.getElem?_append_left hjlt]; exact hj⟩
    · have hilt := (List.getElem?_eq_some_iff.mp hlive.1).1
      exact ⟨i, calls.length, liveAt_snoc.mpr (.inl ⟨hlive, by simp⟩), hilt,
        List.getElem?_concat_length ..⟩

/-- The entry a token's status names carries that token. -/
theorem status_id {exposed : Bool} (h : status id calls = some (entry, exposed)) :
    entry.id = id := by
  induction calls using List.reverseRecOn generalizing exposed with
  | nil => cases h
  | append_singleton calls call ih =>
    rw [status_snoc] at h
    cases call with
    | register new => grind [track]
    | expose i =>
      cases hs : status id calls with
      | none => grind [track]
      | some p => grind [track]
    | revoke i => grind [track]

/-- A live entry's token is one that can be drawn. -/
theorem Proper.isToken (h : Proper calls) (hlive : ∃ i, LiveAt calls i entry) :
    IsToken entry.id := by
  obtain ⟨i, hi⟩ := hlive
  induction h with
  | nil => exact absurd hi not_liveAt_nil
  | register h hfree htoken ih =>
    rcases liveAt_snoc.mp hi with ⟨hi, -⟩ | ⟨-, hnew⟩
    · exact ih hi
    · obtain rfl := Call.register.inj hnew
      exact htoken
  | expose h id ih | revoke h id ih =>
    rcases liveAt_snoc.mp hi with ⟨hi, -⟩ | ⟨-, hnew⟩
    · exact ih hi
    · cases hnew

/-- A token's status names the entry that is live under it. -/
theorem Proper.live_iff (h : Proper calls) :
    (∃ i, LiveAt calls i entry) ↔ ∃ exposed, status entry.id calls = some (entry, exposed) := by
  induction h with
  | nil => simp [not_liveAt_nil, status]
  | @register calls new h hfree htoken ih =>
    rw [status_snoc, track]
    simp only [liveAt_snoc, ne_eq, reduceCtorEq, not_false_eq_true, and_true, exists_or,
      Call.register.injEq, exists_eq_left, ih]
    split
    next hid =>
      rw [← hid, hfree]
      simp
    next hid =>
      have hne : new ≠ entry := fun he => hid (by rw [he])
      simp [hne]
  | @expose calls h id ih =>
    rw [status_snoc, track]
    simp only [liveAt_snoc, ne_eq, reduceCtorEq, not_false_eq_true, and_true, and_false, or_false, ih]
    split
    · cases status entry.id calls with
      | none => simp
      | some p =>
        obtain ⟨old, exposed⟩ := p
        cases exposed <;> simp
    · rfl
  | @revoke calls h id ih =>
    rw [status_snoc, track]
    simp only [liveAt_snoc, ne_eq, reduceCtorEq, and_false, or_false, Call.revoke.injEq,
      exists_and_right, ih]
    split
    next hid =>
      simp [hid]
    next hid =>
      simp [hid]

/-- **A token's status is `exposed` exactly for an entry exposed since its
registration.** -/
theorem Proper.exposed_iff (h : Proper calls) :
    ExposedSince calls entry ↔ status entry.id calls = some (entry, true) := by
  induction h with
  | nil => simp [ExposedSince, not_liveAt_nil, status]
  | @register calls new h hfree htoken ih =>
    rw [status_snoc, track, exposedSince_snoc, ih]
    split
    next hid =>
      rw [← hid, hfree]
      simp
    · simp
  | @expose calls h id ih =>
    rw [status_snoc, track, exposedSince_snoc, ih, h.live_iff]
    simp only [ne_eq, reduceCtorEq, not_false_eq_true, and_true, Call.expose.injEq]
    split
    next hid =>
      cases hs : status entry.id calls with
      | none => simp
      | some p => grind
    next hid =>
      simp [hid]
  | @revoke calls h id ih =>
    rw [status_snoc, track, exposedSince_snoc, ih]
    simp only [ne_eq, Call.revoke.injEq, reduceCtorEq, false_and, or_false]
    split
    next hid =>
      simp [hid]
    next hid =>
      simp [hid]

/-- **No two live registrations share a token.** -/
theorem Proper.liveAt_unique (h : Proper calls) {i j : ℕ}
    {entry' : Entry Handler} (hi : LiveAt calls i entry) (hj : LiveAt calls j entry')
    (hid : entry.id = entry'.id) : i = j := by
  induction h with
  | nil => exact absurd hi not_liveAt_nil
  | @register calls new h hfree htoken ih =>
    -- what is live before the call has another token than the call's
    have hother : ∀ {k : ℕ} {old : Entry Handler}, LiveAt calls k old → old.id ≠ new.id := by
      intro k old hold he
      obtain ⟨exposed, hs⟩ := h.live_iff.mp ⟨k, hold⟩
      rw [he, hfree] at hs
      cases hs
    rcases liveAt_snoc.mp hi with ⟨hi, -⟩ | ⟨rfl, hnew⟩ <;>
      rcases liveAt_snoc.mp hj with ⟨hj, -⟩ | ⟨rfl, hnew'⟩
    · exact ih hi hj
    · obtain rfl := Call.register.inj hnew'
      exact absurd hid (hother hi)
    · obtain rfl := Call.register.inj hnew
      exact absurd hid.symm (hother hj)
    · rfl
  | @expose calls h id ih | @revoke calls h id ih =>
    rcases liveAt_snoc.mp hi with ⟨hi, -⟩ | ⟨-, hnew⟩
    · rcases liveAt_snoc.mp hj with ⟨hj, -⟩ | ⟨-, hnew⟩
      · exact ih hi hj
      · cases hnew
    · cases hnew

/-! ## The registry follows the history -/

/-- **The registry agrees with the history** at every token. -/
structure Agrees (s : Runner Handler) : Prop where
  proper : Proper s.calls
  handlers : ∀ id, s.registry.handlers.get? id = (status id s.calls).map Prod.fst
  exposed : ∀ id, id ∈ s.registry.exposed ↔ ∃ entry, status id s.calls = some (entry, true)

theorem agrees_new : Agrees (Runner.new : Runner Handler) where
  proper := .nil
  handlers _ := rfl
  exposed id := by simp [Runner.new, Registry.new, status]

/-- What registering does: an entry under a token that is free is inserted. -/
theorem Runner.register_spec {handler : Handler}
    (h : s.register draws name mode handler = some (s', id)) :
    IsToken id ∧ s.registry.handlers.get? id = none ∧
      s' = ⟨s.registry.insert ⟨id, name, mode, handler⟩,
        s.calls ++ [.register ⟨id, name, mode, handler⟩]⟩ := by
  unfold register at h
  split at h
  · cases h
  rename_i drawn hdraw
  cases h
  obtain ⟨htoken, hfree⟩ := drawUntaken_spec hdraw
  exact ⟨htoken, by simpa using hfree, rfl⟩

theorem Agrees.register (hs : Agrees s) {handler : Handler}
    (h : s.register draws name mode handler = some (s', id)) : Agrees s' := by
  obtain ⟨htoken, hfree, rfl⟩ := Runner.register_spec h
  have hstatus : status id s.calls = none := by
    have := hs.handlers id
    rw [hfree] at this
    exact Option.map_eq_none_iff.mp this.symm
  refine ⟨hs.proper.register hstatus htoken, ?_, ?_⟩
  · intro i
    rw [status_snoc, track]
    by_cases hi : id = i
    · subst hi
      simp [Registry.insert]
    · rw [if_neg hi, ← hs.handlers i]
      exact Dict.get?_set_ne (Ne.symm hi)
  · intro i
    rw [status_snoc, track]
    by_cases hi : id = i
    · subst hi
      simp [Registry.insert, hs.exposed, hstatus]
    · rw [if_neg hi]
      exact hs.exposed i

theorem Agrees.expose (hs : Agrees s) (id : ℕ) : Agrees (s.expose id) := by
  have hhandlers : ∀ i, (track i (status i s.calls) (.expose id)).map Prod.fst =
      (status i s.calls).map Prod.fst := by
    intro i
    rw [track]
    split
    · cases status i s.calls <;> rfl
    · rfl
  refine ⟨hs.proper.expose id, ?_, ?_⟩
  · intro i
    rw [Runner.expose, status_snoc, hhandlers, ← hs.handlers i, Registry.expose]
    split <;> rfl
  · intro i
    rw [Runner.expose, status_snoc, track, Registry.expose, hs.handlers id]
    by_cases hi : id = i
    · subst hi
      rw [if_pos rfl]
      cases hstatus : status id s.calls with
      | none => simp [hs.exposed, hstatus]
      | some p => simp
    · rw [if_neg hi, ← hs.exposed i]
      split
      · rfl
      · simp [Ne.symm hi]

theorem Agrees.revoke (hs : Agrees s) (id : ℕ) : Agrees (s.revoke id) := by
  refine ⟨hs.proper.revoke id, ?_, ?_⟩
  · intro i
    rw [Runner.revoke, status_snoc, track]
    by_cases hi : id = i
    · subst hi
      simp [Registry.revoke]
    · rw [if_neg hi, ← hs.handlers i]
      exact Dict.get?_erase_ne (Ne.symm hi)
  · intro i
    rw [Runner.revoke, status_snoc, track]
    by_cases hi : id = i
    · subst hi
      simp [Registry.revoke]
    · rw [if_neg hi, ← hs.exposed i]
      simp [Registry.revoke, Ne.symm hi]

theorem Agrees.getExposed_iff (hs : Agrees s) : s.registry.getExposed id = some entry ↔
      status id s.calls = some (entry, true) ∧ entry.id = id := by
  rw [Registry.getExposed, hs.handlers id]
  constructor
  · intro h
    split at h
    · cases h
    rename_i hex
    obtain ⟨old, hold⟩ := (hs.exposed id).mp (not_not.mp hex)
    rw [hold] at h ⊢
    cases h
    exact ⟨rfl, status_id hold⟩
  · rintro ⟨hstatus, -⟩
    rw [if_neg (not_not.mpr ((hs.exposed id).mpr ⟨entry, hstatus⟩)), hstatus]
    rfl

/-- **What a number resolves to**, by the history. -/
theorem Agrees.resolve_iff (hs : Agrees s) : resolve s.registry raw = some entry ↔
      raw = .finite entry.id ∧ ExposedSince s.calls entry := by
  rw [resolve, Option.bind_eq_some_iff, hs.proper.exposed_iff]
  constructor
  · rintro ⟨id, htoken, hget⟩
    obtain ⟨rfl, -⟩ := tokenFromJs_eq_some_iff.mp htoken
    obtain ⟨hstatus, hid⟩ := hs.getExposed_iff.mp hget
    exact ⟨by rw [hid], hid ▸ hstatus⟩
  · rintro ⟨rfl, hstatus⟩
    have hlive := hs.proper.live_iff.mpr ⟨true, hstatus⟩
    exact ⟨entry.id, tokenFromJs_eq_some_iff.mpr ⟨rfl, hs.proper.isToken hlive⟩,
      hs.getExposed_iff.mpr ⟨hstatus, rfl⟩⟩

/-! ## The methods -/

/-- One call of the registry. -/
inductive Step : Runner Handler → Runner Handler → Prop where
  | register {s s' : Runner Handler} {draws : List Uuid} {name : Text} {mode : Mode}
      {handler : Handler} {id : ℕ} (h : s.register draws name mode handler = some (s', id)) :
      Step s s'
  | expose (s : Runner Handler) (id : ℕ) : Step s (s.expose id)
  | revoke (s : Runner Handler) (id : ℕ) : Step s (s.revoke id)

/-- A step that exposes nothing. -/
inductive Quiet : Runner Handler → Runner Handler → Prop where
  | register {s s' : Runner Handler} {draws : List Uuid} {name : Text} {mode : Mode}
      {handler : Handler} {id : ℕ} (h : s.register draws name mode handler = some (s', id)) :
      Quiet s s'
  | revoke (s : Runner Handler) (id : ℕ) : Quiet s (s.revoke id)

theorem Quiet.step (h : Quiet s s') : Step s s' := by
  cases h with
  | register h => exact .register h
  | revoke id => exact .revoke s id

theorem Step.agrees (h : Step s s') (hs : Agrees s) : Agrees s' := by
  cases h with
  | register h => exact hs.register h
  | expose id => exact hs.expose id
  | revoke id => exact hs.revoke id

open Relation in
theorem agrees_of_steps (h : ReflTransGen Step s s') (hs : Agrees s) : Agrees s' := by
  induction h with
  | refl => exact hs
  | tail _ hstep ih => exact hstep.agrees ih

/-- Quiet steps only add calls, and none of them exposes. -/
theorem calls_of_quiet (h : Relation.ReflTransGen Quiet s s') :
    ∃ added, s'.calls = s.calls ++ added ∧ ∀ id, .expose id ∉ added := by
  induction h with
  | refl => exact ⟨[], by simp, by simp⟩
  | tail _ hstep ih =>
    obtain ⟨added, hcalls, hnone⟩ := ih
    cases hstep with
    | register h =>
      obtain ⟨-, -, rfl⟩ := Runner.register_spec h
      refine ⟨added ++ [_], by rw [hcalls, append_assoc], ?_⟩
      intro id hmem
      rcases mem_append.mp hmem with hmem | hmem
      · exact hnone id hmem
      · simp at hmem
    | revoke token =>
      refine ⟨added ++ [.revoke token], by rw [Runner.revoke, hcalls, append_assoc], ?_⟩
      intro id hmem
      rcases mem_append.mp hmem with hmem | hmem
      · exact hnone id hmem
      · simp at hmem

theorem quiet_revokes (ids : List ℕ) (s : Runner Handler) :
    Relation.ReflTransGen Quiet s (ids.foldl Runner.revoke s) := by
  induction ids generalizing s with
  | nil => exact .refl
  | cons id ids ih => exact .head (.revoke s id) (ih _)

theorem steps_exposes (ids : List ℕ) (s : Runner Handler) :
    Relation.ReflTransGen Step s (ids.foldl Runner.expose s) := by
  induction ids generalizing s with
  | nil => exact .refl
  | cons id ids ih => exact .head (.expose s id) (ih _)

/-- The loop over the members only registers. -/
theorem quiet_registerMembers {members : List (Member Handler)}
    {registered registered' : List ℕ} {complete : Bool}
    (h : registerMembers name members s registered = some (s', registered', complete)) :
    Relation.ReflTransGen Quiet s s' := by
  induction members generalizing s registered with
  | nil =>
    rw [registerMembers] at h
    cases h
    exact .refl
  | cons member members ih =>
    obtain ⟨key, value⟩ := member
    rcases key with _ | key
    · rw [registerMembers] at h
      cases h
      exact .refl
    rcases value with ⟨handler, mode, draws, served, listed⟩ | converts
    · rcases mode with _ | mode
      · rw [registerMembers] at h
        cases h
        exact .refl
      rw [registerMembers] at h
      split at h
      · split at h
        · cases h
        next next id hregister =>
          split at h
          · exact .head (.register hregister) (ih h)
          · cases h
            exact .single (.register hregister)
      · cases h
        exact .refl
    · rw [registerMembers] at h
      split at h
      · exact ih h
      · cases h
        exact .refl

/-- `register_op` and `bind_function` make the steps of what follows the
registration. -/
theorem registering_spec {mode : Option Mode}
    {handler : Handler} {served ok : Bool} {next : Runner Handler → ℕ → Runner Handler × Bool}
    (h : registering s draws name mode handler served next = some (s', ok)) :
    (s' = s ∧ ok = false) ∨
      ∃ mode t id, s.register draws name mode handler = some (t, id) ∧ next t id = (s', ok) := by
  unfold registering at h
  split at h
  · cases h
    exact .inl ⟨rfl, rfl⟩
  next mode =>
    split at h
    · obtain ⟨⟨t, id⟩, hregister, hnext⟩ := Option.map_eq_some_iff.mp h
      exact .inr ⟨mode, t, id, hregister, hnext⟩
    · cases h
      exact .inl ⟨rfl, rfl⟩

theorem steps_of_quiet (h : Relation.ReflTransGen Quiet s s') : Relation.ReflTransGen Step s s' :=
  h.lift (fun t => t) fun _ _ => Quiet.step

/-- **What a method does**: calls of the registry, and where it raises none of
them exposes. -/
theorem perform_spec {op : Op Handler} {ok : Bool} (h : perform s op = some (s', ok)) :
    Relation.ReflTransGen Step s s' ∧ (ok = false → Relation.ReflTransGen Quiet s s') := by
  cases op with
  | register draws name mode handler =>
    obtain ⟨⟨t, id⟩, hregister, hnext⟩ := Option.map_eq_some_iff.mp h
    cases hnext
    exact ⟨.single (.register hregister), Bool.noConfusion⟩
  | expose id =>
    cases h
    exact ⟨.single (.expose s id), Bool.noConfusion⟩
  | revoke id =>
    cases h
    exact ⟨.single (.revoke s id), Bool.noConfusion⟩
  | registerOp draws name mode handler served exposes =>
    rw [perform] at h
    rcases registering_spec h with ⟨rfl, -⟩ | ⟨mode, t, id, hregister, hnext⟩
    · exact ⟨.refl, fun _ => .refl⟩
    · have hfirst : Quiet s t := .register hregister
      split at hnext
      · cases hnext
        exact ⟨.tail (.single hfirst.step) (.expose t id), Bool.noConfusion⟩
      · cases hnext
        exact ⟨.single hfirst.step, fun _ => .single hfirst⟩
  | bindFunction draws name mode handler served quoted evaluates last =>
    rw [perform] at h
    rcases registering_spec h with ⟨rfl, -⟩ | ⟨mode, t, id, hregister, hnext⟩
    · exact ⟨.refl, fun _ => .refl⟩
    · have hfirst : Quiet s t := .register hregister
      split at hnext
      · cases hnext
        exact ⟨.single hfirst.step, fun _ => .single hfirst⟩
      split at hnext
      · cases hnext
        have hboth : Relation.ReflTransGen Quiet s (if last then t.revoke id else t) := by
          split
          · exact .tail (.single hfirst) (.revoke t id)
          · exact .single hfirst
        exact ⟨steps_of_quiet hboth, fun _ => hboth⟩
      split at hnext
      · cases hnext
        exact ⟨.tail (.single hfirst.step) (.expose t id), Bool.noConfusion⟩
      · cases hnext
        exact ⟨.single hfirst.step, fun _ => .single hfirst⟩
  | bindObject name members install revokes =>
    rw [perform] at h
    split at h
    · cases h
    rename_i t registered complete hmembers
    have hloop := quiet_registerMembers hmembers
    -- the revocations at the end of a failed bind
    have hfailed : ∀ {u : Runner Handler}, Relation.ReflTransGen Quiet s u →
        some ((registered.filter revokes).foldl Runner.revoke u, false) = some (s', ok) →
        Relation.ReflTransGen Step s s' ∧
          (ok = false → Relation.ReflTransGen Quiet s s') := by
      intro u hu hend
      cases hend
      have hall := hu.trans (quiet_revokes (registered.filter revokes) u)
      exact ⟨steps_of_quiet hall, fun _ => hall⟩
    cases complete with
    | false => exact hfailed hloop h
    | true =>
      cases install with
      | refused | unprepared => exact hfailed hloop h
      | threw => exact hfailed (hloop.trans (quiet_revokes registered t)) h
      | installed =>
        cases h
        exact ⟨(steps_of_quiet hloop).trans (steps_exposes registered t), Bool.noConfusion⟩

theorem agrees_run {ops : List (Op Handler)} (hs : Agrees s) (h : run s ops = some s') :
    Agrees s' := by
  induction ops generalizing s with
  | nil =>
    cases h
    exact hs
  | cons op ops ih =>
    obtain ⟨⟨t, ok⟩, hop, hrest⟩ := Option.bind_eq_some_iff.mp h
    exact ih (agrees_of_steps (perform_spec hop).1 hs) hrest

/-- Calls that expose nothing leave a token that is not exposed so. -/
theorem foldl_track_unexposed
    {before : Option (Entry Handler × Bool)} (hcalls : ∀ i, .expose i ∉ calls)
    (hbefore : ∀ entry, before ≠ some (entry, true)) (entry : Entry Handler) :
    calls.foldl (track id) before ≠ some (entry, true) := by
  induction calls generalizing before with
  | nil => exact hbefore entry
  | cons call calls ih =>
    have hrest : ∀ i, .expose i ∉ calls := fun i hmem => hcalls i (mem_cons_of_mem _ hmem)
    refine ih hrest ?_
    intro entry
    cases call with
    | register new => grind [track]
    | expose i => exact absurd mem_cons_self (hcalls i)
    | revoke i => grind [track]

/-- **A method that raised left nothing reachable**: what it registered resolves
to nothing. -/
theorem resolve_of_failed {op : Op Handler} (hs : Agrees s) (h : perform s op = some (s', false))
    (hnew : .register entry ∈ s'.calls.drop s.calls.length) :
    resolve s'.registry (.finite entry.id) = none := by
  have hs' := agrees_of_steps (perform_spec h).1 hs
  obtain ⟨added, hcalls, hnone⟩ := calls_of_quiet ((perform_spec h).2 rfl)
  rw [hcalls, drop_left] at hnew
  obtain ⟨front, back, rfl⟩ := append_of_mem hnew
  -- the registration leaves the token unexposed, and nothing after it exposes
  have hafter : ∀ found, status entry.id s'.calls ≠ some (found, true) := by
    rw [hcalls, status, foldl_append, foldl_append, foldl_cons]
    apply foldl_track_unexposed
    · intro i hmem
      exact hnone i (by simp [hmem])
    · simp [track]
  rw [Option.eq_none_iff_forall_not_mem]
  intro found hfound
  obtain ⟨hraw, hexposed⟩ := hs'.resolve_iff.mp hfound
  have hid : entry.id = found.id := by exact_mod_cast JsNumber.finite.inj hraw
  exact hafter found (hid ▸ hs'.proper.exposed_iff.mp hexposed)

/-! ## The result -/

theorem lookupEntry_eq_ok_iff {r : Registry Handler} :
    lookupEntry r raw mode = .ok entry ↔ resolve r raw = some entry ∧ entry.mode = mode := by
  unfold lookupEntry
  cases hresolve : resolve r raw with
  | none => simp
  | some found =>
    by_cases hmode : found.mode = mode
    · simp only [hmode, ne_eq, not_true_eq_false, if_false, Except.ok.injEq, Option.some.injEq]
      exact ⟨fun he => ⟨he, he ▸ hmode⟩, fun he => he.1⟩
    · simp only [ne_eq, hmode, not_false_eq_true, if_true, reduceCtorEq, Option.some.injEq,
        false_iff, not_and]
      rintro rfl
      exact hmode

theorem lookupEntry_eq_unknownOp_iff {r : Registry Handler} :
    lookupEntry r raw mode = .error .unknownOp ↔ resolve r raw = none := by
  unfold lookupEntry
  cases hresolve : resolve r raw with
  | none => simp
  | some found => by_cases hmode : found.mode = mode <;> simp [hmode]

theorem Agrees.handlers_iff (hs : Agrees s) : s.registry.handlers.get? id = some entry ↔
      entry.id = id ∧ ∃ i, LiveAt s.calls i entry := by
  rw [hs.handlers id, Option.map_eq_some_iff, hs.proper.live_iff]
  constructor
  · rintro ⟨⟨found, exposed⟩, hstatus, rfl⟩
    obtain rfl := status_id hstatus
    exact ⟨rfl, exposed, hstatus⟩
  · rintro ⟨rfl, exposed, hstatus⟩
    exact ⟨(entry, exposed), hstatus, rfl⟩

/-- **Capability tokens.** In every run of the methods, whatever fails in it: a
number of the guest reaches a handler exactly where it is the token of an entry
exposed since its registration and not revoked since (through the op of the
entry's mode; the other op finds the entry and says that the mode is wrong); the
handlers kept are those registered and not revoked, no two under one token; and
what a method registered that then raised is unknown to every dispatch. -/
theorem capability_tokens {ops : List (Op Handler)} {s : Runner Handler}
    (h : run .new ops = some s) :
    (∀ raw mode entry, lookupEntry s.registry raw mode = .ok entry ↔
        raw = .finite entry.id ∧ ExposedSince s.calls entry ∧ entry.mode = mode) ∧
      (∀ raw mode, lookupEntry s.registry raw mode = .error .unknownOp ↔
        ¬∃ entry, raw = .finite entry.id ∧ ExposedSince s.calls entry) ∧
      (∀ id entry, s.registry.handlers.get? id = some entry ↔
        entry.id = id ∧ ∃ i, LiveAt s.calls i entry) ∧
      (∀ i j entry entry', LiveAt s.calls i entry → LiveAt s.calls j entry' →
        entry.id = entry'.id → i = j) ∧
      ∀ op s', perform s op = some (s', false) →
        ∀ entry, .register entry ∈ s'.calls.drop s.calls.length →
          ∀ mode, lookupEntry s'.registry (.finite entry.id) mode = .error .unknownOp := by
  have hs : Agrees s := agrees_run agrees_new h
  refine ⟨?_, ?_, ?_, ?_, ?_⟩
  · intro raw mode entry
    rw [lookupEntry_eq_ok_iff, hs.resolve_iff, and_assoc]
  · intro raw mode
    rw [lookupEntry_eq_unknownOp_iff, Option.eq_none_iff_forall_not_mem]
    simp only [Option.mem_def, hs.resolve_iff, not_exists]
  · intro id entry
    exact hs.handlers_iff
  · intro i j entry entry' hi hj hid
    exact hs.proper.liveAt_unique hi hj hid
  · intro op s' hop entry hnew mode
    exact lookupEntry_eq_unknownOp_iff.mpr (resolve_of_failed hs hop hnew)

/-- A bind of two callables whose script threw, then one that was installed. -/
def boundTwice : List (Op ℕ) :=
  [.bindObject (ascii "host")
      [⟨some (ascii "f"), .callable 1 (some .sync) [fun _ => 1] true true⟩,
        ⟨some (ascii "g"), .callable 2 (some .async) [fun _ => 1, fun _ => 2] true true⟩]
      .threw fun _ => true,
    .bindObject (ascii "host") [⟨some (ascii "f"), .callable 1 (some .sync) [fun _ => 1] true true⟩]
      .installed fun _ => true]

/-- In that run the second bind draws the first one's token again, and the entry it
registered has been exposed since. -/
theorem capability_tokens_boundTwice :
    ∃ s, run .new boundTwice = some s ∧
      ExposedSince s.calls ⟨282578800148737, Wire.ascii "host.f", .sync, 1⟩ := by
  have hrun : ((run .new boundTwice).bind fun s =>
      (lookupEntry s.registry (.finite 282578800148737) .sync).toOption) =
        some ⟨282578800148737, Wire.ascii "host.f", .sync, 1⟩ := by
    decide +kernel
  obtain ⟨s, hs, hfound⟩ := Option.bind_eq_some_iff.mp hrun
  have hok : lookupEntry s.registry (.finite 282578800148737) .sync =
      .ok ⟨282578800148737, Wire.ascii "host.f", .sync, 1⟩ := by
    cases hlookup : lookupEntry s.registry (.finite 282578800148737) .sync with
    | error refusal => simp [hlookup, Except.toOption] at hfound
    | ok entry => simp_all [Except.toOption]
  exact ⟨s, hs, (((capability_tokens hs).1 _ _ _).mp hok).2.1⟩

end Pydeno.Runtime.Ops
