import Mathlib
/-!
# Participants that share a state

A system of any number of participants and one state they share. A
participant moves by itself, reading and writing the shared state; a new one
joins at any time; the environment changes the shared state. Every
interleaving of the moves is a run.

The rules below carry an invariant of single participants over a run
(`reachable_parts`), together with one of the shared state, and a relation
between any two participants (`reachable_apart`). A covering rule says when
there is a participant for everything the shared state claims
(`reachable_covered`). A balance rule says when what
has come in is what has gone out and what the participants hold
(`reachable_balance`, and `reachable_sum` for a shared total).
-/

namespace Pydeno.Interleaving

open List

variable {S C : Type*}

/-- The shared state and the participants. -/
structure Sys (S C : Type*) where
  shared : S
  parts : List C

/-- **One move of one participant**, of a newcomer or of the environment. -/
inductive Move (act : S → C → S → C → Prop) (join : S → C → Prop) (env : S → S → Prop) :
    Sys S C → Sys S C → Prop where
  | act {s s' : S} {c c' : C} (before after : List C) (h : act s c s' c') :
      Move act join env ⟨s, before ++ c :: after⟩ ⟨s', before ++ c' :: after⟩
  | join {s : S} {c : C} (parts : List C) (h : join s c) :
      Move act join env ⟨s, parts⟩ ⟨s, parts ++ [c]⟩
  | env {s s' : S} (parts : List C) (h : env s s') :
      Move act join env ⟨s, parts⟩ ⟨s', parts⟩

/-- The systems that runs from `s` with no participants lead to. -/
def Reachable (act : S → C → S → C → Prop) (join : S → C → Prop) (env : S → S → Prop) (s : S) :
    Sys S C → Prop :=
  Relation.ReflTransGen (Move act join env) ⟨s, []⟩

section

variable {act : S → C → S → C → Prop} {join : S → C → Prop} {env : S → S → Prop} {s0 : S}

theorem reachable_nil : Reachable act join env s0 ⟨s0, []⟩ := Relation.ReflTransGen.refl

theorem Reachable.acts {s s' : S} {c c' : C} (before after : List C)
    (h : Reachable act join env s0 ⟨s, before ++ c :: after⟩) (hs : act s c s' c') :
    Reachable act join env s0 ⟨s', before ++ c' :: after⟩ :=
  h.tail (.act before after hs)

theorem Reachable.joins {s : S} {c : C} {parts : List C} (h : Reachable act join env s0 ⟨s, parts⟩)
    (hj : join s c) : Reachable act join env s0 ⟨s, parts ++ [c]⟩ :=
  h.tail (.join parts hj)

theorem Reachable.changes {s s' : S} {parts : List C} (h : Reachable act join env s0 ⟨s, parts⟩)
    (he : env s s') : Reachable act join env s0 ⟨s', parts⟩ :=
  h.tail (.env parts he)

end

section

variable {act : S → C → S → C → Prop} {join : S → C → Prop} {env : S → S → Prop} {s0 : S}
variable {I : S → Prop} {P : S → C → Prop}

/-- **The invariant rule for participants that keep apart.** A move keeps the
invariant of the shared state and its own participant's; what it does to the
shared state keeps the others'. Beside its own invariant each participant keeps
a relation with every other one. -/
theorem reachable_apart {R : C → C → Prop} (hsymm : ∀ {c d}, R c d → R d c) (hinit : I s0)
    (hact : ∀ {s c s' c'}, act s c s' c' → I s → P s c → I s' ∧ P s' c')
    (hothers : ∀ {s c s' c' d}, act s c s' c' → I s → P s c → P s d → R c d → P s' d ∧ R c' d)
    (hjoin : ∀ {s c}, join s c → I s → P s c) (hjoinR : ∀ {s c d}, join s c → I s → P s d → R d c)
    (henv : ∀ {s s'}, env s s' → I s → I s') (henvP : ∀ {s s' d}, env s s' → I s → P s d → P s' d)
    {sys : Sys S C} (h : Reachable act join env s0 sys) :
    I sys.shared ∧ (∀ c ∈ sys.parts, P sys.shared c) ∧ sys.parts.Pairwise R := by
  induction h with
  | refl => exact ⟨hinit, by simp, List.Pairwise.nil⟩
  | tail _ hmove ih =>
    obtain ⟨hI, hP, hR⟩ := ih
    cases hmove with
    | @act s s' c c' before after hstep =>
      have hc : P s c := hP c (by simp)
      obtain ⟨hI', hc'⟩ := hact hstep hI hc
      simp only [pairwise_append, pairwise_cons, mem_cons] at hR
      obtain ⟨hbefore, ⟨hca, hafter⟩, hcross⟩ := hR
      have hb : ∀ d ∈ before, P s' d ∧ R c' d := fun d hd =>
        hothers hstep hI hc (hP d (by simp [hd])) (hsymm (hcross d hd c (.inl rfl)))
      have ha : ∀ d ∈ after, P s' d ∧ R c' d := fun d hd =>
        hothers hstep hI hc (hP d (by simp [hd])) (hca d hd)
      refine ⟨hI', fun d hd => ?_, ?_⟩
      · simp only [mem_append, mem_cons] at hd
        rcases hd with hd | rfl | hd
        · exact (hb d hd).1
        · exact hc'
        · exact (ha d hd).1
      · simp only [pairwise_append, pairwise_cons, mem_cons]
        refine ⟨hbefore, ⟨fun d hd => (ha d hd).2, hafter⟩, fun d hd e he => ?_⟩
        rcases he with rfl | he
        · exact hsymm (hb d hd).2
        · exact hcross d hd e (.inr he)
    | join parts hnew =>
      refine ⟨hI, fun d hd => ?_, ?_⟩
      · simp only [mem_append, mem_singleton] at hd
        rcases hd with hd | rfl
        · exact hP d hd
        · exact hjoin hnew hI
      · rw [pairwise_append]
        refine ⟨hR, pairwise_singleton _ _, fun d hd e he => ?_⟩
        obtain rfl := mem_singleton.1 he
        exact hjoinR hnew hI (hP d hd)
    | env parts hchange =>
      exact ⟨henv hchange hI, fun d hd => henvP hchange hI (hP d hd), hR⟩

/-- **The invariant rule** where the participants keep no relation. -/
theorem reachable_parts (hinit : I s0)
    (hact : ∀ {s c s' c'}, act s c s' c' → I s → P s c → I s' ∧ P s' c')
    (hothers : ∀ {s c s' c' d}, act s c s' c' → I s → P s c → P s d → P s' d)
    (hjoin : ∀ {s c}, join s c → I s → P s c) (henv : ∀ {s s'}, env s s' → I s → I s')
    (henvP : ∀ {s s' d}, env s s' → I s → P s d → P s' d)
    {sys : Sys S C} (h : Reachable act join env s0 sys) :
    I sys.shared ∧ ∀ c ∈ sys.parts, P sys.shared c := by
  obtain ⟨hI, hP, -⟩ := @reachable_apart S C act join env s0 I P (fun _ _ => True)
    (fun _ => trivial) hinit hact (fun hstep hI hc hd _ => ⟨hothers hstep hI hc hd, trivial⟩) hjoin
    (fun _ _ _ => trivial) henv henvP sys h
  exact ⟨hI, hP⟩

/-- **The covering rule.** What the shared state claims, some participant
stands for: a move makes only claims that its participant then stands for, and
keeps only those it stood for that it still does. -/
theorem reachable_covered {K : Type*} {Q : S → K → Prop} {H : C → K → Prop}
    (hbase : ∀ {sys : Sys S C}, Reachable act join env s0 sys →
      I sys.shared ∧ ∀ c ∈ sys.parts, P sys.shared c)
    (hinit : ∀ k, ¬Q s0 k) (hact : ∀ {s c s' c'}, act s c s' c' → I s → P s c → ∀ k, Q s' k →
      H c' k ∨ (Q s k ∧ ¬H c k))
    (henv : ∀ {s s'}, env s s' → I s → ∀ k, Q s' k → Q s k)
    {sys : Sys S C} (h : Reachable act join env s0 sys) :
    ∀ k, Q sys.shared k → ∃ c ∈ sys.parts, H c k := by
  induction h with
  | refl => exact fun k hk => absurd hk (hinit k)
  | tail hprev hmove ih =>
    intro k hk
    obtain ⟨hI, hP⟩ := hbase hprev
    cases hmove with
    | @act s s' c c' before after hstep =>
      rcases hact hstep hI (hP c (by simp)) k hk with hc | ⟨hold, hc⟩
      · exact ⟨c', by simp, hc⟩
      · -- someone else stood for it, and still does
        obtain ⟨d, hd, hdk⟩ := ih k hold
        simp only [mem_append, mem_cons] at hd
        rcases hd with hd | rfl | hd
        · exact ⟨d, by simp [hd], hdk⟩
        · exact absurd hdk hc
        · exact ⟨d, by simp [hd], hdk⟩
    | join parts hnew =>
      obtain ⟨d, hd, hdk⟩ := ih k hk
      exact ⟨d, by simp [hd], hdk⟩
    | env parts hchange =>
      obtain ⟨d, hd, hdk⟩ := ih k (henv hchange hI k hk)
      exact ⟨d, hd, hdk⟩

end

section

variable {A : Type*} [AddCommMonoid A] [IsLeftCancelAdd A]
variable {join : S → C → Prop} {env : S → S → Prop} {s0 : S} {w : C → A}

/-- **The balance rule.** What has come in is what has gone out and what the
participants hold, where every move keeps that balance. -/
theorem reachable_balance {act : S → C → S → C → Prop} {P : C → Prop} {f g : S → A}
    (hinit : f s0 = g s0) (hP : ∀ {s c s' c'}, act s c s' c' → P c → P c')
    (hact : ∀ {s c s' c'}, act s c s' c' → P c → f s' + (g s + w c) = f s + (g s' + w c'))
    (hjoin : ∀ {s c}, join s c → P c ∧ w c = 0)
    (henv : ∀ {s s'}, env s s' → f s' = f s ∧ g s' = g s)
    {sys : Sys S C} (h : Reachable act join env s0 sys) :
    f sys.shared = g sys.shared + (sys.parts.map w).sum := by
  have hparts : ∀ {sys : Sys S C}, Reachable act join env s0 sys → ∀ c ∈ sys.parts, P c := by
    intro sys h
    exact (reachable_parts (I := fun _ => True) (P := fun _ c => P c) trivial
      (fun hs _ hc => ⟨trivial, hP hs hc⟩) (fun _ _ _ hd => hd) (fun hn _ => (hjoin hn).1)
      (fun _ _ => trivial) (fun _ _ hd => hd) h).2
  induction h with
  | refl => simpa using hinit
  | @tail sys _ hprev hmove ih =>
    have hc' := hparts hprev
    cases hmove with
    | @act s s' c c' before after hstep =>
      have hsum := hact hstep (hc' c (by simp))
      simp only [map_append, map_cons, sum_append, sum_cons] at ih ⊢
      -- both sides plus what was out and with the participant that moved
      refine add_left_cancel (a := g s + w c) ?_
      calc g s + w c + f s' = f s + (g s' + w c') := by rw [add_comm, hsum]
        _ = g s + ((before.map w).sum + (w c + (after.map w).sum))
            + (g s' + w c') := by rw [ih]
        _ = g s + w c + (g s' + ((before.map w).sum
            + (w c' + (after.map w).sum))) := by abel
    | join parts hnew =>
      simp only [map_append, map_cons, map_nil, sum_append, sum_cons,
        sum_nil, (hjoin hnew).2, add_zero]
      exact ih
    | env parts hchange =>
      obtain ⟨hf, hg⟩ := henv hchange
      simp only [hf, hg]
      exact ih

/-- **The accounting rule.** Where every move changes the shared total by what
it changes the weight of its participant, and newcomers weigh nothing, the
total is the sum of the weights. -/
theorem reachable_sum {act : A → C → A → C → Prop} {join : A → C → Prop} {s0 : A}
    {P : C → Prop} (hinit : s0 = 0) (hP : ∀ {s c s' c'}, act s c s' c' → P c → P c')
    (hact : ∀ {s c s' c'}, act s c s' c' → P c → s' + w c = s + w c')
    (hjoin : ∀ {s c}, join s c → P c ∧ w c = 0)
    {sys : Sys A C} (h : Reachable act join (fun _ _ => False) s0 sys) :
    sys.shared = (sys.parts.map w).sum := by
  have hbalance : sys.shared = 0 + (sys.parts.map w).sum := by
    refine reachable_balance (f := id) (g := fun _ => (0 : A)) (P := P) ?_ ?_ ?_ ?_ ?_ h
    · exact hinit
    · exact hP
    · intro s c s' c' hs hc
      simpa using hact hs hc
    · exact hjoin
    · exact False.elim
  simpa using hbalance

end

end Pydeno.Interleaving
