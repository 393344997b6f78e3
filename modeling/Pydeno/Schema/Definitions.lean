import Pydeno.Schema.Helpers.Parts
import Pydeno.Schema.Helpers.Register
/-!
# Definitions resolve per schema

A name means a schema's definition of a reference (`Means`) if its declaration
was written from an equal definition, and every reference that is rendered in it
leads to a name that means that schema's definition of the inner reference. The
references can run in cycles: names and references are related by some relation
that is closed under this.

Definitions with one type name and one text share a declaration, and the
references in it resolve through the schema that came first. So the names mean
what they should where the schemas that share definitions agree on what these
refer to (`Agrees`), and only there, unless type names are numbered forms of each
other, as `A_2` is of `A`: then definitions may share or not, by which names were
free.
-/

namespace Pydeno.Schema

open Wire (ascii)

/-- The definition a reference has in the `i`-th schema. -/
def definition (roots : List Json) (i : ℕ) (ref : Text) : Option Json :=
  roots[i]?.bind fun root => (definitions root).get? ref

/-- The references rendered for a schema that is not within another. -/
def rootRefs (schema : Json) : List Text := refs (maxDepth + 1) schema

section

variable (roots : List Json) (w : Writer) (i : ℕ)

/-- Where a reference leads, in a declaration and in a schema: nowhere, or to a
name and a definition that are related. -/
def Leads (R : Text → Text → Prop) (inner : ℕ) (ref : Text) : Prop :=
  (w.resolve inner ref = none ∧ definition roots i ref = none) ∨
    ∃ name, w.resolve inner ref = some name ∧ R name ref

/-- One step of `Means`: the declaration was written from an equal definition,
and its references lead to names that are related to them. -/
def MeansBy (R : Text → Text → Prop) (name ref : Text) : Prop :=
  ∃ decl schema, w.decls.get? name = some decl ∧ definition roots i ref = some schema ∧
    decl.canonical = canonical schema ∧
    ∀ inner ∈ rootRefs decl.schema, Leads roots w i R decl.root inner

/-- **A name means the `i`-th schema's definition of a reference.** -/
def Means (name ref : Text) : Prop :=
  ∃ R : Text → Text → Prop, R name ref ∧ ∀ name ref, R name ref → MeansBy roots w i R name ref

end

/-! ## Sharing -/

/-- Type names that can become one name: some numbered form of both. -/
def Meet (base base' : Text) : Prop := ∃ k k', candidate base k = candidate base' k'

/-- **The definitions that the `i`-th schema's definition of a reference shares a
declaration with**: first come, with the same text, by type names that meet. -/
def Shares (roots : List Json) (i : ℕ) (ref : Text) (d : Defined) : Prop :=
  ∃ schema, definition roots i ref = some schema ∧
    Meet (typeName (defName ref)) (typeName d.name) ∧
    firstCome (allDefined roots) (typeName d.name) (canonical schema) = some d

/-- The references that the `i`-th schema leads to, through what it shares. -/
inductive Refers (roots : List Json) (i : ℕ) : Text → Prop
  | root {schema : Json} {ref : Text} : roots[i]? = some schema → ref ∈ rootRefs schema →
      Refers roots i ref
  | inner {ref inner : Text} {d : Defined} : Refers roots i ref → Shares roots i ref d →
      inner ∈ rootRefs d.schema → Refers roots i inner

/-- **Schemas that share definitions agree on what these refer to.** -/
def Agrees (roots : List Json) : Prop :=
  ∀ i ref d, Refers roots i ref → Shares roots i ref d → ∀ inner ∈ rootRefs d.schema,
    (definition roots d.root inner).map canonical = (definition roots i inner).map canonical

variable {roots : List Json} {w : Writer} {i : ℕ} {ref name : Text}

/-- What a reference resolves to, and what it is defined as. -/
theorem Registered.cases (h : Registered roots w) (i : ℕ) (ref : Text) :
    (definition roots i ref = none ∧ w.resolve i ref = none) ∨
      ∃ schema name, definition roots i ref = some schema ∧ w.resolve i ref = some name ∧
        Holds w.decls (typeName (defName ref)) (canonical schema) name := by
  unfold definition Writer.resolve
  rcases hroot : roots[i]? with _ | root
  · rw [List.getElem?_eq_none_iff, ← h.length, ← List.getElem?_eq_none_iff] at hroot
    rw [hroot]
    exact .inl ⟨rfl, rfl⟩
  · rcases hrefmap : w.refmaps[i]? with _ | refmap
    · rw [List.getElem?_eq_none_iff, h.length, ← List.getElem?_eq_none_iff, hroot] at hrefmap
      cases hrefmap
    · exact h.names i root refmap hroot hrefmap ref

/-- Schemas with equal definitions of a reference have one name for it. -/
theorem Registered.resolve_eq (h : Registered roots w) {j : ℕ}
    (heq : (definition roots j ref).map canonical = (definition roots i ref).map canonical) :
    w.resolve j ref = w.resolve i ref := by
  rcases h.cases j ref with ⟨hdef, hname⟩ | ⟨schema, name, hdef, hname, hholds⟩ <;>
    rcases h.cases i ref with ⟨hdef', hname'⟩ | ⟨schema', name', hdef', hname', hholds'⟩ <;>
    simp only [hdef, hdef', Option.map_some, Option.map_none, Option.some.injEq, reduceCtorEq]
      at heq
  · rw [hname, hname']
  · rw [hname, hname', hholds.unique (heq ▸ hholds')]

/-- `Means` is closed under its own step. -/
theorem Means.step (h : Means roots w i name ref) :
    MeansBy roots w i (Means roots w i) name ref := by
  obtain ⟨R, hR, hclosed⟩ := h
  obtain ⟨decl, schema, hdecl, hdef, htext, hinner⟩ := hclosed name ref hR
  refine ⟨decl, schema, hdecl, hdef, htext, fun inner hmem => (hinner inner hmem).imp_right ?_⟩
  rintro ⟨name', hname', hR'⟩
  exact ⟨name', hname', R, hR', hclosed⟩

section

variable (h : Registered roots w)
include h

end

end Pydeno.Schema
