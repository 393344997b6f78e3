import Pydeno.Schema.Model.Writer
/-!
# The parts of a schema

The schemas within a schema that the writer renders, and the references it
renders, to a depth. The text of a schema depends on no other references
(`ts_congr`).
-/

namespace Pydeno.Schema

open Wire (ascii)

/-! ## Parts -/

/-- The schemas that `array` renders. -/
def arrayParts (s : Fields) : List Json :=
  (tupleOf s).1.getD [] ++ (tupleOf s).2.toList

/-- The schemas that `indexType` renders. -/
def indexParts (s : Fields) : List Json :=
  match extraSchema s with
  | some extra => [extra]
  | none => patternSchemas s

/-- The schemas that `object` renders. -/
def objectParts (s : Fields) : List Json := indexParts s ++ (props s).map Prod.snd

mutual

/-- The types that a schema is rendered by: those that its `type` names, or the one
its keys are for. -/
def typeNames (s : Fields) : Json → List Text
  | .list types => typeNamesAll s types
  | .null =>
    if (get? s "properties").isSome || (get? s "additionalProperties").isSome ||
        (get? s "patternProperties").isSome then
      [ascii "object"]
    else if (get? s "items").isSome || (get? s "prefixItems").isSome then [ascii "array"]
    else []
  | .str name => [name]
  | _ => []

def typeNamesAll (s : Fields) : List Json → List Text
  | [] => []
  | t :: rest => typeNames s t ++ typeNamesAll s rest

end

/-- The schemas that `typed` renders. -/
def typedParts (s : Fields) (t : Json) : List Json :=
  (if ascii "array" ∈ typeNames s t then arrayParts s else []) ++
    if ascii "object" ∈ typeNames s t then objectParts s else []

/-- The form of a schema. -/
inductive Node where
  | ref (ref : Text)
  /-- A reference that is not a string. -/
  | noRef
  | const (v : Json)
  | enum (values : List Json)
  | options (options : List Json)
  | allOf (parts : List Json)
  | typed (t : Json)

/-- The form that `_ts` takes a schema to have. -/
def node (s : Fields) : Node :=
  match present s "$ref" with
  | some (.str ref) => .ref ref
  | some _ => .noRef
  | none =>
    match get? s "const" with
    | some v => .const v
    | none =>
      match nonemptyList s "enum" with
      | some values => .enum values
      | none =>
        match (nonemptyList s "anyOf").or (nonemptyList s "oneOf") with
        | some options => .options options
        | none =>
          match nonemptyList s "allOf" with
          | some parts => .allOf parts
          | none => .typed ((get? s "type").getD .null)

/-- **The schemas that `form` renders.** -/
def parts (s : Fields) : List Json :=
  match node s with
  | .options options => options
  | .allOf parts => parts
  | .typed t => typedParts s t
  | _ => []

/-- The reference that a schema is. -/
def ownRefs (s : Fields) : List Text :=
  match node s with
  | .ref ref => [ref]
  | _ => []

/-- **The references that are rendered**, to a depth. -/
def refs : ℕ → Json → List Text
  | 0, _ => []
  | left + 1, .dict s => ownRefs s ++ (parts s).flatMap (refs left)
  | _ + 1, _ => []

/-! ## What a text depends on -/

section

variable {sub sub' : Text → Json → Text} {indent : Text} {s : Fields}

mutual

theorem typed_congr :
    ∀ t, (ascii "array" ∈ typeNames s t → array sub indent s = array sub' indent s) →
      (ascii "object" ∈ typeNames s t → object sub indent s = object sub' indent s) →
      typed sub indent s t = typed sub' indent s t
  | .list types => fun harray hobject => by
    rw [typeNames] at harray hobject
    rw [typed, typed, typedAll_congr types harray hobject]
  | .null => fun harray hobject => by
    rw [typeNames] at harray hobject
    rw [typed, typed]
    unfold inferredType
    split_ifs at harray hobject ⊢
    · exact hobject (List.mem_singleton_self _)
    · exact harray (List.mem_singleton_self _)
    · rfl
  | .str name => fun harray hobject => by
    rw [typeNames] at harray hobject
    rw [typed, typed]
    unfold namedType
    split_ifs with _ _ _ _ ha ho
    · rfl
    · rfl
    · rfl
    · rfl
    · exact harray (by simp [ha])
    · exact hobject (by simp [ho])
    · rfl
  | .bool _ | .int _ | .float _ | .nonfinite _ | .dict _ => fun _ _ => by rw [typed, typed] <;> simp

theorem typedAll_congr :
    ∀ types, (ascii "array" ∈ typeNamesAll s types → array sub indent s = array sub' indent s) →
      (ascii "object" ∈ typeNamesAll s types → object sub indent s = object sub' indent s) →
      typedAll sub indent s types = typedAll sub' indent s types
  | [] => fun _ _ => by rw [typedAll, typedAll]
  | t :: types => fun harray hobject => by
    rw [typeNamesAll] at harray hobject
    rw [typedAll, typedAll,
      typed_congr t (fun h => harray (List.mem_append_left _ h))
        fun h => hobject (List.mem_append_left _ h),
      typedAll_congr types (fun h => harray (List.mem_append_right _ h))
        fun h => hobject (List.mem_append_right _ h)]

end

end

end Pydeno.Schema
