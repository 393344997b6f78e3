import Pydeno.Wire.Model.Writer
/-!
# The writer of messages: lemmas

Where a message fails to be written: at the size check, or at one of its
marked values.
-/

namespace Pydeno.Wire

section

variable {E X : Type} {encoded : E → Bytes → Except X Bytes} {fail : List ℕ → X}

theorem checkSize_eq_error {buf : Bytes} {x : X} (h : checkSize fail buf = .error x) :
    ∃ text, x = fail text := by
  unfold checkSize at h
  split at h
  · cases h
    exact ⟨_, rfl⟩
  · cases h

theorem plain_eq_error {item : Item E} {buf : Bytes} {x : X} (h : plain encoded item buf = .error x) :
    ∃ e, item = .enc e ∧ encoded e buf = .error x := by
  cases item with
  | int z | str s => cases h
  | enc e => exact ⟨e, rfl, h⟩

theorem plainEntries_eq_error : ∀ {message : List (List ℕ × Item E)} {first : Bool} {buf : Bytes}
    {x : X}, plainEntries encoded fail message first buf = .error x →
      (∃ text, x = fail text) ∨ ∃ k e at_, (k, Item.enc e) ∈ message ∧ encoded e at_ = .error x := by
  intro message
  induction message with
  | nil =>
    intro first buf x h
    cases h
  | cons entry rest ih =>
    intro first buf x h
    obtain ⟨k, item⟩ := entry
    simp only [plainEntries] at h
    split at h
    next y hy =>
      cases h
      obtain ⟨e, rfl, he⟩ := plain_eq_error hy
      exact .inr ⟨k, e, _, by simp, he⟩
    · split at h
      next y hy =>
        cases h
        exact .inl (checkSize_eq_error hy)
      · rcases ih h with ht | ⟨k', e, at_, hmem, he⟩
        · exact .inl ht
        · exact .inr ⟨k', e, at_, by simp [hmem], he⟩

/-- **A message fails at the size check or at a marked value.** -/
theorem wireDumps_eq_error {message : List (List ℕ × Item E)} {x : X}
    (h : wireDumps encoded fail message = .error x) :
    (∃ text, x = fail text) ∨ ∃ k e at_, (k, Item.enc e) ∈ message ∧ encoded e at_ = .error x := by
  unfold wireDumps at h
  split at h
  next y hy =>
    cases h
    exact plainEntries_eq_error hy
  · exact .inl (checkSize_eq_error h)

end

end Pydeno.Wire
