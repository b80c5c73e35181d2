import Mathlib.Tactic

/-! What has become of a sequence of sent items when whole runs of them may be
dropped. A ledger also has a tail of items whose fate is open: they are the last
ones sent, and are kept or dropped together. -/

namespace Ledger

variable {α : Type}

/-- `Lossy runs sent kept`: cutting the disjoint contiguous `runs`, in this
order, out of `sent` leaves `kept`. -/
inductive Lossy : List (List α) → List α → List α → Prop
  | nil : Lossy [] [] []
  | keep {runs : List (List α)} {sent kept : List α} (a : α) :
      Lossy runs sent kept → Lossy runs (sent ++ [a]) (kept ++ [a])
  | drop {runs : List (List α)} {sent kept : List α} (run : List α) :
      Lossy runs sent kept → Lossy (runs ++ [run]) (sent ++ run) kept

variable {runs : List (List α)} {sent kept tail : List α}

theorem Lossy.append (h : Lossy runs sent kept) (l : List α) :
    Lossy runs (sent ++ l) (kept ++ l) := by
  induction l generalizing sent kept with
  | nil => simpa using h
  | cons a l ih => simpa using ih (h.keep a)

/-- What is kept is kept in order and once. -/
theorem Lossy.sublist (h : Lossy runs sent kept) : kept.Sublist sent := by
  induction h with
  | nil => exact .refl _
  | keep a _ ih => exact ih.append (.refl _)
  | drop run _ ih => exact ih.trans (List.sublist_append_left _ _)

theorem Lossy.length (h : Lossy runs sent kept) :
    sent.length = kept.length + runs.flatten.length := by
  induction h with
  | nil => rfl
  | keep a _ ih =>
    rw [List.length_append, List.length_append, ih]
    omega
  | drop run _ ih =>
    rw [List.length_append, ih, List.flatten_append, List.flatten_singleton, List.length_append]
    omega

theorem Lossy.eq_of_nil (h : Lossy [] sent kept) : kept = sent := by
  generalize hr : ([] : List (List α)) = runs at h
  induction h with
  | nil => rfl
  | keep a _ ih => rw [ih hr]
  | drop run _ _ => exact absurd hr.symm (by simp)

def Open (runs : List (List α)) (sent kept tail : List α) : Prop :=
  ∃ settled, sent = settled ++ tail ∧ Lossy runs settled kept

namespace Open

theorem nil : Open ([] : List (List α)) [] [] [] := ⟨[], rfl, .nil⟩

theorem send (h : Open runs sent kept tail) (a : α) :
    Open runs (sent ++ [a]) kept (tail ++ [a]) := by
  obtain ⟨settled, rfl, hl⟩ := h
  exact ⟨settled, by simp, hl⟩

theorem keep (h : Open runs sent kept tail) : Open runs sent (kept ++ tail) [] := by
  obtain ⟨settled, rfl, hl⟩ := h
  exact ⟨settled ++ tail, by simp, hl.append tail⟩

theorem drop (h : Open runs sent kept tail) : Open (runs ++ [tail]) sent kept [] := by
  obtain ⟨settled, rfl, hl⟩ := h
  exact ⟨settled ++ tail, by simp, hl.drop tail⟩

theorem lossy (h : Open runs sent kept tail) : Lossy runs sent (kept ++ tail) := by
  obtain ⟨settled, rfl, hl⟩ := h
  exact hl.append tail

end Open
end Ledger
