import MatLogger2.Backend.Decoded
import MatLogger2.Backend.Model

/-! Whether the decoder is called on a child that is not there. It counts the cells
by one dimension, and the fields by their names; the library counts the elements by
all dimensions. An exception ends the decoder too, before it comes to the next child. -/

namespace XBot

open Matio

variable {α : Type}

namespace MatioBackend

/-- The nodes that `read_container` has decoded. -/
def ReadVisits [Zero α] (s : MatioBackend α) (varName : StdString) (x : Option (Matvar α)) : Prop :=
  ∃ f m, s.matFile = some f ∧ f.read varName = some m ∧ m.noData = false ∧ Visits m x

section

variable [Zero α] {m : Matvar α}

/-- A decoder that is called on null does not return. -/
theorem ne_value_of_visits_null (hm : ∀ p, Visits m (some p) → Distinct p) (h : Visits m none)
    (matdata : MatData α) (r : Bool × MatData α) : makeMatdata m matdata ≠ .value r := by
  generalize hx : none = x at h
  induction h generalizing matdata r with
  | self m => cases hx
  | null hmem =>
    intro hv
    obtain ⟨r', hr'⟩ := decodeChild_of_value (hm _ (.self _)) hv (mem_children hmem)
    cases hr'
  | child hmem _ ih =>
    intro hv
    obtain ⟨r', hr'⟩ := decodeChild_of_value (hm _ (.self _)) hv (mem_children hmem)
    exact ih (fun p hp => hm p (.child hmem hp)) default r' hx hr'

/-- The decoder is never called on null if and only if at each node that it comes to
the children are as counted; `read_container` decodes nothing where there is no data.
Otherwise the decoder does not return. -/
theorem no_null_child_iff {s : MatioBackend α} {f : MatFile α} {name : StdString}
    (hopen : s.matFile = some f) (hread : f.read name = some m)
    (hm : ∀ p, Visits m (some p) → Filled p) :
    (¬ Visits m none ↔ ∀ p, Visits m (some p) → Counted p) ∧
      (¬ ReadVisits s name none ↔
        m.noData = true ∨ ∀ p, Visits m (some p) → Counted p) ∧
      (Visits m none → ∀ matdata r, makeMatdata m matdata ≠ .value r) := by
  have hiff : ¬ Visits m none ↔ ∀ p, Visits m (some p) → Counted p := by
    rw [visits_null_iff, not_exists]
    refine forall_congr' fun p => ?_
    rw [not_and]
    refine forall_congr' fun hp => ?_
    rw [null_reached_iff (hm p hp), not_not]
  refine ⟨hiff, ?_, ne_value_of_visits_null fun p hp => (hm p hp).distinct⟩
  rw [← hiff]
  constructor
  · intro h
    cases hdata : m.noData with
    | true => exact .inl rfl
    | false => exact .inr fun hnull => h ⟨f, m, hopen, hread, hdata, hnull⟩
  · rintro h ⟨f', m', hopen', hread', hdata, hnull⟩
    obtain rfl := Option.some.inj (hopen.symm.trans hopen')
    obtain rfl := Option.some.inj (hread.symm.trans hread')
    rcases h with h | h
    · rw [hdata] at h
      cases h
    · exact h hnull

end

/-- A cell of one number. -/
theorem no_null_child_iff_cell :
    let m : Matvar ℤ := .cell [120] [1, 1] (some [some (.double [] [1, 1] (some [5]))])
    let s : MatioBackend ℤ := ⟨some ⟨[([120], m)], []⟩, true⟩
    (¬ Visits m none ↔ ∀ p, Visits m (some p) → Counted p) ∧
      (¬ ReadVisits s [120] none ↔ m.noData = true ∨ ∀ p, Visits m (some p) → Counted p) ∧
      (Visits m none → ∀ matdata r, makeMatdata m matdata ≠ .value r) := by
  intro m s
  refine no_null_child_iff (s := s) (f := ⟨[([120], m)], []⟩) rfl rfl fun p hp => ?_
  cases hp with
  | self => exact ⟨rfl, by simp⟩
  | child hmem hp =>
    rw [reached_singleton, List.mem_singleton] at hmem
    cases hmem
    rw [visits_leaf rfl hp]
    trivial

/-- A cell array of 3 rows and no columns: three children are asked for. -/
theorem empty_cell_null_child :
    let m : Matvar ℤ := .cell [120] [3, 0] (some [])
    let s : MatioBackend ℤ := ⟨some ⟨[([120], m)], []⟩, true⟩
    (∀ p, Visits m (some p) → Filled p) ∧ ReadVisits s [120] none := by
  intro m s
  have hfilled : Filled m := ⟨rfl, by simp⟩
  refine ⟨fun p hp => ?_, ⟨[([120], m)], []⟩, m, rfl, rfl, rfl,
    .null ((null_reached_iff hfilled).mpr ?_)⟩
  · cases hp with
    | self => exact hfilled
    | child hmem =>
      obtain ⟨i, -, hget⟩ := List.mem_map.mp (mem_children hmem)
      cases hget
  · have hdim : cellDim [3, 0] = 3 := by
      rw [cellDim, if_pos (by simp), intDim_zero]
      exact toInt_natCast (by norm_num)
    intro h
    rw [Counted, hdim] at h
    simp at h

end MatioBackend
end XBot
