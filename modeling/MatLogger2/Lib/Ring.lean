import Mathlib.Tactic

/-! Ring storage with two wrapping indices. The cells from the read index up to
the write index are the content; one cell is always left free, so that equal
indices mean an empty ring. Every change of the ring is one of three stores: a
cell at the write index, the write index, the read index. -/

namespace Spsc

variable {n : ℕ}

/-- The index `k` places after `i`, wrapping at `n`. -/
def offset (i : Fin n) (k : ℕ) : Fin n := ⟨(i + k) % n, Nat.mod_lt _ i.pos⟩

/-- How many places `j` is after `i`. -/
def gap (i j : Fin n) : ℕ := if i ≤ j then j - i else j + n - i

@[simp] theorem offset_zero (i : Fin n) : offset i 0 = i :=
  Fin.ext (Nat.mod_eq_of_lt i.isLt)

theorem offset_offset (i : Fin n) (a b : ℕ) : offset (offset i a) b = offset i (a + b) := by
  apply Fin.ext
  simp only [offset, Nat.mod_add_mod, Nat.add_assoc]

@[simp] theorem gap_self (i : Fin n) : gap i i = 0 := by simp [gap]

theorem gap_lt (i j : Fin n) : gap i j < n := by
  unfold gap
  split_ifs with h <;> omega

@[simp] theorem offset_gap (i j : Fin n) : offset i (gap i j) = j := by
  apply Fin.ext
  simp only [offset, gap]
  split_ifs with h
  · rw [show (i : ℕ) + (j - i) = j by omega, Nat.mod_eq_of_lt j.isLt]
  · rw [show (i : ℕ) + (j + n - i) = j + n by omega, Nat.add_mod_right, Nat.mod_eq_of_lt j.isLt]

theorem gap_offset (i : Fin n) {k : ℕ} (hk : k < n) : gap i (offset i k) = k := by
  simp only [gap, offset, Fin.le_def]
  by_cases h : (i : ℕ) + k < n
  · rw [Nat.mod_eq_of_lt h]
    split_ifs <;> omega
  · have hm : ((i : ℕ) + k) % n = i + k - n := by
      rw [Nat.mod_eq_sub_mod (by omega), Nat.mod_eq_of_lt (by omega)]
    rw [hm]
    split_ifs <;> omega

theorem gap_eq_zero {i j : Fin n} : gap i j = 0 ↔ j = i := by
  constructor
  · intro h
    rw [← offset_gap i j, h, offset_zero]
  · rintro rfl
    exact gap_self j

/-- Advancing the first index by `k` places brings it `k` places nearer. -/
theorem gap_offset_left (i j : Fin n) {k : ℕ} (hk : k ≤ gap i j) :
    gap (offset i k) j = gap i j - k := by
  have hlt := gap_lt i j
  have hj : j = offset (offset i k) (gap i j - k) := by
    rw [offset_offset, Nat.add_sub_cancel' hk, offset_gap]
  conv_lhs => rw [hj]
  exact gap_offset _ (by omega)

theorem gap_offset_right (i j : Fin n) {k : ℕ} (hk : gap i j + k < n) :
    gap i (offset j k) = gap i j + k := by
  conv_lhs => rw [← offset_gap i j, offset_offset]
  exact gap_offset i hk

structure Ring (H : Type) (n : ℕ) where
  write : Fin n
  read : Fin n
  cell : Fin n → H

namespace Ring

variable {H : Type} (r : Ring H n)

/-- The handles between the two indices, oldest first. -/
def content : List H := (List.range (gap r.read r.write)).map fun k => r.cell (offset r.read k)

@[simp] theorem length_content : r.content.length = gap r.read r.write := by simp [content]

theorem length_content_lt : r.content.length < n := by
  rw [length_content]
  exact gap_lt _ _

/-- Store a handle in the free cell at the write index. -/
def setCell (h : H) : Ring H n := { r with cell := Function.update r.cell r.write h }

/-- Make the cell at the write index part of the content. -/
def publish : Ring H n := { r with write := offset r.write 1 }

/-- Give the oldest `k` cells back. -/
def advance (k : ℕ) : Ring H n := { r with read := offset r.read k }

@[simp] theorem setCell_write (h : H) : (r.setCell h).write = r.write := rfl
@[simp] theorem setCell_read (h : H) : (r.setCell h).read = r.read := rfl
@[simp] theorem setCell_cell_write (h : H) : (r.setCell h).cell r.write = h := by simp [setCell]
@[simp] theorem publish_read : r.publish.read = r.read := rfl
@[simp] theorem publish_cell : r.publish.cell = r.cell := rfl
@[simp] theorem advance_write (k : ℕ) : (r.advance k).write = r.write := rfl
@[simp] theorem advance_cell (k : ℕ) : (r.advance k).cell = r.cell := rfl

@[simp] theorem content_setCell (h : H) : (r.setCell h).content = r.content := by
  apply List.map_congr_left
  intro k hk
  have hk : k < gap r.read r.write := List.mem_range.mp hk
  have hlt := gap_lt r.read r.write
  -- an occupied cell is not the one at the write index
  have hne : offset r.read k ≠ r.write := by
    intro he
    have := gap_offset r.read (show k < n by omega)
    rw [he] at this
    omega
  simp [setCell, hne]

theorem content_publish (hroom : r.content.length + 1 < n) :
    r.publish.content = r.content ++ [r.cell r.write] := by
  rw [length_content] at hroom
  simp only [content, publish, gap_offset_right _ _ hroom, List.range_succ, List.map_append,
    List.map_cons, List.map_nil, offset_gap]

theorem content_advance {k : ℕ} (hk : k ≤ r.content.length) :
    (r.advance k).content = r.content.drop k := by
  rw [length_content] at hk
  apply List.ext_getElem
  · simp [advance, gap_offset_left _ _ hk]
  · intro j h₁ h₂
    simp [content, advance, offset_offset]

theorem content_eq_nil : r.content = [] ↔ r.write = r.read := by
  rw [← List.length_eq_zero_iff, length_content, gap_eq_zero]

theorem head?_content (h : r.content ≠ []) : r.content.head? = some (r.cell r.read) := by
  have hpos : 0 < gap r.read r.write := by
    rw [← length_content]
    exact List.length_pos_iff.mpr h
  simp [content, List.head?_eq_getElem?, hpos]

end Ring
end Spsc
