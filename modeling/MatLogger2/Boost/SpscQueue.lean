import MatLogger2.Lib.Spsc

/-! The functions of `ringbuffer_base`, on a ring of `max_size` cells of which
one stays free. A whole call is one function here; the threads that interleave
inside such a call take the same values one load or store at a time. -/

namespace Boost

open Spsc

variable {H : Type} {maxSize : ℕ}

/-- The loop `while (ret >= max_size) ret -= max_size` is the remainder. -/
def nextIndex (arg : Fin maxSize) : Fin maxSize :=
  ⟨(arg + 1) % maxSize, Nat.mod_lt _ arg.pos⟩

def readAvailable (writeIndex readIndex : Fin maxSize) : ℕ :=
  if readIndex ≤ writeIndex then writeIndex - readIndex
  else writeIndex + maxSize - readIndex

/-- `read_index - write_index - 1` may pass below zero before `max_size` is
added; in `size_t` it wraps there and back. -/
def writeAvailable (writeIndex readIndex : Fin maxSize) : ℕ :=
  let ret : ℤ := readIndex - writeIndex - 1
  (if readIndex ≤ writeIndex then ret + maxSize else ret).toNat

/-- The cells that `consume_all` visits, in its two sections if they wrap. -/
def consumeCells (readIndex : Fin maxSize) (outputCount : ℕ) : List (Fin maxSize) :=
  let cell (i : ℕ) : Fin maxSize := ⟨i % maxSize, Nat.mod_lt _ readIndex.pos⟩
  if readIndex + outputCount > maxSize then
    let count0 := maxSize - readIndex
    let count1 := outputCount - count0
    ((List.range count0).map fun i => cell (readIndex + i)) ++ (List.range count1).map cell
  else (List.range outputCount).map fun i => cell (readIndex + i)

def newReadIndex (readIndex : Fin maxSize) (outputCount : ℕ) : Fin maxSize :=
  let i := readIndex + outputCount
  ⟨(if i > maxSize then i - maxSize else if i = maxSize then 0 else i) % maxSize,
    Nat.mod_lt _ readIndex.pos⟩

def push (q : Ring H maxSize) (t : H) : Ring H maxSize × Bool :=
  let writeIndex := q.write
  let next := nextIndex writeIndex
  if next = q.read then (q, false)
  else
    let q := { q with cell := Function.update q.cell writeIndex t }
    ({ q with write := next }, true)

/-- `consume_one`, with the handle that was given to the functor. -/
def consumeOne (q : Ring H maxSize) : Ring H maxSize × Option H :=
  let readIndex := q.read
  if q.write = readIndex then (q, none)
  else
    let object := q.cell readIndex
    ({ q with read := nextIndex readIndex }, some object)

/-- `consume_all`, with the handles that were given to the functor. -/
def consumeAll (q : Ring H maxSize) : Ring H maxSize × List H :=
  let readIndex := q.read
  let avail := readAvailable q.write readIndex
  if avail = 0 then (q, [])
  else
    let objects := (consumeCells readIndex avail).map q.cell
    ({ q with read := newReadIndex readIndex avail }, objects)

/-- `while(pop()){}`: a pop from an empty ring changes nothing, so the loop is
`max_size` rounds of it. -/
def popWhile (q : Ring H maxSize) : Ring H maxSize :=
  (fun q => (consumeOne q).1)^[maxSize] q

/-- `while(push(t)){}`. -/
def pushWhile (t : H) (q : Ring H maxSize) : Ring H maxSize :=
  (fun q => (push q t).1)^[maxSize] q

/-- `reset(t)` for a payload with a destructor: it leaves `t` in the cells. -/
def reset (q : Ring H maxSize) (t : H) : Ring H maxSize :=
  popWhile (pushWhile t (popWhile q))

theorem nextIndex_eq (i : Fin maxSize) : nextIndex i = offset i 1 := rfl

theorem readAvailable_eq (w r : Fin maxSize) : readAvailable w r = gap r w := rfl

theorem writeAvailable_eq (w r : Fin maxSize) : writeAvailable w r = maxSize - 1 - gap r w := by
  simp only [writeAvailable, gap]
  split_ifs <;> omega

theorem consumeCells_eq (r : Fin maxSize) (count : ℕ) :
    consumeCells r count = (List.range count).map (offset r) := by
  simp only [consumeCells]
  split_ifs with h
  · apply List.ext_getElem
    · simp
      omega
    · intro i h₁ h₂
      simp only [List.length_map, List.length_range] at h₂
      apply Fin.ext
      rw [List.getElem_append]
      split_ifs with hi
      · simp [offset]
      · simp only [List.length_map, List.length_range, List.getElem_map, List.getElem_range,
          offset] at hi ⊢
        rw [show (r : ℕ) + i = i - (maxSize - r) + maxSize by omega, Nat.add_mod_right]
  · rfl

theorem newReadIndex_eq (r : Fin maxSize) (count : ℕ) :
    newReadIndex r count = offset r count := by
  apply Fin.ext
  simp only [newReadIndex, offset]
  split_ifs with h₁ h₂
  · rw [← Nat.mod_eq_sub_mod (by omega)]
  · rw [h₂, Nat.mod_self, Nat.zero_mod]
  · rfl

/-- A ring is full when the index after the write index is the read index. -/
theorem nextIndex_eq_read (q : Ring H maxSize) :
    nextIndex q.write = q.read ↔ q.content.length + 1 = maxSize := by
  have hlt := gap_lt q.read q.write
  rw [q.length_content, nextIndex_eq]
  constructor
  · intro h
    by_contra hne
    have := gap_offset_right q.read q.write (k := 1) (by omega)
    rw [h, gap_self] at this
    omega
  · intro h
    rw [← offset_gap q.read q.write, offset_offset, h]
    apply Fin.ext
    simp [offset, Nat.mod_eq_of_lt q.read.isLt]

theorem push_room {q : Ring H maxSize} (h : q.content.length + 1 < maxSize) (t : H) :
    (push q t).2 = true ∧ (push q t).1.content = q.content ++ [t] := by
  have hne : nextIndex q.write ≠ q.read := by
    rw [Ne, nextIndex_eq_read]
    omega
  have hr : (q.setCell t).content.length + 1 < maxSize := by simpa using h
  have hc := (q.setCell t).content_publish hr
  rw [Ring.content_setCell, Ring.setCell_write, Ring.setCell_cell_write] at hc
  simp only [push, hne, ↓reduceIte, true_and]
  exact hc

theorem consumeOne_nil {q : Ring H maxSize} (h : q.content = []) : consumeOne q = (q, none) := by
  simp [consumeOne, q.content_eq_nil.mp h]

theorem consumeOne_cons {q : Ring H maxSize} {x : H} {t : List H} (h : q.content = x :: t) :
    (consumeOne q).2 = some x ∧ (consumeOne q).1.content = t := by
  have hne : q.write ≠ q.read := by
    rw [Ne, ← q.content_eq_nil, h]
    exact List.cons_ne_nil _ _
  have hx := q.head?_content (by simp [h])
  have hc := q.content_advance (k := 1) (by simp [h])
  simp only [h, List.head?_cons, Option.some.injEq] at hx
  rw [h, List.drop_one, List.tail_cons] at hc
  simp only [consumeOne, hne, ↓reduceIte, ← hx, true_and]
  exact hc

theorem consumeAll_eq (q : Ring H maxSize) :
    (consumeAll q).2 = q.content ∧ (consumeAll q).1.content = [] := by
  have hlen := q.length_content
  simp only [consumeAll, readAvailable_eq]
  by_cases h0 : gap q.read q.write = 0
  · have hnil : q.content = [] := List.length_eq_zero_iff.mp (hlen.trans h0)
    simp [h0, hnil]
  · have hc := q.content_advance hlen.ge
    rw [← hlen, List.drop_length, hlen] at hc
    simp only [h0, ↓reduceIte, consumeCells_eq, newReadIndex_eq, List.map_map]
    exact ⟨rfl, hc⟩

theorem content_popWhile (q : Ring H maxSize) : (popWhile q).content = [] := by
  have key : ∀ k (q : Ring H maxSize),
      ((fun q => (consumeOne q).1)^[k] q).content = q.content.drop k := by
    intro k
    induction k with
    | zero => intro q; rfl
    | succ k ih =>
      intro q
      rw [Function.iterate_succ_apply, ih]
      cases hc : q.content with
      | nil => rw [consumeOne_nil hc, hc, List.drop_nil, List.drop_nil]
      | cons x t => rw [(consumeOne_cons hc).2, List.drop_succ_cons]
  rw [popWhile, key]
  exact List.drop_eq_nil_of_le q.length_content_lt.le

theorem content_reset (q : Ring H maxSize) (t : H) : (reset q t).content = [] :=
  content_popWhile _

end Boost
