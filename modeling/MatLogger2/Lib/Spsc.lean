import MatLogger2.Lib.Ring

/-! One thread pushes into a ring while another pops from it, each by single
loads and stores. `PushView` and `PopView` say how far such an operation has
come; `Ok` says what the values loaded so far still mean. The live content
leaves out what the popper has copied but not yet given back. Neither thread
can spoil the other's view. -/

namespace Spsc

variable {n : ℕ} {H : Type}

inductive PushView (H : Type) (n : ℕ)
  | idle
  | loaded (w : Fin n)
  | written (w : Fin n) (h : H)

inductive PopView (H : Type) (n : ℕ)
  | idle
  | loaded (w : Fin n)
  | ready (i : Fin n)
  | copied (i : Fin n) (h : H)
  /-- `count` handles are being copied out from `i` on, those of `todo` last. -/
  | bulk (i : Fin n) (count : ℕ) (todo : List (Fin n))

namespace PushView

def Ok (r : Ring H n) : PushView H n → Prop
  | idle => True
  | loaded w => w = r.write
  | written w h => w = r.write ∧ r.cell r.write = h

theorem Ok.advance {r : Ring H n} {v : PushView H n} (h : v.Ok r) (k : ℕ) :
    v.Ok (r.advance k) := by
  cases v <;> exact h

end PushView

namespace PopView

def Ok (r : Ring H n) : PopView H n → Prop
  | idle => True
  | loaded w => gap r.read w ≤ r.content.length
  | ready i => i = r.read ∧ r.content ≠ []
  | copied i h => i = r.read ∧ r.content.head? = some h
  | bulk i count todo =>
      i = r.read ∧ count ≤ r.content.length ∧
        ∃ k, k ≤ count ∧ todo = ((List.range count).drop k).map (offset r.read)

/-- How many handles have been copied out of cells not yet given back. -/
def taken : PopView H n → ℕ
  | copied _ _ => 1
  | bulk _ count todo => count - todo.length
  | _ => 0

/-- The content that no popper has copied out yet. -/
def live (r : Ring H n) (v : PopView H n) : List H := r.content.drop v.taken

theorem Ok.setCell {r : Ring H n} {v : PopView H n} (h : v.Ok r) (x : H) :
    v.Ok (r.setCell x) := by
  cases v <;> simp_all [Ok]

theorem Ok.publish {r : Ring H n} {v : PopView H n} (h : v.Ok r)
    (hroom : r.content.length + 1 < n) : v.Ok r.publish := by
  have hc := r.content_publish hroom
  cases v with
  | idle => trivial
  | loaded w =>
    simp only [Ok, hc, Ring.publish_read, List.length_append] at h ⊢
    omega
  | ready i => exact ⟨h.1, by simp [hc]⟩
  | copied i x => exact ⟨h.1, by simp [hc, List.head?_append, h.2]⟩
  | bulk i count todo =>
    obtain ⟨hi, hle, k, hk, rfl⟩ := h
    refine ⟨hi, ?_, k, hk, rfl⟩
    simp only [hc, List.length_append]
    omega

theorem taken_le {r : Ring H n} {v : PopView H n} (h : v.Ok r) :
    v.taken ≤ r.content.length := by
  cases v with
  | copied i x =>
    have : r.content ≠ [] := by
      rintro he
      simp [Ok, he] at h
    exact List.length_pos_iff.mpr this
  | bulk i count todo =>
    have := h.2.1
    simp only [taken]
    omega
  | _ => exact Nat.zero_le _

@[simp] theorem live_idle (r : Ring H n) : live r idle = r.content := rfl
@[simp] theorem live_loaded (r : Ring H n) (w : Fin n) : live r (loaded w) = r.content := rfl

@[simp] theorem live_setCell (r : Ring H n) (v : PopView H n) (x : H) :
    live (r.setCell x) v = live r v := by simp [live]

theorem live_publish {r : Ring H n} {v : PopView H n} (h : v.Ok r)
    (hroom : r.content.length + 1 < n) :
    live r.publish v = live r v ++ [r.cell r.write] := by
  rw [live, r.content_publish hroom, List.drop_append_of_le_length (taken_le h), live]

theorem length_content_eq {r : Ring H n} {v : PopView H n} (h : v.Ok r) :
    r.content.length = v.taken + (live r v).length := by
  have := taken_le h
  simp only [live, List.length_drop]
  omega

/-- The write index just loaded is within the content. -/
theorem ok_loaded (r : Ring H n) : (loaded r.write : PopView H n).Ok r := by
  simp [Ok]

/-- A write index other than the read index shows a nonempty ring. -/
theorem ok_ready {r : Ring H n} {w : Fin n} (h : (loaded w : PopView H n).Ok r)
    (hne : w ≠ r.read) : (ready r.read : PopView H n).Ok r := by
  refine ⟨rfl, fun he => ?_⟩
  simp only [Ok, he, List.length_nil, Nat.le_zero, gap_eq_zero] at h
  exact hne h

theorem ok_copied {r : Ring H n} {i : Fin n} (h : (ready i : PopView H n).Ok r) :
    (copied i (r.cell i) : PopView H n).Ok r := by
  obtain ⟨rfl, h⟩ := h
  exact ⟨rfl, r.head?_content h⟩

theorem live_ready {r : Ring H n} {i : Fin n} (h : (ready i : PopView H n).Ok r) :
    live r (ready i) = r.cell i :: live r (copied i (r.cell i)) := by
  obtain ⟨rfl, h⟩ := h
  have hh := r.head?_content h
  simp only [live, taken, List.drop_zero]
  cases hc : r.content with
  | nil => exact absurd hc h
  | cons x t => simp_all

theorem live_advance_one {r : Ring H n} {i : Fin n} {x : H}
    (h : (copied i x : PopView H n).Ok r) :
    live (r.advance 1) idle = live r (copied i x) := by
  have h1 : 1 ≤ r.content.length := taken_le h
  rw [live, r.content_advance h1]
  rfl

/-- Counting the available handles from a loaded write index starts the copying. -/
theorem ok_bulk {r : Ring H n} {w : Fin n} (h : (loaded w : PopView H n).Ok r) :
    (bulk r.read (gap r.read w) ((List.range (gap r.read w)).map (offset r.read)) :
      PopView H n).Ok r :=
  ⟨rfl, h, 0, Nat.zero_le _, rfl⟩

theorem live_bulk_start (r : Ring H n) (i : Fin n) (count : ℕ) :
    live r (bulk i count ((List.range count).map (offset r.read))) = r.content := by
  simp [live, taken]

theorem ok_bulk_next {r : Ring H n} {count : ℕ} {i j : Fin n} {todo : List (Fin n)}
    (h : (bulk i count (j :: todo) : PopView H n).Ok r) :
    (bulk i count todo : PopView H n).Ok r := by
  obtain ⟨hi, hle, k, hk, he⟩ := h
  refine ⟨hi, hle, k + 1, ?_, ?_⟩
  · have := congrArg List.length he
    simp at this
    omega
  · have := congrArg List.tail he
    simpa [List.tail_drop] using this

theorem live_bulk_next {r : Ring H n} {count : ℕ} {i j : Fin n} {todo : List (Fin n)}
    (h : (bulk i count (j :: todo) : PopView H n).Ok r) :
    live r (bulk i count (j :: todo)) = r.cell j :: live r (bulk i count todo) := by
  obtain ⟨-, hle, k, hk, he⟩ := h
  have hlen : todo.length + 1 = count - k := by
    have := congrArg List.length he
    simpa using this
  have hj : j = offset r.read k := by
    have := congrArg List.head? he
    simp only [List.head?_cons, List.head?_map, List.head?_drop] at this
    rw [List.getElem?_range (by omega)] at this
    simpa using this
  have hk' : k < r.content.length := by omega
  simp only [live, taken, List.length_cons]
  rw [show count - (todo.length + 1) = k by omega, show count - todo.length = k + 1 by omega,
    List.drop_eq_getElem_cons hk']
  congr 1
  simp [Ring.content, hj]

theorem live_bulk_end {r : Ring H n} {i : Fin n} {count : ℕ}
    (h : (bulk i count [] : PopView H n).Ok r) :
    live (r.advance count) idle = live r (bulk i count []) := by
  rw [live, r.content_advance h.2.1]
  simp [live, taken]

end PopView
end Spsc
