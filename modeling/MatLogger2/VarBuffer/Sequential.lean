import MatLogger2.Lib.Transition
import MatLogger2.VarBuffer.CallSpecs

/-! One variable used by any sequence of its calls, one after the other, in both
modes. A flush closes the current block in favour of an empty one, except where a
circular buffer recycles its oldest block: that one is left as it was. -/

namespace XBot

open Transition

variable {α : Type}

namespace VariableBuffer

inductive Call (α : Type)
  | addElem (data : Eigen.MatrixXd α)
  | flushToQueue
  | readBlock
  | setBufferMode (mode : Mode)
  | setOnBlockAvailable (callback : Bool)

/-- A call of `read_block` in circular mode throws, and changes nothing. -/
def call (vb : VariableBuffer α) : Call α → VariableBuffer α
  | .addElem data => (vb.addElem data).vb
  | .flushToQueue => vb.flushToQueue.vb
  | .readBlock => vb.readBlock.1
  | .setBufferMode mode => vb.setBufferMode mode
  | .setOnBlockAvailable callback => vb.setOnBlockAvailable callback

end VariableBuffer

open VariableBuffer

/-- A new variable with blocks of `b` samples, and its calls. -/
def sequential (α : Type) (rows cols b : ℕ) : System (VariableBuffer α) (Call α) where
  init vb := ∃ name hb storage, vb = VariableBuffer.make name rows cols b hb storage
  step vb cs vb' := ∃ c, cs = [c] ∧ vb' = vb.call c

namespace VariableBuffer

variable {rows cols b : ℕ} {vb vb' : VariableBuffer α}

theorem readBlock_whole (w : Whole b vb) : Whole b vb.readBlock.1 := by
  cases hm : vb.overwrites with
  | true =>
    rw [readBlock_circular hm]
    exact w
  | false =>
    cases hq : vb.log.queue with
    | nil =>
      rw [readBlock_nil hm hq]
      exact w
    | cons oldest rest =>
      obtain ⟨data, -, -, -, h⟩ := readBlock_cons w hm hq
      exact h.whole

theorem call_whole (hb : 0 < b) (w : Whole b vb) (c : Call α) : Whole b (vb.call c) := by
  cases c with
  | addElem data =>
    by_cases h : data.size = vb.rows * vb.cols
    · exact (addElem_spec w hb h).2.2.whole
    · rw [call, addElem_refused h]
      exact w
  | flushToQueue => exact (flushToQueue_spec w).2.whole
  | readBlock => exact readBlock_whole w
  | setBufferMode mode => exact ⟨w.owned, w.size, w.column, w.filled⟩
  | setOnBlockAvailable callback => exact ⟨w.owned, w.size, w.column, w.filled⟩

theorem whole_of_reachable (h : (sequential α rows cols b).Reachable vb) : 0 < b ∧ Whole b vb := by
  refine h.inv (I := fun vb => 0 < b ∧ Whole b vb) ?_ ?_
  · rintro vb ⟨name, hb, storage, rfl⟩
    exact ⟨hb, (whole_make name rows cols b hb storage).1⟩
  · rintro vb cs vb' ⟨hb, w⟩ ⟨c, -, rfl⟩
    exact ⟨hb, call_whole hb w c⟩

/-! What a flush leaves behind. -/

/-- The documented effect of `flush_to_queue`, on the blocks of samples in the read
queue and in the current block. -/
structure FlushPost (vb : VariableBuffer α) (r : Outcome α) : Prop where
  empty : vb.current.valid = [] → r = ⟨vb, .ok true, [], []⟩
  done : vb.current.valid ≠ [] → r.ret = .ok true →
    (∃ handles, r.vb.queue.readQueue.content = handles ++ [some vb.currentBlock]) ∧
    r.vb.current.valid = [] ∧
    r.vb.log.queue = (if vb.bufferMode = .circularBuffer ∧ vb.log.free = 0 then vb.log.queue.tail
      else vb.log.queue) ++ [vb.current.valid]
  refused : r.ret = .ok false → r.vb.current.valid = vb.current.valid ∧
    r.vb.queue.readQueue.content = vb.queue.readQueue.content ∧ r.vb.log = vb.log ∧ r.callbacks = []

/-- The log of a variable to which samples are added, in either mode. -/
theorem exists_log (hb : 0 < b) (storage : BlockId → Memory α (rows * cols) b) (mode : Mode)
    (xs : List (Eigen.MatrixXd α)) (hx : ∀ x ∈ xs, x.size = rows * cols) :
    ∃ vb, (sequential α rows cols b).Reachable vb ∧ vb.bufferMode = mode ∧
      vb.rows = rows ∧ vb.cols = cols ∧
      vb.log = xs.foldl (fun l x => l.add b (decide (mode = .circularBuffer)) x.data)
        (.empty (NUM_BLOCKS - 1)) := by
  induction xs using List.reverseRecOn with
  | nil =>
    obtain ⟨w, hlog⟩ := whole_make [] rows cols b hb storage
    obtain ⟨-, hrows, hcols⟩ := make_dims [] rows cols b hb storage
    have hinit : (sequential α rows cols b).init (VariableBuffer.make [] rows cols b hb storage) :=
      ⟨[], hb, storage, rfl⟩
    generalize VariableBuffer.make [] rows cols b hb storage = vb at *
    exact ⟨vb.setBufferMode mode, ⟨_, _, (System.Run.start hinit).next
      ⟨.setBufferMode mode, rfl, rfl⟩⟩, rfl, hrows, hcols, hlog⟩
  | append_singleton xs x ih =>
    obtain ⟨vb, ⟨hist, tr, hr⟩, hm, hrows, hcols, hlog⟩ :=
      ih fun y hy => hx y (List.mem_append_left _ hy)
    obtain ⟨-, w⟩ := whole_of_reachable ⟨hist, tr, hr⟩
    have hsize : x.size = vb.rows * vb.cols := by
      rw [hrows, hcols]
      exact hx x (by simp)
    obtain ⟨-, -, h⟩ := addElem_spec w hb hsize
    refine ⟨_, ⟨_, _, hr.next ⟨.addElem x, rfl, rfl⟩⟩, h.same.bufferMode.trans hm,
      h.same.rows.trans hrows, h.same.cols.trans hcols, ?_⟩
    rw [List.foldl_append, List.foldl_cons, List.foldl_nil, ← hlog]
    have := h.log
    rwa [overwrites, hm] at this

/-- The effect is as documented unless a queued block is recycled. -/
theorem flush_post_iff (h : (sequential α rows cols b).Reachable vb) :
    FlushPost vb vb.flushToQueue ↔
      vb.current.valid = [] ∨ 0 < vb.log.free ∨ vb.bufferMode = .producerConsumer := by
  obtain ⟨-, w⟩ := whole_of_reachable h
  by_cases hv : vb.current.valid = []
  · refine iff_of_true ?_ (.inl hv)
    have he := flushToQueue_nil hv
    rw [he]
    exact ⟨fun _ => rfl, fun hne => absurd hv hne, fun h => by cases h⟩
  rcases Nat.eq_zero_or_pos vb.log.free with hf | hf
  · cases hm : vb.bufferMode with
    | producerConsumer =>
      refine iff_of_true ?_ (.inr (.inr rfl))
      rw [flushToQueue_refused hv hf (by simp [overwrites, hm])]
      exact ⟨fun hnil => absurd hnil hv, fun _ h => (by cases h), fun _ => ⟨rfl, rfl, rfl, rfl⟩⟩
    | circularBuffer =>
      -- the recycled block still has its samples
      obtain ⟨oldest, rest, hq, hret, -, hb⟩ :=
        flushToQueue_overwrite w hv hf (by simp [overwrites, hm])
      refine iff_of_false (fun hpost => ?_) (by simp [hv, hf])
      have hcur := (hpost.done hv hret).2.1
      have hold := congrArg BlockLog.current hb.log
      exact (w.fits.queued oldest (by simp [hq])).1 (hold.symm.trans hcur)
  · refine iff_of_true ?_ (.inr (.inl hf))
    obtain ⟨hret, hlast, hb⟩ := flushToQueue_free w hv hf
    refine ⟨fun hnil => absurd hnil hv, fun _ _ => ⟨hlast, congrArg BlockLog.current hb.log, ?_⟩,
      fun hfalse => ?_⟩
    · rw [if_neg (by omega), hb.log]
      rfl
    · rw [hret] at hfalse
      cases hfalse

/-- A sample is added to what is buffered, unless the current block is full and cannot be
flushed. -/
theorem addElem_content_iff (h : (sequential α rows cols b).Reachable vb)
    (hm : vb.bufferMode = .producerConsumer) {data : Eigen.MatrixXd α}
    (hsize : data.size = vb.rows * vb.cols) :
    ((vb.addElem data).ret = .ok true →
        (vb.addElem data).vb.log.content = vb.log.content ++ [data.data]) ∧
      ((vb.addElem data).ret = .ok false → (vb.addElem data).vb.log.content = vb.log.content) ↔
    vb.current.valid.length < vb.current.getSize ∨ 0 < vb.log.free := by
  obtain ⟨hb, w⟩ := whole_of_reachable h
  obtain ⟨hret, -, hbecomes⟩ := addElem_spec w hb hsize
  have hover : vb.overwrites = false := by simp [overwrites, hm]
  have hcur : vb.log.current = vb.current.valid := rfl
  rw [hret, hbecomes.log, hover, BlockLog.add, hcur, VariableBuffer.current, w.size, ← current, ← hcur]
  simp only [true_imp_iff, Except.ok.injEq, Bool.true_eq_false, false_imp_iff, and_true]
  split_ifs with hroom
  · refine iff_of_true ?_ (.inl hroom)
    simp only [BlockLog.content, List.append_assoc]
  · have hne : vb.log.current ≠ [] := by
      intro hnil
      rw [hnil] at hroom
      exact hroom hb
    rcases Nat.eq_zero_or_pos vb.log.free with hf | hf
    · rw [BlockLog.flush_refused hne hf]
      refine iff_of_false (fun he => ?_) (by omega)
      have hlen := congrArg List.length he
      have := List.length_pos_iff.mpr hne
      simp only [BlockLog.content, List.length_append, List.length_singleton] at hlen
      omega
    · rw [BlockLog.flush_free hne hf]
      refine iff_of_true ?_ (.inr hf)
      simp [BlockLog.content]

/-- Scalars in blocks of one. -/
def scalars (n : ℕ) : List (Eigen.MatrixXd ℕ) := (List.range n).map fun k => ⟨1, 1, [k], rfl⟩

theorem exists_scalars (mode : Mode) (n : ℕ) : ∃ vb, (sequential ℕ 1 1 1).Reachable vb ∧
    vb.bufferMode = mode ∧ vb.rows = 1 ∧ vb.cols = 1 ∧
    vb.log = (scalars n).foldl (fun l x => l.add 1 (decide (mode = .circularBuffer)) x.data)
      (.empty (NUM_BLOCKS - 1)) := by
  refine exists_log one_pos (fun _ => ⟨[[0]], rfl, by simp⟩) mode _ fun x hx => ?_
  obtain ⟨k, -, rfl⟩ := List.mem_map.mp hx
  rfl

theorem flush_post_iff_one : ∃ vb, (sequential ℕ 1 1 1).Reachable vb ∧
    (FlushPost vb vb.flushToQueue ↔
      vb.current.valid = [] ∨ 0 < vb.log.free ∨ vb.bufferMode = .producerConsumer) := by
  obtain ⟨vb, h, -⟩ := exists_scalars .circularBuffer 1
  exact ⟨vb, h, flush_post_iff h⟩

/-- After 20 scalars a flush returns true, with the oldest of them as the current block. -/
theorem recycled_not_empty : ∃ vb, (sequential ℕ 1 1 1).Reachable vb ∧
    vb.bufferMode = .circularBuffer ∧ vb.flushToQueue.ret = .ok true ∧
    vb.current.valid = [[19]] ∧ vb.flushToQueue.vb.current.valid = [[0]] := by
  obtain ⟨vb, h, hm, -, -, hlog⟩ := exists_scalars .circularBuffer 20
  obtain ⟨-, w⟩ := whole_of_reachable h
  have hfull : vb.log = ⟨(List.range 19).map fun k => [[k]], [[19]], 0⟩ := hlog
  obtain ⟨hret, hb⟩ := flushToQueue_spec w
  rw [hfull, overwrites, hm] at hret
  have hcur := congrArg BlockLog.current hb.log
  rw [hfull, overwrites, hm] at hcur
  exact ⟨vb, h, hm, hret, congrArg BlockLog.current hfull, hcur⟩

end VariableBuffer
end XBot
