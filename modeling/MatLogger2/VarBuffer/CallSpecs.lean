import MatLogger2.VarBuffer.Contents

/-! What each call of a variable does, said on its log. -/

namespace XBot
namespace VariableBuffer

open Spsc

variable {α : Type} {b : ℕ} {vb : VariableBuffer α}

/-- A call ends in a state whose log is given, and keeps the rest. -/
structure Becomes (b : ℕ) (vb vb' : VariableBuffer α) (l : BlockLog (List α)) : Prop where
  whole : Whole b vb'
  log : vb'.log = l
  same : SameVariable vb vb'

theorem pushCurrent_eq (vb : VariableBuffer α) (newBlock : BlockId) (info : BufferInfo)
    (hroom : vb.queue.readQueue.content.length < NUM_BLOCKS) :
    ∃ rq, rq.content = vb.queue.readQueue.content ++ [some vb.currentBlock] ∧
      vb.pushCurrent newBlock info =
        ⟨{ vb with queue := { vb.queue with readQueue := rq }, currentBlock := newBlock }, .ok true,
          if vb.onBlockAvailable then [info] else [], []⟩ := by
  obtain ⟨hok, hc⟩ := Boost.push_room (Nat.add_lt_add_right hroom 1) (some vb.currentBlock)
  exact ⟨_, hc, by simp only [pushCurrent, hok, if_true]⟩

theorem Whole.readQueue_lt (w : Whole b vb) : vb.queue.readQueue.content.length < NUM_BLOCKS := by
  have := w.blocks
  simp only [VariableBuffer.log, List.length_map] at this
  omega

theorem flushToQueue_nil (h : vb.current.valid = []) :
    vb.flushToQueue = ⟨vb, .ok true, [], []⟩ := by
  rw [BufferBlock.valid_eq_nil] at h
  simp [flushToQueue, h]

section NewBlock

/-- A block from the pool or the write queue takes the place of the current one. -/
theorem flushToQueue_free (w : Whole b vb) (hv : vb.current.valid ≠ []) (hf : 0 < vb.log.free) :
    vb.flushToQueue.ret = .ok true ∧
      (∃ handles, vb.flushToQueue.vb.queue.readQueue.content = handles ++ [some vb.currentBlock]) ∧
      Becomes b vb vb.flushToQueue.vb
        ⟨vb.log.queue ++ [vb.log.current], [], vb.log.free - 1⟩ := by
  have hne : vb.queue.blockPool ++ vb.queue.writeQueue.content ≠ [] := by
    rw [← List.length_pos_iff, List.length_append]
    exact hf
  obtain ⟨pool, x, hpx⟩ := (List.eq_nil_or_concat _).resolve_left hne
  obtain ⟨i, rfl⟩ := w.not_null (x := x) (by simp [hpx])
  obtain ⟨wq, hwq, hnew⟩ := getNewBlock_some vb (by simpa using hpx)
  have hvalid : ¬ vb.current.getValidElements = 0 := by rwa [← BufferBlock.valid_eq_nil]
  have hpx : vb.queue.blockPool ++ vb.queue.writeQueue.content = pool ++ [some i] := by
    simpa using hpx
  -- the new block is neither queued nor current
  have hnodup := w.nodup
  rw [hpx, List.append_assoc (pool ++ [some i])] at hnodup
  have hdisj := (List.nodup_append.mp hnodup).2.2 (some i) (by simp)
  have hrq : some i ∉ vb.queue.readQueue.content := fun h => hdisj _ (by simp [h]) rfl
  have hcur : vb.currentBlock ≠ i := fun h => hdisj (some vb.currentBlock) (by simp) (by rw [h])
  obtain ⟨rq, hrq', hpush⟩ := pushCurrent_eq { vb.setBlock i (vb.block i).reset with
    queue := { vb.queue with writeQueue := wq, blockPool := pool } } i vb.bufferInfo w.readQueue_lt
  have he : vb.flushToQueue =
      ⟨{ vb.setBlock i (vb.block i).reset with
        queue := { blockPool := pool, readQueue := rq, writeQueue := wq }, currentBlock := i },
        .ok true, if vb.onBlockAvailable then [vb.bufferInfo] else [], []⟩ := by
    rw [flushToQueue, if_neg hvalid]
    simp only [hnew]
    exact hpush
  have hsize := forall_setBlock (P := fun y => y.getSize = b) w.size i
    (vb.block i).reset (w.size i)
  have hcol := forall_setBlock (P := fun y => ∀ col ∈ y.buf, col.length = vb.rows * vb.cols)
    w.column i (vb.block i).reset (w.column i)
  have hupd : ∀ j, j ≠ i → (Function.update vb.block i (vb.block i).reset) j = vb.block j :=
    fun j hj => Function.update_of_ne hj _ _
  rw [he]
  refine ⟨rfl, ⟨_, hrq'⟩, ⟨?_, hsize, hcol, fun j hj => ?_⟩, ?_, ⟨rfl, rfl, rfl, rfl, rfl⟩⟩
  · refine (List.perm_iff_count.mpr fun y => ?_).trans w.owned
    rw [hpx]
    simp only [hwq, hrq', setBlock, List.count_append, List.count_nil]
    omega
  · have hj : some j ∈ vb.queue.readQueue.content ++ [some vb.currentBlock] := hrq' ▸ hj
    have hne : j ≠ i := by
      intro he
      rcases List.mem_append.mp hj with h | h
      · exact hrq (he ▸ h)
      · exact hcur ((Option.some_injective _ (List.mem_singleton.mp h)).symm.trans he)
    simp only [setBlock, hupd j hne]
    rcases List.mem_append.mp hj with h | h
    · exact w.filled j h
    · rw [Option.some_injective _ (List.mem_singleton.mp h)]
      exact hv
  · have hmap := map_validOf_update vb.block (vb.block i).reset hrq
    have hlen := congrArg List.length hpx
    simp only [List.length_append, List.length_cons, List.length_nil] at hlen
    simp only [VariableBuffer.log, hrq', hwq, setBlock, current, List.map_append, hmap, List.map_cons,
      List.map_nil, validOf, Option.elim_some, hupd _ hcur, Function.update_self, BufferBlock.valid_reset,
      List.length_nil, BlockLog.mk.injEq, true_and]
    omega

theorem flushToQueue_refused (hv : vb.current.valid ≠ []) (hf : vb.log.free = 0)
    (hm : vb.overwrites = false) : vb.flushToQueue = ⟨vb, .ok false, [], []⟩ := by
  have hvalid : ¬ vb.current.getValidElements = 0 := by rwa [← BufferBlock.valid_eq_nil]
  simp only [VariableBuffer.log, Nat.add_eq_zero_iff, List.length_eq_zero_iff] at hf
  have hmode : vb.bufferMode = .producerConsumer := by
    cases h : vb.bufferMode with
    | producerConsumer => rfl
    | circularBuffer => simp [overwrites, h] at hm
  rw [flushToQueue, if_neg hvalid]
  simp only [getNewBlock_none hf.1 hf.2, hmode]

/-- The oldest queued block takes the place of the current one, as it is. -/
theorem flushToQueue_overwrite (w : Whole b vb) (hv : vb.current.valid ≠ [])
    (hf : vb.log.free = 0) (hm : vb.overwrites = true) :
    ∃ oldest rest, vb.log.queue = oldest :: rest ∧ vb.flushToQueue.ret = .ok true ∧
      (∃ handles, vb.flushToQueue.vb.queue.readQueue.content = handles ++ [some vb.currentBlock]) ∧
      Becomes b vb vb.flushToQueue.vb ⟨rest ++ [vb.log.current], oldest, 0⟩ := by
  have hvalid : ¬ vb.current.getValidElements = 0 := by rwa [← BufferBlock.valid_eq_nil]
  have hmode : vb.bufferMode = .circularBuffer := by simpa [overwrites] using hm
  have hblocks := w.blocks
  have hlog : vb.log.queue = vb.queue.readQueue.content.map (validOf vb.block) := rfl
  have hnil : vb.queue.blockPool = [] ∧ vb.queue.writeQueue.content = [] := by
    simpa only [VariableBuffer.log, Nat.add_eq_zero_iff, List.length_eq_zero_iff] using hf
  have hq : vb.queue.readQueue.content ≠ [] := by
    rintro h
    simp only [hf, hlog, h, List.map_nil, List.length_nil] at hblocks
    exact absurd hblocks (by decide)
  obtain ⟨x, rest, hx⟩ := List.exists_cons_of_ne_nil hq
  obtain ⟨i, rfl⟩ := w.not_null (x := x) (by simp [hx])
  obtain ⟨hpop, hc⟩ := Boost.consumeOne_cons hx
  have hroom := w.readQueue_lt
  rw [hx, List.length_cons] at hroom
  obtain ⟨rq, hrq', hpush⟩ := pushCurrent_eq { vb with queue := { vb.queue with
    readQueue := (Boost.consumeOne vb.queue.readQueue).1 } } i vb.bufferInfo
    (by simp only [hc]; omega)
  simp only [hc] at hrq'
  have he : vb.flushToQueue =
      ⟨{ vb with queue := { vb.queue with readQueue := rq }, currentBlock := i }, .ok true,
        if vb.onBlockAvailable then [vb.bufferInfo] else [], []⟩ := by
    rw [flushToQueue, if_neg hvalid]
    simp only [getNewBlock_none hnil.1 hnil.2]
    split
    · simp only [hpop, Option.join_some]
      exact hpush
    · rename_i h
      simp [hmode] at h
  refine ⟨(vb.block i).valid, rest.map (validOf vb.block), by rw [hlog, hx]; rfl, ?_⟩
  rw [he]
  refine ⟨rfl, ⟨_, hrq'⟩, ⟨?_, w.size, w.column, fun j hj => ?_⟩, ?_, ⟨rfl, rfl, rfl, rfl, rfl⟩⟩
  · refine (List.perm_iff_count.mpr fun y => ?_).trans w.owned
    simp only [hrq', hx, List.count_append, List.count_cons, List.count_nil]
    omega
  · have hj : some j ∈ rest ++ [some vb.currentBlock] := hrq' ▸ hj
    rcases List.mem_append.mp hj with h | h
    · exact w.filled j (by simp [hx, h])
    · rw [Option.some_injective _ (List.mem_singleton.mp h)]
      exact hv
  · simp only [VariableBuffer.log, hrq', current, List.map_append, List.map_cons, List.map_nil, validOf,
      Option.elim_some, BlockLog.mk.injEq, true_and]
    simp [hnil.1, hnil.2]

end NewBlock

/-- `flush_to_queue` is the flush of the log, and never throws. -/
theorem flushToQueue_spec (w : Whole b vb) :
    vb.flushToQueue.ret = .ok (vb.log.flush vb.overwrites).2 ∧
      Becomes b vb vb.flushToQueue.vb (vb.log.flush vb.overwrites).1 := by
  by_cases hv : vb.current.valid = []
  · rw [flushToQueue_nil hv, BlockLog.flush_nil hv]
    exact ⟨rfl, w, rfl, .refl vb⟩
  rcases Nat.eq_zero_or_pos vb.log.free with hf | hf
  · cases hm : vb.overwrites with
    | false =>
      rw [flushToQueue_refused hv hf hm, BlockLog.flush_refused hv hf]
      exact ⟨rfl, w, rfl, .refl vb⟩
    | true =>
      obtain ⟨oldest, rest, hq, hret, -, h⟩ := flushToQueue_overwrite w hv hf hm
      rw [BlockLog.flush_overwrite hv hf hq]
      exact ⟨hret, h⟩
  · rw [BlockLog.flush_free hv hf]
    obtain ⟨hret, -, h⟩ := flushToQueue_free w hv hf
    exact ⟨hret, h⟩

theorem addElem_refused {data : Eigen.MatrixXd α} (h : data.size ≠ vb.rows * vb.cols) :
    vb.addElem data = ⟨vb, .ok false, [], []⟩ := by
  rw [addElem, if_pos h]

/-- A sample of the right size goes into the current block when there is room. -/
theorem addElem_room (w : Whole b vb) {data : Eigen.MatrixXd α}
    (h : data.size = vb.rows * vb.cols) (hroom : vb.log.current.length < b) :
    (vb.addElem data).ret = .ok true ∧ (vb.addElem data).discarded = [] ∧
      Becomes b vb (vb.addElem data).vb
        { vb.log with current := vb.log.current ++ [data.data] } := by
  have hlt : vb.current.valid.length < vb.current.getSize := by
    rw [current, w.size]
    exact hroom
  obtain ⟨x, hx, hvalid, hsize, -⟩ := BufferBlock.add_room hlt data
  have hcol := BufferBlock.column_add hx (w.column _) h
  have he : vb.addElem data = ⟨vb.setCurrent x, .ok true, [], []⟩ := by
    rw [addElem, if_neg (not_not.mpr h)]
    split
    · rename_i y hy
      rw [hx, Option.some.injEq] at hy
      rw [hy]
    · rename_i hy
      simp [hx] at hy
  obtain ⟨w', hlog, hsame⟩ := w.setCurrent (hsize.trans (w.size _)) hcol
  rw [he]
  exact ⟨rfl, rfl, w', by rw [hlog, hvalid]; rfl, hsame⟩

/-- A sample that finds the current block full is the first of the next one. -/
theorem addElem_full (w : Whole b vb) (hb : 0 < b) {data : Eigen.MatrixXd α}
    (h : data.size = vb.rows * vb.cols) (hfull : vb.log.current.length = b) :
    (vb.addElem data).ret = .ok true ∧
      (vb.addElem data).discarded = (vb.log.flush vb.overwrites).1.current ∧
      Becomes b vb (vb.addElem data).vb
        { (vb.log.flush vb.overwrites).1 with current := [data.data] } := by
  have hnone : vb.current.add data = none := by
    refine BufferBlock.add_full ?_ data
    rw [current, w.size]
    exact hfull
  obtain ⟨hret, wf, hflog, hfsame⟩ := flushToQueue_spec w
  have he : vb.addElem data =
      let again := (vb.flushToQueue.vb.setCurrent vb.flushToQueue.vb.current.reset).addElem data
      { again with
        callbacks := vb.flushToQueue.callbacks ++ again.callbacks
        discarded := vb.flushToQueue.vb.current.valid } := by
    rw [addElem, if_neg (not_not.mpr h)]
    split
    · rename_i y hy
      simp [hnone] at hy
    · simp only [hret]
  obtain ⟨wr, hrlog, hrsame⟩ := wf.setCurrent (x := vb.flushToQueue.vb.current.reset) (wf.size _)
    (wf.column _)
  have hsame := hfsame.trans hrsame
  have hlog : (vb.flushToQueue.vb.setCurrent vb.flushToQueue.vb.current.reset).log =
      { (vb.log.flush vb.overwrites).1 with current := [] } := by
    rw [hrlog, hflog]
    rfl
  have hagain := h
  rw [← hsame.rows, ← hsame.cols] at hagain
  obtain ⟨haret, -, wa, halog, hasame⟩ := addElem_room wr hagain (by rw [hlog]; exact hb)
  rw [he]
  exact ⟨haret, congrArg BlockLog.current hflog, wa, by rw [halog, hlog]; rfl, hsame.trans hasame⟩

/-- `add_elem` adds a sample of the right size to the log, and never throws. -/
theorem addElem_spec (w : Whole b vb) (hb : 0 < b) {data : Eigen.MatrixXd α}
    (h : data.size = vb.rows * vb.cols) :
    (vb.addElem data).ret = .ok true ∧
      (vb.addElem data).discarded = vb.log.lost b vb.overwrites ∧
      Becomes b vb (vb.addElem data).vb (vb.log.add b vb.overwrites data.data) := by
  unfold BlockLog.add BlockLog.lost
  split_ifs with hroom
  · exact addElem_room w h hroom
  · exact addElem_full w hb h (le_antisymm w.fits.current (not_lt.mp hroom))

theorem readBlock_circular (hm : vb.overwrites = true) : vb.readBlock =
    (vb, .error "cannot call read_block() when in circular_buffer mode!") := by
  have hmode : vb.bufferMode = .circularBuffer := by simpa [overwrites] using hm
  simp only [readBlock, hmode]

theorem readBlock_nil (hm : vb.overwrites = false) (h : vb.log.queue = []) :
    vb.readBlock = (vb, .ok ⟨none, 0⟩) := by
  have hmode : vb.bufferMode = .producerConsumer := by
    cases h : vb.bufferMode with
    | producerConsumer => rfl
    | circularBuffer => simp [overwrites, h] at hm
  have hnil : vb.queue.readQueue.content = [] := List.map_eq_nil_iff.mp h
  unfold readBlock
  split
  · rename_i h
    simp [hmode] at h
  · simp only [Boost.consumeOne_nil hnil, Option.join_none]

/-- `read_block` takes the oldest block of the log, with columns of the variable's
shape, and its memory joins the free blocks. -/
theorem readBlock_cons (w : Whole b vb) (hm : vb.overwrites = false)
    {oldest : List (List α)} {rest : List (List (List α))} (h : vb.log.queue = oldest :: rest) :
    ∃ data, vb.readBlock.2 = .ok ⟨some data, oldest.length⟩ ∧ data.take oldest.length = oldest ∧
      (∀ col ∈ data, col.length = vb.rows * vb.cols) ∧
      Becomes b vb vb.readBlock.1 ⟨rest, vb.log.current, vb.log.free + 1⟩ := by
  have hmode : vb.bufferMode = .producerConsumer := by
    cases h : vb.bufferMode with
    | producerConsumer => rfl
    | circularBuffer => simp [overwrites, h] at hm
  obtain ⟨x, t, hx, hold, hrest⟩ := List.map_eq_cons_iff.mp h
  obtain ⟨i, rfl⟩ := w.not_null (x := x) (by simp [hx])
  obtain ⟨hpop, hc⟩ := Boost.consumeOne_cons hx
  have hold : (vb.block i).valid = oldest := hold
  have hnodup := w.nodup
  rw [hx, List.append_assoc (vb.queue.blockPool ++ vb.queue.writeQueue.content)] at hnodup
  have hcons := (List.nodup_append.mp hnodup).2.1
  have hit : some i ∉ t ++ [some vb.currentBlock] := (List.nodup_cons.mp hcons).1
  have hcur : vb.currentBlock ≠ i := fun h => hit (by simp [h])
  have hroom : vb.queue.writeQueue.content.length + 1 < NUM_BLOCKS + 1 := by
    have := w.blocks
    simp only [VariableBuffer.log, hx, List.map_cons, List.length_cons] at this
    omega
  obtain ⟨-, hwq⟩ := Boost.push_room hroom (some i)
  have hsize := forall_setBlock (P := fun y => y.getSize = b) w.size i
    (vb.block i).reset (w.size i)
  have hcol := forall_setBlock (P := fun y => ∀ col ∈ y.buf, col.length = vb.rows * vb.cols)
    w.column i (vb.block i).reset (w.column i)
  have hupd : ∀ j, j ≠ i → (Function.update vb.block i (vb.block i).reset) j = vb.block j :=
    fun j hj => Function.update_of_ne hj _ _
  have he : vb.readBlock =
      ({ vb.setBlock i (vb.block i).reset with
        queue := { vb.queue with
          readQueue := (Boost.consumeOne vb.queue.readQueue).1
          writeQueue := (Boost.push vb.queue.writeQueue (some i)).1 } },
        .ok ⟨some (vb.block i).buf, (vb.block i).writeIdx⟩) := by
    unfold readBlock
    split
    · rename_i h
      simp [hmode] at h
    · simp only [hpop, Option.join_some]
      rfl
  have hlen : oldest.length = (vb.block i).writeIdx := by rw [← hold, BufferBlock.length_valid]
  refine ⟨(vb.block i).buf, by rw [he, hlen], by rw [hlen]; exact hold, w.column i, ?_⟩
  rw [he]
  refine ⟨⟨?_, hsize, hcol, fun j hj => ?_⟩, ?_, ⟨rfl, rfl, rfl, rfl, rfl⟩⟩
  · refine (List.perm_iff_count.mpr fun y => ?_).trans w.owned
    rw [hx]
    simp only [hwq, hc, setBlock, List.count_append, List.count_cons, List.count_nil]
    omega
  · have hj : some j ∈ t := hc ▸ hj
    have hne : j ≠ i := by
      intro h
      exact hit (List.mem_append_left _ (h ▸ hj))
    simp only [setBlock, hupd j hne]
    exact w.filled j (by simp [hx, hj])
  · have hmap := map_validOf_update vb.block (vb.block i).reset (fun h => hit (by simp [h]) :
      some i ∉ t)
    simp only [VariableBuffer.log, hc, hwq, setBlock, current, hmap, hrest, hupd _ hcur,
      List.length_append, List.length_cons, List.length_nil, BlockLog.mk.injEq, true_and]
    omega

end VariableBuffer
end XBot
