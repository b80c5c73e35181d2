import MatLogger2.VarBuffer.Calls
import MatLogger2.Lib.BlockLog

/-! A variable as a log of blocks, and each of its calls as a call of the log.
Here one thread makes all calls, so every block is in the pool, in a queue or
current. -/

namespace XBot

open Spsc

variable {α : Type}

/-- The valid columns of the block of a handle. -/
def validOf (block : BlockId → BufferBlock α) (h : Ptr) : List (List α) :=
  h.elim [] fun i => (block i).valid

theorem map_validOf_update (block : BlockId → BufferBlock α) {i : BlockId} (x : BufferBlock α)
    {l : List Ptr} (h : some i ∉ l) :
    l.map (validOf (Function.update block i x)) = l.map (validOf block) := by
  apply List.map_congr_left
  intro y hy
  cases y with
  | none => rfl
  | some j =>
    have hne : j ≠ i := by
      rintro rfl
      exact h hy
    simp [validOf, Function.update_of_ne hne]

namespace VariableBuffer

def log (vb : VariableBuffer α) : BlockLog (List α) where
  queue := vb.queue.readQueue.content.map (validOf vb.block)
  current := vb.current.valid
  free := vb.queue.blockPool.length + vb.queue.writeQueue.content.length

def overwrites (vb : VariableBuffer α) : Bool := vb.bufferMode = .circularBuffer

/-- All blocks are accounted for, have the variable's shape, and are queued only
with samples in them. -/
structure Whole (b : ℕ) (vb : VariableBuffer α) : Prop where
  owned : (vb.queue.blockPool ++ vb.queue.writeQueue.content ++ vb.queue.readQueue.content ++
    [some vb.currentBlock]).Perm allBlocks
  size : ∀ i, (vb.block i).getSize = b
  column : ∀ i, ∀ col ∈ (vb.block i).buf, col.length = vb.rows * vb.cols
  filled : ∀ i, some i ∈ vb.queue.readQueue.content → (vb.block i).valid ≠ []

/-- What no call changes. -/
structure SameVariable (vb vb' : VariableBuffer α) : Prop where
  name : vb'.name = vb.name
  rows : vb'.rows = vb.rows
  cols : vb'.cols = vb.cols
  bufferMode : vb'.bufferMode = vb.bufferMode
  onBlockAvailable : vb'.onBlockAvailable = vb.onBlockAvailable

theorem SameVariable.refl (vb : VariableBuffer α) : SameVariable vb vb := ⟨rfl, rfl, rfl, rfl, rfl⟩

theorem SameVariable.symm {vb vb' : VariableBuffer α} (h : SameVariable vb vb') :
    SameVariable vb' vb :=
  ⟨h.name.symm, h.rows.symm, h.cols.symm, h.bufferMode.symm, h.onBlockAvailable.symm⟩

theorem SameVariable.trans {a b c : VariableBuffer α} (h : SameVariable a b)
    (h' : SameVariable b c) : SameVariable a c :=
  ⟨h'.name.trans h.name, h'.rows.trans h.rows, h'.cols.trans h.cols,
    h'.bufferMode.trans h.bufferMode, h'.onBlockAvailable.trans h.onBlockAvailable⟩

namespace Whole

variable {b : ℕ} {vb : VariableBuffer α}

theorem nodup (w : Whole b vb) : (vb.queue.blockPool ++ vb.queue.writeQueue.content ++
    vb.queue.readQueue.content ++ [some vb.currentBlock]).Nodup :=
  w.owned.nodup_iff.mpr nodup_allBlocks

theorem not_null (w : Whole b vb) {x : Ptr} (hx : x ∈ vb.queue.blockPool ++
    vb.queue.writeQueue.content ++ vb.queue.readQueue.content) : ∃ i, x = some i := by
  have hx : x ∈ allBlocks := w.owned.mem_iff.mp (List.mem_append_left _ hx)
  exact Option.ne_none_iff_exists'.mp (mem_allBlocks.mp hx)

theorem blocks (w : Whole b vb) : vb.log.queue.length + 1 + vb.log.free = NUM_BLOCKS := by
  have := w.owned.length_eq
  simp only [List.length_append, List.length_cons, List.length_nil, length_allBlocks] at this
  simp only [log, List.length_map]
  omega

theorem fits (w : Whole b vb) : vb.log.Fits NUM_BLOCKS b := by
  refine ⟨w.blocks, fun blk hb => ?_, ?_⟩
  · obtain ⟨x, hx, rfl⟩ := List.mem_map.mp hb
    obtain ⟨i, rfl⟩ := w.not_null (List.mem_append_right _ hx)
    have := (vb.block i).length_valid_le
    rw [w.size i] at this
    exact ⟨w.filled i hx, this⟩
  · have := vb.current.length_valid_le
    rwa [current, w.size] at this

theorem current_notMem (w : Whole b vb) : some vb.currentBlock ∉ vb.queue.readQueue.content := by
  have := (List.nodup_append.mp w.nodup).2.2
  intro h
  exact this _ (List.mem_append_right _ h) _ (List.mem_singleton.mpr rfl) rfl

/-- All samples in the log have the variable's shape. -/
theorem length_of_mem (w : Whole b vb) {x : List α} (hx : x ∈ vb.log.content) :
    x.length = vb.rows * vb.cols := by
  have hvalid : ∀ i, x ∈ (vb.block i).valid → x.length = vb.rows * vb.cols := fun i h =>
    w.column i x (List.mem_of_mem_take h)
  rcases List.mem_append.mp hx with hx | hx
  · obtain ⟨blk, hblk, hx⟩ := List.mem_flatten.mp hx
    obtain ⟨y, hy, rfl⟩ := List.mem_map.mp hblk
    obtain ⟨i, rfl⟩ := w.not_null (List.mem_append_right _ hy)
    exact hvalid i hx
  · exact hvalid _ hx

/-- The current block may be replaced by one of the same shape. -/
theorem setCurrent (w : Whole b vb) {x : BufferBlock α} (hx : x.getSize = b)
    (hcol : ∀ col ∈ x.buf, col.length = vb.rows * vb.cols) :
    Whole b (vb.setCurrent x) ∧ (vb.setCurrent x).log = { vb.log with current := x.valid } ∧
      SameVariable vb (vb.setCurrent x) := by
  have hne : ∀ i, some i ∈ vb.queue.readQueue.content → i ≠ vb.currentBlock := by
    rintro i hi rfl
    exact w.current_notMem hi
  have hcol := forall_setBlock (P := fun y => ∀ col ∈ y.buf, col.length = vb.rows * vb.cols)
    w.column vb.currentBlock x hcol
  have hsize := forall_setBlock (P := fun y => y.getSize = b) w.size vb.currentBlock x hx
  refine ⟨⟨w.owned, hsize, hcol, fun i hi => ?_⟩, ?_,
    ⟨rfl, rfl, rfl, rfl, rfl⟩⟩
  · simpa [VariableBuffer.setCurrent, setBlock, Function.update_of_ne (hne i hi)] using w.filled i hi
  · have hmap := map_validOf_update vb.block x w.current_notMem
    have hcur := vb.current_setCurrent x
    simp only [log, hcur]
    simp only [VariableBuffer.setCurrent, setBlock, hmap]

end Whole

theorem whole_make (name : StdString) (rows cols blockSize : ℕ) (hb : 0 < blockSize)
    (storage : BlockId → Memory α (rows * cols) blockSize) :
    Whole blockSize (make name rows cols blockSize hb storage) ∧
      (make name rows cols blockSize hb storage).log = .empty (NUM_BLOCKS - 1) := by
  obtain ⟨hrq, hwq, hpool⟩ := make_queue name rows cols blockSize hb storage
  have hblock := make_block name rows cols blockSize hb storage
  have hcol := make_column name rows cols blockSize hb storage
  have hdims := (make_dims name rows cols blockSize hb storage).2
  generalize make name rows cols blockSize hb storage = vb at *
  have hlen := congrArg List.length hpool
  rw [List.length_append, length_allBlocks] at hlen
  refine ⟨⟨?_, fun i => (hblock i).1, fun i => by rw [hdims.1, hdims.2]; exact hcol i, ?_⟩, ?_⟩
  · rw [hrq, hwq, List.append_nil, List.append_nil]
    exact .of_eq hpool
  · rw [hrq]
    simp
  · simp only [log, hrq, hwq, current, (hblock _).2, BlockLog.empty, List.map_nil, List.length_nil,
      BlockLog.mk.injEq, true_and]
    simpa using Nat.eq_sub_of_add_eq hlen

end VariableBuffer
end XBot
