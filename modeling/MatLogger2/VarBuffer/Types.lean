import MatLogger2.Boost.SpscQueue
import MatLogger2.Eigen

/-! The memory of one logged variable: its blocks, the pool, the two queues
between producer and consumer, and the current block. Blocks are shared by
handle; `block` is what the handles point to. -/

namespace XBot

open Spsc

def NUM_BLOCKS : ℕ := 20

instance : NeZero NUM_BLOCKS := ⟨by decide⟩

/-- One of the blocks that `QueueImpl` allocates. -/
abbrev BlockId := Fin NUM_BLOCKS

/-- A `BufferBlock::Ptr`, which may be null. -/
abbrev Ptr := Option BlockId

/-- The queues have room for `NUM_BLOCKS` handles in `NUM_BLOCKS + 1` cells. -/
abbrev LockfreeQueue := Ring Ptr (NUM_BLOCKS + 1)

abbrev Index := Fin (NUM_BLOCKS + 1)

/-- A block of memory for some samples, one in each column of `buf`. -/
structure BufferBlock (α : Type) where
  dim : ℕ
  buf : List (List α)
  writeIdx : ℕ
  writeIdx_le : writeIdx ≤ buf.length
  size_pos : 0 < buf.length

namespace BufferBlock

variable {α : Type}

def getSize (b : BufferBlock α) : ℕ := b.buf.length

def getSizeBytes (b : BufferBlock α) : ℤ := toInt (b.dim * b.buf.length * 8 : ℕ)

def getData (b : BufferBlock α) : List (List α) := b.buf

def getValidElements (b : BufferBlock α) : ℕ := b.writeIdx

def reset (b : BufferBlock α) : BufferBlock α := { b with writeIdx := 0, writeIdx_le := Nat.zero_le _ }

/-- Add one sample, unless the block is full. The sample fills the column at the
write index: the caller has compared its size with the block's. -/
def add (b : BufferBlock α) (data : Eigen.MatrixXd α) : Option (BufferBlock α) :=
  if h : b.writeIdx = b.getSize then none
  else some
    { b with
      buf := b.buf.set b.writeIdx data.data
      writeIdx := b.writeIdx + 1
      writeIdx_le := by
        have := b.writeIdx_le
        simp only [getSize] at h
        simp only [List.length_set]
        omega
      size_pos := by simpa using b.size_pos }

/-- The samples written since the last reset. -/
def valid (b : BufferBlock α) : List (List α) := b.buf.take b.writeIdx

@[simp] theorem getSize_reset (b : BufferBlock α) : b.reset.getSize = b.getSize := rfl
@[simp] theorem buf_reset (b : BufferBlock α) : b.reset.buf = b.buf := rfl
@[simp] theorem valid_reset (b : BufferBlock α) : b.reset.valid = [] := rfl
@[simp] theorem dim_reset (b : BufferBlock α) : b.reset.dim = b.dim := rfl

theorem getSize_pos (b : BufferBlock α) : 0 < b.getSize := b.size_pos

@[simp] theorem length_valid (b : BufferBlock α) : b.valid.length = b.writeIdx := by
  have := b.writeIdx_le
  simp [valid, this]

theorem valid_eq_nil (b : BufferBlock α) : b.valid = [] ↔ b.getValidElements = 0 := by
  rw [← List.length_eq_zero_iff, length_valid]
  rfl

theorem length_valid_le (b : BufferBlock α) : b.valid.length ≤ b.getSize := by
  rw [length_valid]
  exact b.writeIdx_le

theorem add_full {b : BufferBlock α} (h : b.valid.length = b.getSize) (data : Eigen.MatrixXd α) :
    b.add data = none := by
  rw [length_valid] at h
  simp [add, h]

theorem add_room {b : BufferBlock α} (h : b.valid.length < b.getSize) (data : Eigen.MatrixXd α) :
    ∃ b', b.add data = some b' ∧ b'.valid = b.valid ++ [data.data] ∧
      b'.getSize = b.getSize ∧ b'.dim = b.dim := by
  rw [length_valid] at h
  have hne : b.writeIdx ≠ b.getSize := h.ne
  have hlt : b.writeIdx < b.buf.length := h
  refine ⟨_, dif_neg hne, ?_, by simp [getSize], rfl⟩
  simp only [valid]
  rw [List.take_add_one, List.take_set_of_le (le_refl _), List.getElem?_set_self hlt]
  rfl

theorem valid_length_of_add_none {b : BufferBlock α} {data : Eigen.MatrixXd α}
    (h : b.add data = none) : b.valid.length = b.getSize := by
  by_contra hne
  obtain ⟨b', hb', -⟩ := add_room (lt_of_le_of_ne b.length_valid_le hne) data
  simp [hb'] at h

theorem add_eq_some {b b' : BufferBlock α} {data : Eigen.MatrixXd α} (h : b.add data = some b') :
    b'.valid = b.valid ++ [data.data] ∧ b'.getSize = b.getSize ∧ b'.dim = b.dim := by
  rcases b.length_valid_le.lt_or_eq with hlt | heq
  · obtain ⟨b'', hb', hspec⟩ := add_room hlt data
    rw [hb', Option.some.injEq] at h
    exact h ▸ hspec
  · simp [add_full heq] at h

/-- A sample of the right size keeps the columns of one length. -/
theorem column_add {b b' : BufferBlock α} {data : Eigen.MatrixXd α} (h : b.add data = some b')
    {n : ℕ} (hb : ∀ col ∈ b.buf, col.length = n) (hd : data.size = n) :
    ∀ col ∈ b'.buf, col.length = n := by
  unfold add at h
  split_ifs at h
  cases h
  intro col hcol
  rcases List.mem_or_eq_of_mem_set hcol with hcol | rfl
  · exact hb col hcol
  · exact data.length_data.trans hd

end BufferBlock

inductive Mode
  | producerConsumer
  | circularBuffer
  deriving DecidableEq

/-- What `on_block_available` is told. `writeAvailable` is the room in the read
queue; the free space reported is its share of the number of blocks. -/
structure BufferInfo where
  variableName : StdString
  newAvailableBytes : ℤ
  writeAvailable : ℕ

def BufferInfo.variableFreeSpace (info : BufferInfo) : ℚ := info.writeAvailable / NUM_BLOCKS

structure QueueImpl where
  blockPool : List Ptr
  readQueue : LockfreeQueue
  writeQueue : LockfreeQueue

/-- Both queues are filled with null handles and emptied again, so their
indices start at `NUM_BLOCKS`. -/
@[irreducible] def QueueImpl.init : QueueImpl where
  blockPool := (List.finRange NUM_BLOCKS).map some
  readQueue := Boost.reset ⟨0, 0, fun _ => none⟩ none
  writeQueue := Boost.reset ⟨0, 0, fun _ => none⟩ none

/-- The handles of all blocks. -/
def allBlocks : List Ptr := (List.finRange NUM_BLOCKS).map some

theorem mem_allBlocks {x : Ptr} : x ∈ allBlocks ↔ x ≠ none := by
  cases x <;> simp [allBlocks]

theorem nodup_allBlocks : allBlocks.Nodup :=
  (List.nodup_finRange _).map (Option.some_injective _)

@[simp] theorem length_allBlocks : allBlocks.length = NUM_BLOCKS := by simp [allBlocks]

theorem allBlocks_eq_concat : ∃ pool b, allBlocks = pool ++ [some b] := by
  rcases allBlocks.eq_nil_or_concat with h | ⟨pool, x, h⟩
  · exact absurd (congrArg List.length h) (by rw [length_allBlocks]; decide)
  · cases x with
    | none => exact absurd (h ▸ (by simp) : none ∈ allBlocks) (fun hm => mem_allBlocks.mp hm rfl)
    | some b => exact ⟨pool, b, by simpa using h⟩

theorem QueueImpl.init_spec : QueueImpl.init.blockPool = allBlocks ∧
    QueueImpl.init.readQueue.content = [] ∧ QueueImpl.init.writeQueue.content = [] := by
  simp only [QueueImpl.init, Boost.content_reset, allBlocks, and_self]

structure VariableBuffer (α : Type) where
  name : StdString
  rows : ℕ
  cols : ℕ
  bufferMode : Mode
  block : BlockId → BufferBlock α
  queue : QueueImpl
  currentBlock : BlockId
  onBlockAvailable : Bool

/-- What an allocated block of `n` columns holds before anything is written. -/
abbrev Memory (α : Type) (dim n : ℕ) : Type :=
  { buf : List (List α) // buf.length = n ∧ ∀ col ∈ buf, col.length = dim }

namespace VariableBuffer

variable {α : Type}

def setBlock (vb : VariableBuffer α) (i : BlockId) (b : BufferBlock α) : VariableBuffer α :=
  { vb with block := Function.update vb.block i b }

def current (vb : VariableBuffer α) : BufferBlock α := vb.block vb.currentBlock

def setCurrent (vb : VariableBuffer α) (b : BufferBlock α) : VariableBuffer α :=
  vb.setBlock vb.currentBlock b

@[simp] theorem current_setCurrent (vb : VariableBuffer α) (b : BufferBlock α) :
    (vb.setCurrent b).current = b := by
  simp [setCurrent, setBlock, current]

/-- What holds of all blocks still does when one is replaced. -/
theorem forall_setBlock {vb : VariableBuffer α} {P : BufferBlock α → Prop}
    (h : ∀ j, P (vb.block j)) (i : BlockId) (x : BufferBlock α) (hx : P x) (j : BlockId) :
    P ((vb.setBlock i x).block j) :=
  (Function.forall_update_iff _ fun _ y => P y).mpr ⟨hx, fun k _ => h k⟩ j

theorem setBlock_of_ne (vb : VariableBuffer α) {i j : BlockId} (h : j ≠ i) (x : BufferBlock α) :
    (vb.setBlock i x).block j = vb.block j := Function.update_of_ne h _ _

def setBufferMode (vb : VariableBuffer α) (mode : Mode) : VariableBuffer α :=
  { vb with bufferMode := mode }

def setOnBlockAvailable (vb : VariableBuffer α) (callback : Bool) : VariableBuffer α :=
  { vb with onBlockAvailable := callback }

/-- Empty the write queue into the pool, then take the block at its back. A null
handle in the pool would be dereferenced by the reset; the pool has none. -/
def getNewBlock (vb : VariableBuffer α) : VariableBuffer α × Ptr :=
  let (writeQueue, blocks) := Boost.consumeAll vb.queue.writeQueue
  let pool := vb.queue.blockPool ++ blocks
  match pool.getLast?.join with
  | none => ({ vb with queue := { vb.queue with writeQueue, blockPool := pool } }, none)
  | some ret =>
    let vb := vb.setBlock ret (vb.block ret).reset
    ({ vb with queue := { vb.queue with writeQueue, blockPool := pool.dropLast } }, some ret)

theorem getNewBlock_none {vb : VariableBuffer α} (hp : vb.queue.blockPool = [])
    (hw : vb.queue.writeQueue.content = []) : vb.getNewBlock = (vb, none) := by
  have hall : Boost.consumeAll vb.queue.writeQueue = (vb.queue.writeQueue, []) := by
    have hlen := vb.queue.writeQueue.length_content
    rw [hw, List.length_nil] at hlen
    simp [Boost.consumeAll, Boost.readAvailable_eq, ← hlen]
  obtain ⟨name, rows, cols, mode, block, ⟨pool, rq, wq⟩, current, callback⟩ := vb
  simp only at hp hall
  simp [getNewBlock, hall, hp]

theorem getNewBlock_some (vb : VariableBuffer α) {pool : List Ptr} {b : BlockId}
    (h : vb.queue.blockPool ++ vb.queue.writeQueue.content = pool ++ [some b]) :
    ∃ writeQueue, writeQueue.content = [] ∧
      vb.getNewBlock = ({ vb.setBlock b (vb.block b).reset with
        queue := { vb.queue with writeQueue, blockPool := pool } }, some b) := by
  obtain ⟨hall, hnil⟩ := Boost.consumeAll_eq vb.queue.writeQueue
  refine ⟨_, hnil, ?_⟩
  simp [getNewBlock, hall, h, setBlock]

/-- The members at the start of the constructor's body, with the uninitialised
memory `storage` of the blocks. -/
def allocate (name : StdString) (rows cols blockSize : ℕ) (hb : 0 < blockSize)
    (storage : BlockId → Memory α (rows * cols) blockSize) : VariableBuffer α where
  name := name
  rows := rows
  cols := cols
  bufferMode := .producerConsumer
  block i := ⟨rows * cols, (storage i).1, 0, Nat.zero_le _, by rw [(storage i).2.1]; exact hb⟩
  queue := QueueImpl.init
  currentBlock := 0
  onBlockAvailable := false

/-- The constructor. -/
def make (name : StdString) (rows cols blockSize : ℕ) (hb : 0 < blockSize)
    (storage : BlockId → Memory α (rows * cols) blockSize) :
    VariableBuffer α :=
  let (vb, block) := (allocate name rows cols blockSize hb storage).getNewBlock
  { vb with currentBlock := block.getD 0 }

variable (name : StdString) (rows cols blockSize : ℕ) (hb : 0 < blockSize)
  (storage : BlockId → Memory α (rows * cols) blockSize)

theorem allocate_queue :
    (allocate name rows cols blockSize hb storage).queue = QueueImpl.init := rfl

theorem make_eq : ∃ pool b writeQueue, allBlocks = pool ++ [some b] ∧ writeQueue.content = [] ∧
    make name rows cols blockSize hb storage =
      let vb := allocate name rows cols blockSize hb storage
      { vb.setBlock b (vb.block b).reset with
        queue := { vb.queue with writeQueue, blockPool := pool }
        currentBlock := b } := by
  obtain ⟨hpool, -, hwq⟩ := QueueImpl.init_spec
  obtain ⟨pool, b, hb'⟩ := allBlocks_eq_concat
  have hall : (allocate name rows cols blockSize hb storage).queue.blockPool ++
      (allocate name rows cols blockSize hb storage).queue.writeQueue.content =
      pool ++ [some b] := by
    rw [allocate_queue, hpool, hwq, List.append_nil, hb']
  obtain ⟨wq, hnil, he⟩ := getNewBlock_some (allocate name rows cols blockSize hb storage) hall
  exact ⟨pool, b, wq, hb', hnil, by simp only [make, he, Option.getD_some]⟩

theorem make_dims : let vb := make name rows cols blockSize hb storage
    vb.name = name ∧ vb.rows = rows ∧ vb.cols = cols := by
  obtain ⟨pool, b, wq, -, -, he⟩ := make_eq name rows cols blockSize hb storage
  rw [he]
  exact ⟨rfl, rfl, rfl⟩

/-- The new variable has one block as its current block and the others in its
pool. -/
theorem make_queue : let vb := make name rows cols blockSize hb storage
    vb.queue.readQueue.content = [] ∧ vb.queue.writeQueue.content = [] ∧
      vb.queue.blockPool ++ [some vb.currentBlock] = allBlocks := by
  obtain ⟨pool, b, wq, hb', hnil, he⟩ := make_eq name rows cols blockSize hb storage
  obtain ⟨-, hrq, -⟩ := QueueImpl.init_spec
  rw [he]
  exact ⟨hrq, hnil, hb'.symm⟩

theorem make_column (i : BlockId) : let vb := make name rows cols blockSize hb storage
    ∀ col ∈ (vb.block i).buf, col.length = rows * cols := by
  obtain ⟨pool, b, wq, -, -, he⟩ := make_eq name rows cols blockSize hb storage
  have hcol : ∀ j, ∀ col ∈ ((allocate name rows cols blockSize hb storage).block j).buf,
      col.length = rows * cols := fun j => (storage j).2.2
  rw [he]
  exact forall_setBlock (P := fun x => ∀ col ∈ x.buf, col.length = rows * cols) hcol b _ (hcol b) i

theorem make_block (i : BlockId) : let vb := make name rows cols blockSize hb storage
    (vb.block i).getSize = blockSize ∧ (vb.block i).valid = [] := by
  obtain ⟨pool, b, wq, -, -, he⟩ := make_eq name rows cols blockSize hb storage
  have hsize : ∀ j, ((allocate name rows cols blockSize hb storage).block j).getSize = blockSize :=
    fun j => (storage j).2.1
  rw [he]
  exact forall_setBlock (P := fun x => x.getSize = blockSize ∧ x.valid = [])
    (fun j => ⟨hsize j, rfl⟩) b _ ⟨hsize b, rfl⟩ i

end VariableBuffer
end XBot
