import MatLogger2.VarBuffer.Types

/-! The calls of one variable, each run to its end without interruption. -/

namespace XBot
namespace VariableBuffer

variable {α : Type}

/-- What a call leaves behind: the buffer, the returned value or the message of a
`std::logic_error`, what the callback was told, and the samples that were in the
current block when `add_elem` reset it. -/
structure Outcome (α : Type) where
  vb : VariableBuffer α
  ret : Except String Bool
  callbacks : List BufferInfo
  discarded : List (List α)

def bufferInfo (vb : VariableBuffer α) : BufferInfo where
  variableName := vb.name
  newAvailableBytes := vb.current.getSizeBytes
  writeAvailable := Boost.writeAvailable vb.queue.readQueue.write vb.queue.readQueue.read

/-- The end of `flush_to_queue`, once a new block has been found. -/
def pushCurrent (vb : VariableBuffer α) (newBlock : BlockId) (info : BufferInfo) : Outcome α :=
  let (readQueue, ok) := Boost.push vb.queue.readQueue (some vb.currentBlock)
  if ok then
    ⟨{ vb with queue := { vb.queue with readQueue }, currentBlock := newBlock }, .ok true,
      if vb.onBlockAvailable then [info] else [], []⟩
  else ⟨vb, .error "failed to push current block for variable", [], []⟩

/-- A null handle popped in circular mode would be dereferenced later; the read
queue holds none, and the branch joins that of an empty queue. -/
def flushToQueue (vb : VariableBuffer α) : Outcome α :=
  if vb.current.getValidElements = 0 then ⟨vb, .ok true, [], []⟩
  else
    let info := vb.bufferInfo
    match vb.getNewBlock with
    | (vb, some newBlock) => vb.pushCurrent newBlock info
    | (vb, none) =>
      match vb.bufferMode with
      | .circularBuffer =>
        let (readQueue, popped) := Boost.consumeOne vb.queue.readQueue
        let vb := { vb with queue := { vb.queue with readQueue } }
        match popped.join with
        | none => ⟨vb, .error "failed to pop a new block for variable", [], []⟩
        | some newBlock => vb.pushCurrent newBlock info
      | .producerConsumer => ⟨vb, .ok false, [], []⟩

/-- The call of `add_elem` on itself is the second attempt: after the reset the
current block has room, since blocks are not empty. -/
def addElem (vb : VariableBuffer α) (data : Eigen.MatrixXd α) : Outcome α :=
  if data.size ≠ vb.rows * vb.cols then ⟨vb, .ok false, [], []⟩
  else
    match _h : vb.current.add data with
    | some b => ⟨vb.setCurrent b, .ok true, [], []⟩
    | none =>
      let r := vb.flushToQueue
      match r.ret with
      | .error what => ⟨r.vb, .error what, r.callbacks, []⟩
      | .ok _ =>
        let again := (r.vb.setCurrent r.vb.current.reset).addElem data
        { again with
          callbacks := r.callbacks ++ again.callbacks
          discarded := r.vb.current.valid }
termination_by if vb.current.writeIdx = vb.current.getSize then 1 else 0
decreasing_by
  have hfull : vb.current.writeIdx = vb.current.getSize := by
    by_contra hne
    simp [BufferBlock.add, hne] at _h
  have hpos : r.vb.current.reset.writeIdx ≠ r.vb.current.getSize := r.vb.current.getSize_pos.ne
  rw [current_setCurrent, if_pos hfull, BufferBlock.getSize_reset, if_neg hpos]
  exact Nat.zero_lt_one

/-- The matrix copied out of a block and its number of valid columns; `data` is
`none` when the queue was empty and the caller's matrix stays as it was. -/
structure ReadResult (α : Type) where
  data : Option (List (List α))
  validElements : ℕ

def ReadResult.ret (r : ReadResult α) : Bool := r.validElements > 0

/-- The samples that the caller of `read_block` is entitled to. -/
def ReadResult.samples (r : ReadResult α) : List (List α) := (r.data.getD []).take r.validElements

def readBlock (vb : VariableBuffer α) : VariableBuffer α × Except String (ReadResult α) :=
  match vb.bufferMode with
  | .circularBuffer => (vb, .error "cannot call read_block() when in circular_buffer mode!")
  | .producerConsumer =>
    let (readQueue, popped) := Boost.consumeOne vb.queue.readQueue
    let vb := { vb with queue := { vb.queue with readQueue } }
    match popped.join with
    | none => (vb, .ok ⟨none, 0⟩)
    | some block =>
      let data := (vb.block block).getData
      let ret := (vb.block block).getValidElements
      let vb := vb.setBlock block (vb.block block).reset
      let (writeQueue, _) := Boost.push vb.queue.writeQueue (some block)
      ({ vb with queue := { vb.queue with writeQueue } }, .ok ⟨some data, ret⟩)

/-- A block that has been read has left the read queue. -/
theorem readBlock_length {vb vb' : VariableBuffer α} {data : List (List α)} {valid : ℕ}
    (h : vb.readBlock = (vb', .ok ⟨some data, valid⟩)) :
    vb'.queue.readQueue.content.length + 1 = vb.queue.readQueue.content.length := by
  unfold readBlock at h
  split at h
  · cases h
  · cases hc : vb.queue.readQueue.content with
    | nil =>
      rw [Boost.consumeOne_nil hc] at h
      cases h
    | cons x t =>
      obtain ⟨hpop, htail⟩ := Boost.consumeOne_cons hc
      cases x with
      | none =>
        simp only [hpop, Option.join_some] at h
        cases h
      | some i =>
        simp only [hpop, Option.join_some, Prod.mk.injEq] at h
        rw [← h.1, List.length_cons]
        exact congrArg (·.length + 1) htail

end VariableBuffer
end XBot
