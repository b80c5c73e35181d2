import MatLogger2.VarBuffer.Histories

/-! When the calls of the two threads take effect. A flush does so when it stores
the write index of the read queue, or when it has loaded indices that show no free
block anywhere; a `read_block` when it stores the write index of the write queue, or
when it has loaded indices that show an empty read queue. -/

namespace XBot

open Spsc Transition

variable {α : Type}

abbrev AtomicLog (α : Type) := Linear.Atomic Thread (BlockLog (List α)) (BufferOp α) (BufferRet α)

/-- The call that has led to a flush. -/
def flushOp : Option (Eigen.MatrixXd α) → BufferOp α
  | none => .flushToQueue
  | some data => .addElem data

/-- What the log has in its current block after that call, if the flush leaves `left`. -/
def refilled (left : List (List α)) : Option (Eigen.MatrixXd α) → List (List α)
  | none => left
  | some data => [data.data]

def OfSize (dim : ℕ) (caller : Option (Eigen.MatrixXd α)) : Prop :=
  ∀ data, caller = some data → data.size = dim

namespace FlushPc

/-- The flush may still find a free block, or has found one and not yet used it. -/
def Undecided (pool : List Ptr) (read : Index) : FlushPc → Prop
  | .check | .infoWrite | .infoRead _ | .allWrite _ => True
  | .allRead _ w => pool ≠ [] ∨ w ≠ read
  | .allCopy _ _ count _ => 0 < count
  | .takeBlock _ => pool ≠ []
  | .pushWrite _ _ | .pushRead _ _ _ | .pushCopy _ _ _ | .pushStore _ _ _ => True
  | .popWrite _ | .popRead _ _ | .popCopy _ _ | .popStore _ _ _ => False
  | .setCurrent _ _ | .callback _ => False

/-- The flush is going to return false. -/
def Refusing (pool : List Ptr) (read : Index) : FlushPc → Prop
  | .allRead _ w => pool = [] ∧ w = read
  | .takeBlock _ => pool = []
  | _ => False

def Published : FlushPc → Prop
  | .setCurrent _ _ | .callback _ => True
  | _ => False

end FlushPc

/-- How a flush stands, with the log's current block and whether the call has taken
effect; `cur` are the samples in the variable's current block. -/
inductive FlushPc.Stage (pool : List Ptr) (read : Index) (cur : List (List α))
    (caller : Option (Eigen.MatrixXd α)) (pc : FlushPc) (current : List (List α))
    (status : Linear.Status (BufferOp α) (BufferRet α)) : Prop
  | undecided : pc.Undecided pool read → (pc ≠ .check → cur ≠ []) → current = cur →
      status = .called (flushOp caller) → Stage pool read cur caller pc current status
  | refusing : pc.Refusing pool read → current = refilled cur caller →
      status = .done (.ok caller.isSome) → Stage pool read cur caller pc current status
  | published : pc.Published → current = refilled [] caller →
      status = .done (.ok true) → Stage pool read cur caller pc current status

/-- The same for the producer. A sample is offered to a block once more after a flush
that has taken effect. -/
def Producer.Stage (pool : List Ptr) (read : Index) (dim : ℕ) (cur : List (List α))
    (p : Producer α) (current : List (List α))
    (status : Linear.Status (BufferOp α) (BufferRet α)) : Prop :=
  match p with
  | .idle => current = cur ∧ status = .idle
  | .adding data => (current = cur ∧ status = .called (.addElem data)) ∨
      (cur = [] ∧ data.size = dim ∧ current = [data.data] ∧ status = .done (.ok true))
  | .flushing caller pc => OfSize dim caller ∧ pc.Stage pool read cur caller current status
  | .resetting data _ => data.size = dim ∧ current = [data.data] ∧ status = .done (.ok true)
  | .thrown _ | .crashed => False

namespace Consumer

/-- The block in the consumer's hand, which the log still has in its queue. -/
def taken (block : BlockId → BufferBlock α) (c : Consumer α) : List (List (List α)) :=
  c.holds.map fun _ => c.samples block

/-- A `read_block` that has seen an empty queue has taken effect. -/
def status (read : Index) : Consumer α → Linear.Status (BufferOp α) (BufferRet α)
  | .idle | .crashed => .idle
  | .popRead w => if w = read then .done (.block [] 0) else .called .readBlock
  | _ => .called .readBlock

/-- The matrix copied out has the valid columns. -/
def Counted : Consumer α → Prop
  | .pushWrite _ data valid | .pushRead _ data valid _ => valid ≤ data.length
  | .pushCopy _ data valid _ | .pushStore _ data valid _ => valid ≤ data.length
  | _ => True

end Consumer

/-- The blocks of samples that the log has in its queue. -/
def Threads.blocks (s : Threads α) : List (List (List α)) :=
  s.consumer.taken s.vb.block ++ s.rqLive.map (validOf s.vb.block)

/-- The threads are in the middle of calls that have taken effect on the log as `a` says. -/
structure Matches (b dim : ℕ) (s : Threads α) (a : AtomicLog α) : Prop where
  dims : s.vb.rows * s.vb.cols = dim
  fits : a.state.Fits NUM_BLOCKS b
  queue : a.state.queue = s.blocks
  producer : s.producer.Stage s.vb.queue.blockPool s.vb.queue.writeQueue.read dim
    s.vb.current.valid a.state.current (a.status .producer)
  consumer : a.status .consumer = s.consumer.status s.vb.queue.readQueue.read
  counted : s.consumer.Counted

section Log

variable {b dim : ℕ} {l : BlockLog (List α)} {caller : Option (Eigen.MatrixXd α)}

/-- A call whose flush finds no free block. -/
theorem logOp_refused (hne : l.current ≠ []) (hf : l.free = 0) (hs : OfSize dim caller)
    (hfull : caller.isSome → l.current.length = b) :
    logOp b dim l (flushOp caller) =
      ({ l with current := refilled l.current caller }, .ok caller.isSome) := by
  cases caller with
  | none => simp only [flushOp, logOp, BlockLog.flush_refused hne hf, refilled, Option.isSome_none]
  | some data =>
    have hlt : ¬ l.current.length < b := (hfull rfl).not_lt
    simp only [flushOp, logOp, hs data rfl, BlockLog.add, hlt, BlockLog.flush_refused hne hf,
      refilled, Option.isSome_some, if_true, if_false]

/-- A call whose flush finds one. -/
theorem logOp_free (hne : l.current ≠ []) (hf : 0 < l.free) (hs : OfSize dim caller)
    (hfull : caller.isSome → l.current.length = b) :
    logOp b dim l (flushOp caller) =
      (⟨l.queue ++ [l.current], refilled [] caller, l.free - 1⟩, .ok true) := by
  cases caller with
  | none => simp only [flushOp, logOp, BlockLog.flush_free hne hf, refilled]
  | some data =>
    have hlt : ¬ l.current.length < b := (hfull rfl).not_lt
    simp only [flushOp, logOp, hs data rfl, BlockLog.add, hlt, BlockLog.flush_free hne hf,
      refilled, if_true, if_false]

end Log

section Blocks

variable {vb : VariableBuffer α} {p : Producer α} {c : Consumer α}

theorem Consumer.taken_update (block : BlockId → BufferBlock α) {i : BlockId} (x : BufferBlock α)
    (h : some i ∉ c.holds) : c.taken (Function.update block i x) = c.taken block := by
  simp only [Consumer.taken, Consumer.samples_update block x h]

/-- A block that is in nobody's way may change. -/
theorem Threads.blocks_update {i : BlockId} (x : BufferBlock α)
    (hc : some i ∉ c.holds) (hrq : some i ∉ Threads.rqLive ⟨vb, p, c⟩) :
    c.taken (Function.update vb.block i x) ++
        (Threads.rqLive ⟨vb, p, c⟩).map (validOf (Function.update vb.block i x)) =
      Threads.blocks ⟨vb, p, c⟩ := by
  rw [Consumer.taken_update _ x hc, map_validOf_update _ x hrq]
  rfl

theorem Threads.rqLive_eq (hm : vb.bufferMode = .producerConsumer) :
    Threads.rqLive ⟨vb, p, c⟩ = PopView.live vb.queue.readQueue c.rqPop := by
  simp only [Threads.rqLive, Threads.rqPop, hm]

theorem Threads.blocks_eq (hm : vb.bufferMode = .producerConsumer) :
    Threads.blocks ⟨vb, p, c⟩ = c.taken vb.block ++
      (PopView.live vb.queue.readQueue c.rqPop).map (validOf vb.block) := by
  rw [Threads.blocks, Threads.rqLive_eq hm]

theorem Threads.length_blocks (s : Threads α) :
    s.blocks.length = s.consumer.holds.length + s.rqLive.length := by
  simp only [Threads.blocks, Consumer.taken, List.length_append, List.length_map]

end Blocks

namespace Matches

variable {b dim : ℕ} {s s' : Threads α} {a a' : AtomicLog α}
variable {vb vb' : VariableBuffer α} {p p' : Producer α} {c c' : Consumer α}

/-- The log's free blocks are the pool, the live write queue, and a new block that the
producer holds beside the current one. -/
theorem free (h : Matches b dim s a) (own : Owned s) :
    a.state.free + 1 =
      s.vb.queue.blockPool.length + s.producerHolds.length + s.wqLive.length := by
  have hblocks := h.fits.blocks
  have hl := own.length_handles
  rw [h.queue, Threads.length_blocks] at hblocks
  omega

/-- A step of the producer, with what it does to the log. -/
theorem producerStep (h : Matches b dim ⟨vb, p, c⟩ a) (hrows : vb'.rows = vb.rows)
    (hcols : vb'.cols = vb.cols) (hread : vb'.queue.readQueue.read = vb.queue.readQueue.read)
    (hf : a'.state.Fits NUM_BLOCKS b) (hq : a'.state.queue = Threads.blocks ⟨vb', p', c⟩)
    (hp : p'.Stage vb'.queue.blockPool vb'.queue.writeQueue.read dim vb'.current.valid
      a'.state.current (a'.status .producer))
    (hc : a'.status .consumer = a.status .consumer) : Matches b dim ⟨vb', p', c⟩ a' := by
  refine ⟨?_, hf, hq, hp, ?_, h.counted⟩
  · simp only [hrows, hcols]
    exact h.dims
  · rw [hc, h.consumer]
    simp only [hread]

/-- One that does nothing to it. -/
theorem producerQuiet (h : Matches b dim ⟨vb, p, c⟩ a) (hrows : vb'.rows = vb.rows)
    (hcols : vb'.cols = vb.cols) (hread : vb'.queue.readQueue.read = vb.queue.readQueue.read)
    (hq : Threads.blocks ⟨vb', p', c⟩ = Threads.blocks ⟨vb, p, c⟩)
    (hp : p'.Stage vb'.queue.blockPool vb'.queue.writeQueue.read dim vb'.current.valid
      a.state.current (a.status .producer)) : Matches b dim ⟨vb', p', c⟩ a :=
  h.producerStep hrows hcols hread h.fits (h.queue.trans hq.symm) hp rfl

end Matches
end XBot
