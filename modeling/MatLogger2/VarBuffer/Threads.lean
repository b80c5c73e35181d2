import MatLogger2.Lib.Transition
import MatLogger2.VarBuffer.Calls

/-! One variable shared by a producer thread and a consumer thread. Each thread
is inside at most one call; a step is one load or store of a ring index or of a
ring cell, or a stretch of code that touches only what the thread owns. -/

namespace XBot

open Spsc Transition

/-- Where `flush_to_queue` is. -/
inductive FlushPc
  | check
  | infoWrite
  | infoRead (w : Index)
  | allWrite (info : BufferInfo)
  | allRead (info : BufferInfo) (w : Index)
  | allCopy (info : BufferInfo) (r : Index) (count : ℕ) (todo : List Index)
  | takeBlock (info : BufferInfo)
  | popWrite (info : BufferInfo)
  | popRead (info : BufferInfo) (w : Index)
  | popCopy (info : BufferInfo) (r : Index)
  | popStore (info : BufferInfo) (r : Index) (b : BlockId)
  | pushWrite (info : BufferInfo) (b : BlockId)
  | pushRead (info : BufferInfo) (b : BlockId) (w : Index)
  | pushCopy (info : BufferInfo) (b : BlockId) (w : Index)
  | pushStore (info : BufferInfo) (b : BlockId) (w : Index)
  | setCurrent (info : BufferInfo) (b : BlockId)
  | callback (info : BufferInfo)

/-- How `flush_to_queue` goes on after a step. -/
inductive FlushNext
  | goto (pc : FlushPc)
  | ret (ok : Bool)
  | throw (what : String)
  | crash

inductive Event (α : Type)
  /-- `add_elem` has returned. -/
  | added (data : Eigen.MatrixXd α) (ok : Bool)
  /-- `flush_to_queue`, called by the user, has returned. -/
  | flushed (ok : Bool)
  /-- A block has been published in the read queue. -/
  | pushed (b : BlockId)
  /-- `add_elem` has reset the current block with these samples in it. -/
  | discarded (samples : List (List α))
  /-- The callback has been called. -/
  | notified (info : BufferInfo)
  /-- `read_block` has returned. -/
  | read (result : VariableBuffer.ReadResult α)
  /-- `read_block` has thrown. -/
  | readThrown (what : String)
  /-- The push of a consumed block into the write queue has failed. -/
  | lost (b : BlockId)

namespace VariableBuffer

variable {α : Type}

/-- One step of `flush_to_queue`. The consumer writes only the read index of the
read queue and the write index and cells of the write queue, so the loads of
the other indices are of what this thread stored last. -/
def flushStep (vb : VariableBuffer α) : FlushPc → VariableBuffer α × FlushNext × List (Event α)
  | .check =>
    if vb.current.getValidElements = 0 then (vb, .ret true, []) else (vb, .goto .infoWrite, [])
  | .infoWrite => (vb, .goto (.infoRead vb.queue.readQueue.write), [])
  | .infoRead w =>
    let info : BufferInfo :=
      { variableName := vb.name
        newAvailableBytes := vb.current.getSizeBytes
        writeAvailable := Boost.writeAvailable w vb.queue.readQueue.read }
    (vb, .goto (.allWrite info), [])
  | .allWrite info => (vb, .goto (.allRead info vb.queue.writeQueue.write), [])
  | .allRead info w =>
    let r := vb.queue.writeQueue.read
    let avail := Boost.readAvailable w r
    if avail = 0 then (vb, .goto (.takeBlock info), [])
    else (vb, .goto (.allCopy info r avail (Boost.consumeCells r avail)), [])
  | .allCopy info r count (i :: todo) =>
    let pool := vb.queue.blockPool ++ [vb.queue.writeQueue.cell i]
    ({ vb with queue := { vb.queue with blockPool := pool } }, .goto (.allCopy info r count todo), [])
  | .allCopy info r count [] =>
    let writeQueue := { vb.queue.writeQueue with read := Boost.newReadIndex r count }
    ({ vb with queue := { vb.queue with writeQueue } }, .goto (.takeBlock info), [])
  | .takeBlock info =>
    match vb.queue.blockPool.getLast? with
    | none =>
      match vb.bufferMode with
      | .circularBuffer => (vb, .goto (.popWrite info), [])
      | .producerConsumer => (vb, .ret false, [])
    | some none => (vb, .crash, [])
    | some (some b) =>
      let vb := vb.setBlock b (vb.block b).reset
      ({ vb with queue := { vb.queue with blockPool := vb.queue.blockPool.dropLast } },
        .goto (.pushWrite info b), [])
  | .popWrite info => (vb, .goto (.popRead info vb.queue.readQueue.write), [])
  | .popRead info w =>
    if w = vb.queue.readQueue.read then
      (vb, .throw "failed to pop a new block for variable", [])
    else (vb, .goto (.popCopy info vb.queue.readQueue.read), [])
  | .popCopy info r =>
    match vb.queue.readQueue.cell r with
    | none => (vb, .crash, [])
    | some b => (vb, .goto (.popStore info r b), [])
  | .popStore info r b =>
    let readQueue := { vb.queue.readQueue with read := Boost.nextIndex r }
    ({ vb with queue := { vb.queue with readQueue } }, .goto (.pushWrite info b), [])
  | .pushWrite info b => (vb, .goto (.pushRead info b vb.queue.readQueue.write), [])
  | .pushRead info b w =>
    if Boost.nextIndex w = vb.queue.readQueue.read then
      (vb, .throw "failed to push current block for variable", [])
    else (vb, .goto (.pushCopy info b w), [])
  | .pushCopy info b w =>
    let cell := Function.update vb.queue.readQueue.cell w (some vb.currentBlock)
    ({ vb with queue := { vb.queue with readQueue := { vb.queue.readQueue with cell } } },
      .goto (.pushStore info b w), [])
  | .pushStore info b w =>
    let readQueue := { vb.queue.readQueue with write := Boost.nextIndex w }
    ({ vb with queue := { vb.queue with readQueue } }, .goto (.setCurrent info b),
      [.pushed vb.currentBlock])
  | .setCurrent info b => ({ vb with currentBlock := b }, .goto (.callback info), [])
  | .callback info => (vb, .ret true, if vb.onBlockAvailable then [.notified info] else [])

end VariableBuffer

/-- Where the producer is. A flush is called by the user or for a sample. -/
inductive Producer (α : Type)
  | idle
  | adding (data : Eigen.MatrixXd α)
  | flushing (caller : Option (Eigen.MatrixXd α)) (pc : FlushPc)
  | resetting (data : Eigen.MatrixXd α) (ok : Bool)
  | thrown (what : String)
  | crashed

/-- Where the consumer is in `read_block`. -/
inductive Consumer (α : Type)
  | idle
  | popWrite
  | popRead (w : Index)
  | popCopy (r : Index)
  | popStore (r : Index) (b : BlockId)
  | copyData (b : BlockId)
  | copyValid (b : BlockId) (data : List (List α))
  | reset (b : BlockId) (data : List (List α)) (valid : ℕ)
  | pushWrite (b : BlockId) (data : List (List α)) (valid : ℕ)
  | pushRead (b : BlockId) (data : List (List α)) (valid : ℕ) (w : Index)
  | pushCopy (b : BlockId) (data : List (List α)) (valid : ℕ) (w : Index)
  | pushStore (b : BlockId) (data : List (List α)) (valid : ℕ) (w : Index)
  | crashed

structure Threads (α : Type) where
  vb : VariableBuffer α
  producer : Producer α
  consumer : Consumer α

inductive Act (α : Type)
  | callAddElem (data : Eigen.MatrixXd α)
  | callFlushToQueue
  | producer
  | callReadBlock
  | consumer

namespace Threads

variable {α : Type}

def afterFlush (caller : Option (Eigen.MatrixXd α)) : FlushNext → Producer α × List (Event α)
  | .goto pc => (.flushing caller pc, [])
  | .ret ok =>
    match caller with
    | none => (.idle, [.flushed ok])
    | some data => (.resetting data ok, [])
  | .throw what => (.thrown what, [])
  | .crash => (.crashed, [])

def producerStep (s : Threads α) : Option (Threads α × List (Event α)) :=
  match s.producer with
  | .adding data =>
    if data.size ≠ s.vb.rows * s.vb.cols then
      some ({ s with producer := .idle }, [.added data false])
    else
      match s.vb.current.add data with
      | some b => some ({ s with vb := s.vb.setCurrent b, producer := .idle }, [.added data true])
      | none => some ({ s with producer := .flushing (some data) .check }, [])
  | .flushing caller pc =>
    let (vb, next, es) := s.vb.flushStep pc
    let (producer, es') := afterFlush caller next
    some ({ s with vb, producer }, es ++ es')
  | .resetting data _ =>
    some ({ s with vb := s.vb.setCurrent s.vb.current.reset, producer := .adding data },
      [.discarded s.vb.current.valid])
  | .idle | .thrown _ | .crashed => none

def consumerStep (s : Threads α) : Option (Threads α × List (Event α)) :=
  match s.consumer with
  | .idle | .crashed => none
  | .popWrite => some ({ s with consumer := .popRead s.vb.queue.readQueue.write }, [])
  | .popRead w =>
    if w = s.vb.queue.readQueue.read then
      some ({ s with consumer := .idle }, [.read ⟨none, 0⟩])
    else some ({ s with consumer := .popCopy s.vb.queue.readQueue.read }, [])
  | .popCopy r =>
    match s.vb.queue.readQueue.cell r with
    | none => some ({ s with consumer := .crashed }, [])
    | some b => some ({ s with consumer := .popStore r b }, [])
  | .popStore r b =>
    let readQueue := { s.vb.queue.readQueue with read := Boost.nextIndex r }
    some ({ s with
      vb := { s.vb with queue := { s.vb.queue with readQueue } }, consumer := .copyData b }, [])
  | .copyData b => some ({ s with consumer := .copyValid b (s.vb.block b).getData }, [])
  | .copyValid b data =>
    some ({ s with consumer := .reset b data (s.vb.block b).getValidElements }, [])
  | .reset b data valid =>
    some ({ s with
      vb := s.vb.setBlock b (s.vb.block b).reset, consumer := .pushWrite b data valid }, [])
  | .pushWrite b data valid =>
    some ({ s with consumer := .pushRead b data valid s.vb.queue.writeQueue.write }, [])
  | .pushRead b data valid w =>
    if Boost.nextIndex w = s.vb.queue.writeQueue.read then
      -- the result of this push is not looked at
      some ({ s with consumer := .idle }, [.lost b, .read ⟨some data, valid⟩])
    else some ({ s with consumer := .pushCopy b data valid w }, [])
  | .pushCopy b data valid w =>
    let cell := Function.update s.vb.queue.writeQueue.cell w (some b)
    let writeQueue := { s.vb.queue.writeQueue with cell }
    some ({ s with
      vb := { s.vb with queue := { s.vb.queue with writeQueue } },
      consumer := .pushStore b data valid w }, [])
  | .pushStore _ data valid w =>
    let writeQueue := { s.vb.queue.writeQueue with write := Boost.nextIndex w }
    some ({ s with
      vb := { s.vb with queue := { s.vb.queue with writeQueue } }, consumer := .idle },
      [.read ⟨some data, valid⟩])

/-- A thread enters a call only when it is in none. -/
def step (s : Threads α) : Act α → Option (Threads α × List (Event α))
  | .callAddElem data =>
    match s.producer with
    | .idle => some ({ s with producer := .adding data }, [])
    | _ => none
  | .callFlushToQueue =>
    match s.producer with
    | .idle => some ({ s with producer := .flushing none .check }, [])
    | _ => none
  | .producer => s.producerStep
  | .callReadBlock =>
    match s.consumer with
    | .idle =>
      match s.vb.bufferMode with
      | .circularBuffer =>
        some (s, [.readThrown "cannot call read_block() when in circular_buffer mode!"])
      | .producerConsumer => some ({ s with consumer := .popWrite }, [])
    | _ => none
  | .consumer => s.consumerStep

end Threads

/-- A freshly constructed variable in the given mode, both threads outside. -/
def Threads.start {α : Type} (name : StdString) (rows cols blockSize : ℕ) (hb : 0 < blockSize)
    (storage : BlockId → Memory α (rows * cols) blockSize) (mode : Mode)
    (callback : Bool) : Threads α where
  vb := ((VariableBuffer.make name rows cols blockSize hb storage).setOnBlockAvailable
    callback).setBufferMode mode
  producer := .idle
  consumer := .idle

/-- The threads of a variable of the given shape, block size and mode, in any
interleaving of their steps. -/
def threads (α : Type) (rows cols blockSize : ℕ) (mode : Mode) :
    System (Threads α) (Event α) where
  init s := ∃ name hb storage callback,
    s = Threads.start name rows cols blockSize hb storage mode callback
  step s es s' := ∃ a, s.step a = some (s', es)

theorem threads_run_exec {α : Type} {rows cols blockSize : ℕ} {mode : Mode} {s t : Threads α}
    {acts : List (Act α)} {es : List (Event α)} (h0 : (threads α rows cols blockSize mode).init s)
    (h : exec Threads.step s acts = some (t, es)) :
    ∃ hist, (threads α rows cols blockSize mode).Run hist es t := by
  have hstep : ∀ s a s' es, Threads.step s a = some (s', es) →
      (threads α rows cols blockSize mode).step s es s' := fun _ a _ _ ha => ⟨a, ha⟩
  obtain ⟨hist, hr⟩ := System.Run.exec hstep (.start h0) h
  exact ⟨_, hr⟩

end XBot
