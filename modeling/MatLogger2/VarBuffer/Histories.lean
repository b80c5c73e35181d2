import MatLogger2.Lib.Linearizable
import MatLogger2.VarBuffer.Sequential
import MatLogger2.VarBuffer.Loss

/-! What the callers of a variable see: that they enter a call, and what it
returns. The same calls make two objects, in each of which a call is made at
once: the code of `VariableBuffer` run without interruption, and the log. -/

namespace XBot

open Transition

variable {α : Type}

inductive Thread
  | producer
  | consumer
  deriving DecidableEq

inductive BufferOp (α : Type)
  | addElem (data : Eigen.MatrixXd α)
  | flushToQueue
  | readBlock

inductive BufferRet (α : Type)
  | ok (ok : Bool)
  /-- The valid columns copied out by `read_block`, and how many it says they are. -/
  | block (samples : List (List α)) (validElements : ℕ)
  | threw (what : String)

abbrev CallEvent (α : Type) := Linear.Event Thread (BufferOp α) (BufferRet α)

def Act.calls : Act α → List (CallEvent α)
  | .callAddElem data => [.call .producer (.addElem data)]
  | .callFlushToQueue => [.call .producer .flushToQueue]
  | .callReadBlock => [.call .consumer .readBlock]
  | .producer | .consumer => []

def Event.returns : Event α → Option (CallEvent α)
  | .added _ ok => some (.ret .producer (.ok ok))
  | .flushed ok => some (.ret .producer (.ok ok))
  | .read result => some (.ret .consumer (.block result.samples result.validElements))
  | .readThrown what => some (.ret .consumer (.threw what))
  | .pushed _ | .discarded _ | .notified _ | .lost _ => none

/-- The two threads in any interleaving of their steps, seen from their callers. -/
def histories (α : Type) (rows cols b : ℕ) : System (Threads α) (CallEvent α) where
  init := (threads α rows cols b .producerConsumer).init
  step s es s' := ∃ a evs, s.step a = some (s', evs) ∧ es = a.calls ++ evs.filterMap Event.returns

theorem histories_reachable {rows cols b : ℕ} {s : Threads α}
    (h : (histories α rows cols b).Reachable s) :
    (threads α rows cols b .producerConsumer).Reachable s := by
  refine h.inv (I := (threads α rows cols b .producerConsumer).Reachable) ?_ ?_
  · intro s hs
    exact ⟨_, _, .start hs⟩
  · rintro s es s' ⟨hist, tr, hr⟩ ⟨a, evs, ha, -⟩
    exact ⟨_, _, hr.next ⟨a, ha⟩⟩

theorem reachable_histories {rows cols b : ℕ} {s : Threads α}
    (h : (threads α rows cols b .producerConsumer).Reachable s) :
    (histories α rows cols b).Reachable s := by
  refine h.inv (I := (histories α rows cols b).Reachable) ?_ ?_
  · intro s hs
    exact ⟨_, _, .start hs⟩
  · rintro s es s' ⟨hist, tr, hr⟩ ⟨a, ha⟩
    exact ⟨_, _, hr.next ⟨a, es, ha, rfl⟩⟩

namespace VariableBuffer

def boolRet : Except String Bool → BufferRet α
  | .ok ok => .ok ok
  | .error what => .threw what

def blockRet : Except String (ReadResult α) → BufferRet α
  | .ok result => .block result.samples result.validElements
  | .error what => .threw what

def applyOp (vb : VariableBuffer α) : BufferOp α → VariableBuffer α × BufferRet α
  | .addElem data => ((vb.addElem data).vb, boolRet (vb.addElem data).ret)
  | .flushToQueue => (vb.flushToQueue.vb, boolRet vb.flushToQueue.ret)
  | .readBlock => (vb.readBlock.1, blockRet vb.readBlock.2)

/-- A new variable in `producer_consumer` mode, each of whose calls is run to its end
at once. -/
def object (α : Type) (rows cols b : ℕ) :
    Linear.Object (VariableBuffer α) (BufferOp α) (BufferRet α) where
  init vb := ∃ name hb storage callback,
    vb = ((make name rows cols b hb storage).setOnBlockAvailable callback).setBufferMode
      .producerConsumer
  apply := applyOp

end VariableBuffer

/-- The same calls of a log whose samples have `dim` entries. -/
def logOp (b dim : ℕ) (l : BlockLog (List α)) : BufferOp α → BlockLog (List α) × BufferRet α
  | .addElem data => if data.size = dim then (l.add b false data.data, .ok true) else (l, .ok false)
  | .flushToQueue => ((l.flush false).1, .ok (l.flush false).2)
  | .readBlock => (l.read.1, .block l.read.2 l.read.2.length)

def logObject (α : Type) (b dim : ℕ) : Linear.Object (BlockLog (List α)) (BufferOp α) (BufferRet α) where
  init l := l = .empty (NUM_BLOCKS - 1)
  apply := logOp b dim

theorem fits_logOp {b : ℕ} (dim : ℕ) {l : BlockLog (List α)} (h : l.Fits NUM_BLOCKS b)
    (hb : 0 < b) (op : BufferOp α) : (logOp b dim l op).1.Fits NUM_BLOCKS b := by
  cases op with
  | addElem data =>
    simp only [logOp]
    split_ifs
    · exact h.add hb false data.data
    · exact h
  | flushToQueue => exact h.flush false
  | readBlock => exact h.read

open VariableBuffer

/-- Run without interruption, the code answers as the log does. -/
structure SameLog (rows cols b : ℕ) (l : BlockLog (List α)) (vb : VariableBuffer α) : Prop where
  whole : Whole b vb
  log : vb.log = l
  mode : vb.overwrites = false
  rows : vb.rows = rows
  cols : vb.cols = cols

theorem SameLog.becomes {rows cols b : ℕ} {l l' : BlockLog (List α)} {vb vb' : VariableBuffer α}
    (h : SameLog rows cols b l vb) (hb : Becomes b vb vb' l') : SameLog rows cols b l' vb' := by
  refine ⟨hb.whole, hb.log, ?_, hb.same.rows.trans h.rows, hb.same.cols.trans h.cols⟩
  rw [overwrites, hb.same.bufferMode]
  exact h.mode

theorem SameLog.apply {rows cols b : ℕ} {l : BlockLog (List α)} {vb : VariableBuffer α}
    (h : SameLog rows cols b l vb) (hb : 0 < b) (op : BufferOp α) :
    SameLog rows cols b (logOp b (rows * cols) l op).1 (vb.applyOp op).1 ∧
      (vb.applyOp op).2 = (logOp b (rows * cols) l op).2 := by
  have hdim : vb.rows * vb.cols = rows * cols := by rw [h.rows, h.cols]
  obtain rfl := h.log
  cases op with
  | addElem data =>
    simp only [applyOp, logOp]
    split_ifs with hsize
    · obtain ⟨hret, -, hbec⟩ := addElem_spec h.whole hb (hsize.trans hdim.symm)
      rw [h.mode] at hbec
      exact ⟨h.becomes hbec, by rw [hret]; rfl⟩
    · rw [addElem_refused (hdim ▸ hsize)]
      exact ⟨h, rfl⟩
  | flushToQueue =>
    obtain ⟨hret, hbec⟩ := flushToQueue_spec h.whole
    rw [h.mode] at hret hbec
    exact ⟨h.becomes hbec, by simp only [applyOp, hret]; rfl⟩
  | readBlock =>
    simp only [applyOp, logOp]
    cases hq : vb.log.queue with
    | nil =>
      rw [readBlock_nil h.mode hq, BlockLog.read_nil hq]
      exact ⟨h, rfl⟩
    | cons oldest rest =>
      obtain ⟨data, hret, htake, -, hbec⟩ := readBlock_cons h.whole h.mode hq
      rw [BlockLog.read_cons hq, hret]
      exact ⟨h.becomes hbec, by simp only [blockRet, ReadResult.samples, Option.getD_some, htake]⟩

theorem object_sim {rows cols b : ℕ} (hb : 0 < b) (storage : BlockId → Memory α (rows * cols) b) :
    (logObject α b (rows * cols)).Sim (VariableBuffer.object α rows cols b)
      (SameLog rows cols b) := by
  constructor
  · rintro l rfl
    obtain ⟨w, hlog⟩ := whole_make [] rows cols b hb storage
    obtain ⟨-, hrows, hcols⟩ := make_dims [] rows cols b hb storage
    exact ⟨_, ⟨[], hb, storage, false, rfl⟩, ⟨w.owned, w.size, w.column, w.filled⟩, hlog, rfl,
      hrows, hcols⟩
  · intro l vb op h
    exact h.apply hb op

end XBot
