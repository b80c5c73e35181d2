import MatLogger2.VarBuffer.Threads

/-! Every block has exactly one owner, in every interleaving. A pushed block
belongs to the queue once the write index is published, and a popped block to
the popper once its handle has been copied out. The count of owners leaves room
in both rings, so that no push fails. -/

namespace XBot

open Spsc Transition

variable {α : Type}

namespace Producer

def rqPush (cur : BlockId) : Producer α → PushView Ptr (NUM_BLOCKS + 1)
  | .flushing _ (.pushRead _ _ w) => .loaded w
  | .flushing _ (.pushCopy _ _ w) => .loaded w
  | .flushing _ (.pushStore _ _ w) => .written w (some cur)
  | _ => .idle

def rqPop : Producer α → PopView Ptr (NUM_BLOCKS + 1)
  | .flushing _ (.popRead _ w) => .loaded w
  | .flushing _ (.popCopy _ r) => .ready r
  | .flushing _ (.popStore _ r b) => .copied r (some b)
  | _ => .idle

def wqPop : Producer α → PopView Ptr (NUM_BLOCKS + 1)
  | .flushing _ (.allRead _ w) => .loaded w
  | .flushing _ (.allCopy _ r count todo) => .bulk r count todo
  | _ => .idle

/-- The current block until it is published, and the new block from when it has
been found. -/
def holds (cur : BlockId) : Producer α → List Ptr
  | .flushing _ (.popStore _ _ b) => [some cur, some b]
  | .flushing _ (.pushWrite _ b) => [some cur, some b]
  | .flushing _ (.pushRead _ b _) => [some cur, some b]
  | .flushing _ (.pushCopy _ b _) => [some cur, some b]
  | .flushing _ (.pushStore _ b _) => [some cur, some b]
  | .flushing _ (.setCurrent _ b) => [some b]
  | _ => [some cur]

/-- The producer pops from the read queue only in circular mode. -/
def popping : Producer α → Bool
  | .flushing _ (.popWrite _) | .flushing _ (.popRead _ _) => true
  | .flushing _ (.popCopy _ _) | .flushing _ (.popStore _ _ _) => true
  | _ => false

/-- In circular mode nobody pushes behind the back of the popping producer. -/
def popLoad (write : Index) : Producer α → Prop
  | .flushing _ (.popRead _ w) => w = write
  | _ => True

def sound : Producer α → Bool
  | .thrown _ | .crashed => false
  | _ => true

end Producer

namespace Consumer

def rqPop : Consumer α → PopView Ptr (NUM_BLOCKS + 1)
  | .popRead w => .loaded w
  | .popCopy r => .ready r
  | .popStore r b => .copied r (some b)
  | _ => .idle

def wqPush : Consumer α → PushView Ptr (NUM_BLOCKS + 1)
  | .pushRead _ _ _ w => .loaded w
  | .pushCopy _ _ _ w => .loaded w
  | .pushStore b _ _ w => .written w (some b)
  | _ => .idle

def holds : Consumer α → List Ptr
  | .popStore _ b | .copyData b | .copyValid b _ | .reset b _ _ => [some b]
  | .pushWrite b _ _ | .pushRead b _ _ _ | .pushCopy b _ _ _ | .pushStore b _ _ _ => [some b]
  | .idle | .popWrite | .popRead _ | .popCopy _ | .crashed => []

def sound : Consumer α → Bool
  | .crashed => false
  | _ => true

end Consumer

namespace Threads

variable (s : Threads α)

/-- The thread that pops from the read queue: the producer in circular mode. -/
def rqPop : PopView Ptr (NUM_BLOCKS + 1) :=
  match s.vb.bufferMode with
  | .circularBuffer => s.producer.rqPop
  | .producerConsumer => s.consumer.rqPop

def rqLive : List Ptr := PopView.live s.vb.queue.readQueue s.rqPop

def wqLive : List Ptr := PopView.live s.vb.queue.writeQueue s.producer.wqPop

def producerHolds : List Ptr := s.producer.holds s.vb.currentBlock

/-- All handles that somebody owns. -/
def handles : List Ptr :=
  s.vb.queue.blockPool ++ s.producerHolds ++ s.rqLive ++ s.wqLive ++ s.consumer.holds

end Threads

structure Owned (s : Threads α) : Prop where
  owned : s.handles.Perm allBlocks
  rqPush : (s.producer.rqPush s.vb.currentBlock).Ok s.vb.queue.readQueue
  rqPop : s.rqPop.Ok s.vb.queue.readQueue
  wqPush : s.consumer.wqPush.Ok s.vb.queue.writeQueue
  wqPop : s.producer.wqPop.Ok s.vb.queue.writeQueue
  pooled : s.producer.wqPop.taken ≤ s.vb.queue.blockPool.length
  sound : s.producer.sound = true ∧ s.consumer.sound = true
  circular : s.vb.bufferMode = .circularBuffer →
    s.consumer = .idle ∧ s.vb.queue.writeQueue.content = []
  popping : s.producer.popping = true →
    s.vb.bufferMode = .circularBuffer ∧ s.vb.queue.blockPool = []
  fresh : s.producer.popLoad s.vb.queue.readQueue.write

namespace Owned

variable {s : Threads α}

theorem length_handles (inv : Owned s) :
    s.vb.queue.blockPool.length + s.producerHolds.length + s.rqLive.length + s.wqLive.length +
      s.consumer.holds.length = NUM_BLOCKS := by
  have := inv.owned.length_eq
  simpa [Threads.handles, Nat.add_assoc] using this

theorem nodup_handles (inv : Owned s) : s.handles.Nodup := inv.owned.nodup_iff.mpr nodup_allBlocks

theorem none_notMem (inv : Owned s) : none ∉ s.handles := fun h =>
  mem_allBlocks.mp (inv.owned.mem_iff.mp h) rfl

/-- Equality of owners is shown by counting each handle. -/
theorem perm_of_count {l l' : List Ptr} (h : l.Perm allBlocks) (hc : ∀ x, l'.count x = l.count x) :
    l'.Perm allBlocks :=
  (List.perm_iff_count.mpr hc).trans h

/-- The pool's blocks and those of the read queue are not null. -/
theorem not_null_pool (inv : Owned s) :
    s.vb.queue.blockPool.getLast? ≠ some none := by
  intro h
  refine inv.none_notMem ?_
  have := List.mem_of_getLast? h
  simp [Threads.handles, this]

theorem not_null_ready {r : Index} (inv : Owned s) (hr : s.rqPop = .ready r) :
    s.vb.queue.readQueue.cell r ≠ none := by
  intro h
  have hok := inv.rqPop
  rw [hr] at hok
  have hlive := PopView.live_ready hok
  rw [h] at hlive
  refine inv.none_notMem ?_
  simp [Threads.handles, Threads.rqLive, hr, hlive]

/-- A thread that has copied a handle out of the read queue holds that block. -/
theorem rqTaken_le (s : Threads α) (hp : s.producer.rqPop.taken = 0) :
    s.rqPop.taken ≤ s.consumer.holds.length := by
  unfold Threads.rqPop
  cases s.vb.bufferMode with
  | circularBuffer => simp [hp]
  | producerConsumer => cases s.consumer <;> simp [Consumer.rqPop, Consumer.holds, PopView.taken]

/-- While the producer holds two blocks, the read queue has room for one. -/
theorem rq_room (inv : Owned s) (hp : s.producer.rqPop.taken = 0)
    (h2 : s.producerHolds.length = 2) :
    s.vb.queue.readQueue.content.length + 1 < NUM_BLOCKS + 1 := by
  have hl := inv.length_handles
  have ht := rqTaken_le s hp
  have hc := PopView.length_content_eq inv.rqPop
  simp only [Threads.rqLive] at hl
  omega

theorem producerHolds_pos (s : Threads α) : 0 < s.producerHolds.length := by
  unfold Threads.producerHolds Producer.holds
  split <;> simp

/-- While the consumer holds a block, the write queue has room for one. -/
theorem wq_room (inv : Owned s) (h1 : s.consumer.holds.length = 1) :
    s.vb.queue.writeQueue.content.length + 1 < NUM_BLOCKS + 1 := by
  have hl := inv.length_handles
  have hc := PopView.length_content_eq inv.wqPop
  have hp := inv.pooled
  have h0 := producerHolds_pos s
  simp only [Threads.wqLive] at hl
  omega

end Owned

/-- What is asked of the first state: a pool, a current block and empty queues. -/
theorem Owned.start (vb : VariableBuffer α) (hq : vb.queue.readQueue.content = [])
    (hw : vb.queue.writeQueue.content = [])
    (hp : (vb.queue.blockPool ++ [some vb.currentBlock]).Perm allBlocks) :
    Owned ⟨vb, .idle, .idle⟩ := by
  have hmode : Threads.rqPop (⟨vb, .idle, .idle⟩ : Threads α) = .idle := by
    unfold Threads.rqPop
    cases vb.bufferMode <;> rfl
  refine ⟨?_, trivial, hmode ▸ trivial, trivial, trivial, Nat.zero_le _, ⟨rfl, rfl⟩,
    fun _ => ⟨rfl, hw⟩, nofun, trivial⟩
  simpa [Threads.handles, Threads.rqLive, Threads.wqLive, Threads.producerHolds, hmode,
    Producer.holds, Producer.wqPop, Consumer.holds, hq, hw] using hp

end XBot
