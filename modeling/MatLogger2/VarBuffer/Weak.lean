import MatLogger2.Lib.HappensBefore
import MatLogger2.Lib.WeakRing
import MatLogger2.VarBuffer.Histories

/-! The two threads of a variable on a machine that may show them old indices. The indices of the
queues are stored with release and loaded in the order that `ringbuffer_base` asks for; ring
cells and blocks are plain data. A thread steps as before, but the index of the other thread that
it loads is any that it may see. -/

namespace XBot

open Spsc Transition RelAcq

variable {α : Type}

inductive Queue
  | readQueue
  | writeQueue
  deriving DecidableEq

inductive Side
  | write
  | read
  deriving DecidableEq

/-- `write_index_` or `read_index_` of a queue. -/
structure Loc where
  queue : Queue
  side : Side
  deriving DecidableEq

inductive Datum
  | cell (queue : Queue) (i : Index)
  | block (b : BlockId)
  deriving DecidableEq

def Queue.pusher : Queue → Thread
  | .readQueue => .producer
  | .writeQueue => .consumer

def Queue.popper : Queue → Thread
  | .readQueue => .consumer
  | .writeQueue => .producer

def Loc.writer (l : Loc) : Thread :=
  match l.side with
  | .write => l.queue.pusher
  | .read => l.queue.popper

abbrev MemOp := Op Loc Datum Index

abbrev Mem := RelAcq.Memory Thread Loc Datum Index

def QueueImpl.ring (queue : QueueImpl) : Queue → LockfreeQueue
  | .readQueue => queue.readQueue
  | .writeQueue => queue.writeQueue

def QueueImpl.index (queue : QueueImpl) (l : Loc) : Index :=
  match l.side with
  | .write => (queue.ring l.queue).write
  | .read => (queue.ring l.queue).read

def QueueImpl.setIndex (queue : QueueImpl) (l : Loc) (i : Index) : QueueImpl :=
  match l with
  | ⟨.readQueue, .write⟩ => { queue with readQueue := { queue.readQueue with write := i } }
  | ⟨.readQueue, .read⟩ => { queue with readQueue := { queue.readQueue with read := i } }
  | ⟨.writeQueue, .write⟩ => { queue with writeQueue := { queue.writeQueue with write := i } }
  | ⟨.writeQueue, .read⟩ => { queue with writeQueue := { queue.writeQueue with read := i } }

def Act.thread : Act α → Thread
  | .callAddElem _ | .callFlushToQueue | .producer => .producer
  | .callReadBlock | .consumer => .consumer

namespace Threads

variable (s : Threads α)

def setIndex (l : Loc) (i : Index) : Threads α :=
  { s with vb := { s.vb with queue := s.vb.queue.setIndex l i } }

/-- The index of the other thread that the next step loads, and whether with acquire. -/
def loads : Act α → Option (Loc × Bool)
  | .producer =>
    match s.producer with
    | .flushing _ (.infoRead _) => some (⟨.readQueue, .read⟩, false)
    | .flushing _ (.allWrite _) => some (⟨.writeQueue, .write⟩, true)
    | .flushing _ (.pushRead _ _ _) => some (⟨.readQueue, .read⟩, true)
    | _ => none
  | .consumer =>
    match s.consumer with
    | .popWrite => some (⟨.readQueue, .write⟩, true)
    | .pushRead _ _ _ _ => some (⟨.writeQueue, .read⟩, true)
    | _ => none
  | _ => none

/-- The index that the next step stores. -/
def stores : Act α → Option Loc
  | .producer =>
    match s.producer with
    | .flushing _ (.allCopy _ _ _ []) => some ⟨.writeQueue, .read⟩
    | .flushing _ (.pushStore _ _ _) => some ⟨.readQueue, .write⟩
    | _ => none
  | .consumer =>
    match s.consumer with
    | .popStore _ _ => some ⟨.readQueue, .read⟩
    | .pushStore _ _ _ _ => some ⟨.writeQueue, .write⟩
    | _ => none
  | _ => none

/-- The cell or block that the next step reads or writes. -/
def touches : Act α → Option Datum
  | .producer =>
    match s.producer with
    | .adding data =>
      if data.size = s.vb.rows * s.vb.cols then some (.block s.vb.currentBlock) else none
    | .flushing _ .check | .flushing _ (.infoRead _) => some (.block s.vb.currentBlock)
    | .flushing _ (.allCopy _ _ _ (i :: _)) => some (.cell .writeQueue i)
    | .flushing _ (.takeBlock _) => s.vb.queue.blockPool.getLast?.join.map .block
    | .flushing _ (.pushCopy _ _ w) => some (.cell .readQueue w)
    | .resetting _ _ => some (.block s.vb.currentBlock)
    | _ => none
  | .consumer =>
    match s.consumer with
    | .popCopy r => some (.cell .readQueue r)
    | .copyData b | .copyValid b _ | .reset b _ _ => some (.block b)
    | .pushCopy _ _ _ w => some (.cell .writeQueue w)
    | _ => none
  | _ => none

/-- A step that finds the value `i` in the index `l`, which it does not store. -/
def stepSeeing (l : Loc) (i : Index) (a : Act α) : Option (Threads α × List (Event α)) :=
  ((s.setIndex l i).step a).map fun p => (p.1.setIndex l (s.vb.queue.index l), p.2)

end Threads

structure Weak (α : Type) where
  threads : Threads α
  mem : Mem

/-- What a caller sees, or what a thread does to the shared memory. -/
abbrev WeakEvent (α : Type) := Event α ⊕ Thread × MemOp

def shownEvents (tr : List (WeakEvent α)) : List (Event α) := tr.filterMap Sum.getLeft?

def memOps (tr : List (WeakEvent α)) : RelAcq.Trace Thread Loc Datum Index := tr.filterMap Sum.getRight?

def performAll (t : Thread) (m : Mem) (ops : List MemOp) : Option Mem :=
  ops.foldlM (fun m o => m.perform Loc.writer t o) m

section Perform

variable {t : Thread} {m m' : Mem} {o o' : MemOp}

theorem performAll_nil : performAll t m [] = some m' ↔ m = m' := Option.some_inj

theorem performAll_cons {ops : List MemOp} : performAll t m (o :: ops) = some m' ↔
    ∃ m₁, m.perform Loc.writer t o = some m₁ ∧ performAll t m₁ ops = some m' := by
  simp [performAll, List.foldlM_cons, Option.bind_eq_some_iff]

theorem performAll_singleton :
    performAll t m [o] = some m' ↔ m.perform Loc.writer t o = some m' := by
  simp [performAll_cons, performAll_nil]

end Perform

namespace Weak

/-- What a step does to the threads, and to the memory. If it loads an index of the other
thread, it sees the `n`-th store of it. -/
def act (s : Weak α) (a : Act α) (n : ℕ) : Option ((Threads α × List (Event α)) × List MemOp) :=
  let touch := (s.threads.touches a).toList.map Op.touch
  match s.threads.loads a with
  | some (l, acquire) =>
    (s.mem.visible Loc.writer a.thread l n).bind fun store =>
      (s.threads.stepSeeing l store.value a).map fun p => (p, touch ++ [.load l n acquire])
  | none =>
    (s.threads.step a).map fun p =>
      (p, touch ++ (s.threads.stores a).toList.map fun l => .store l (p.1.vb.queue.index l))

def step (s : Weak α) (a : Act α × ℕ) : Option (Weak α × List (WeakEvent α)) :=
  (s.act a.1 a.2).bind fun (p, ops) =>
    (performAll a.1.thread s.mem ops).map fun mem =>
      (⟨p.1, mem⟩, p.2.map .inl ++ ops.map fun o => .inr (a.1.thread, o))

/-- Nothing has been shared before the threads are started. -/
def start (s : Threads α) : Weak α := ⟨s, .start s.vb.queue.index⟩

end Weak

theorem Weak.step_eq_some {s s' : Weak α} {a : Act α} {n : ℕ} {es : List (WeakEvent α)}
    (h : s.step (a, n) = some (s', es)) : ∃ evs ops, s.act a n = some ((s'.threads, evs), ops) ∧
      performAll a.thread s.mem ops = some s'.mem ∧ shownEvents es = evs ∧
      memOps es = ops.map fun o => (a.thread, o) := by
  simp only [Weak.step, Option.bind_eq_some_iff, Option.map_eq_some_iff] at h
  obtain ⟨⟨⟨threads, evs⟩, ops⟩, hact, mem, hmem, he⟩ := h
  obtain ⟨rfl, rfl⟩ := Prod.mk.inj he
  refine ⟨evs, ops, hact, hmem, ?_, ?_⟩
  · simp [shownEvents, List.filterMap_append, List.filterMap_map, Function.comp_def]
  · simp [memOps, List.filterMap_append, List.filterMap_map, Function.comp_def]

/-- The threads of a variable in `producer_consumer` mode under release and acquire. -/
def weakThreads (α : Type) (rows cols b : ℕ) : System (Weak α) (WeakEvent α) where
  init s := ∃ t, (threads α rows cols b .producerConsumer).init t ∧ s = .start t
  step s es s' := ∃ a, s.step a = some (s', es)

end XBot
