import MatLogger2.Logger.Destructor
import MatLogger2.VarBuffer.Shapes

/-! A logger in `producer_consumer` mode that two threads share, as it is meant to be: one
calls `create`, `add`, `save` and `flush_to_queue_all`, the other `flush_available_data`. A step
is one of the variable that the thread is at, or a stretch of code under a mutex. -/

namespace XBot

open VariableBuffer Transition

variable {α : Type}

/-- Where the producer thread is. -/
inductive User (α : Type)
  | outside
  | add (name : StdString) (p : Producer α)
  | flushToQueueAll (todo : List StdString) (ret : Bool) (p : Producer α)

/-- Where the consumer thread is in `flush_available_data`. -/
inductive Flusher (α : Type)
  | outside
  /-- It holds the mutex of the queue of containers. -/
  | containers
  | lockVars
  /-- It holds the mutex of the variables. -/
  | vars (todo : List StdString) (bytes : ℤ) (c : Consumer α)

/-- Where the thread is inside a call of the variable of that name. -/
def User.inside (name : StdString) : User α → Producer α
  | .add n p => if n = name then p else .idle
  | .flushToQueueAll (n :: _) _ p => if n = name then p else .idle
  | .flushToQueueAll [] _ _ | .outside => .idle

def Flusher.inside (name : StdString) : Flusher α → Consumer α
  | .vars (n :: _) _ c => if n = name then c else .idle
  | .vars [] _ _ | .outside | .containers | .lockVars => .idle

def Flusher.locksVars : Flusher α → Bool
  | .vars _ _ _ => true
  | _ => false

structure Shared (α : Type) where
  logger : MatLogger2 α
  user : User α
  flusher : Flusher α

/-- What the threads show: the steps inside the calls of a variable, and what the calls of the
logger return. -/
inductive LoggerEvent (α : Type)
  | var (name : StdString) (e : Event α)
  | created (varName : StdString) (ok : Bool)
  | refused (varName : StdString) (data : Eigen.MatrixXd α)
  | saved (varName : StdString) (varData : MatData α)
  | flushedAll (ret : Bool)
  | flushed (bytes : ℤ)

namespace Shared

def threads (s : Shared α) (name : StdString) (vb : VariableBuffer α) : Threads α :=
  ⟨vb, s.user.inside name, s.flusher.inside name⟩

inductive Act (α : Type)
  | create (mem : Allocator α) (varName : StdString) (rows cols bufferSize : ℤ)
  | callAdd (mem : Allocator α) (varName : StdString) (data : Eigen.MatrixXd α)
  | save (varName : StdString) (varData : MatData α)
  | callFlushToQueueAll (order : List StdString)
  | user
  | callFlushAvailableData
  /-- `order` is that in which the loop is going to visit the map, should it start now. -/
  | flusher (order : List StdString)

/-- `create` waits for the mutex of the variables when it has found its arguments in order. -/
def create (s : Shared α) (mem : Allocator α) (varName : StdString) (rows cols : ℤ)
    (bufferSize : ℤ := -1) : Option (MatLogger2 α × Bool) :=
  if s.flusher.locksVars ∧ 0 < rows ∧ 0 < cols ∧
      0 < MatLogger2.bufferSizeFor s.logger.opt rows cols bufferSize then none
  else s.logger.create mem varName rows cols bufferSize

/-- `add` up to its call of `add_elem`. -/
def callAdd (s : Shared α) (mem : Allocator α) (varName : StdString) (data : Eigen.MatrixXd α) :
    Option (Shared α × List (LoggerEvent α)) :=
  match s.logger.find varName with
  | some _ => some ({ s with user := .add varName (.adding data) }, [])
  | none =>
    (s.create mem varName (toInt data.rows) (toInt data.cols)).map fun r =>
      if r.2 then ({ s with logger := r.1, user := .add varName (.adding data) }, [])
      else ({ s with logger := r.1 }, [.refused varName data])

/-- A step of one thread at the variable of that name. -/
def varStep (s : Shared α) (name : StdString) (a : XBot.Act α) :
    Option (Threads α × List (Event α)) :=
  (s.logger.find name).bind fun vb => (s.threads name vb).step a

/-- Where `add` is when `add_elem` has made a step. -/
def afterAdd (name : StdString) : Producer α → User α
  | .idle => .outside
  | p => .add name p

def flushedTrue (es : List (Event α)) : Bool :=
  es.all fun e => match e with
    | .flushed ok => ok
    | _ => true

/-- The same for the loop of `flush_to_queue_all`. -/
def afterFlushToQueue (name : StdString) (todo : List StdString) (ret ok : Bool) :
    Producer α → User α
  | .idle => .flushToQueueAll todo (ok && ret) .idle
  | p => .flushToQueueAll (name :: todo) ret p

def userStep (s : Shared α) : Option (Shared α × List (LoggerEvent α)) :=
  match s.user with
  | .outside => none
  | .add name _ =>
    (s.varStep name .producer).map fun (t, es) =>
      ({ s with logger := s.logger.update name t.vb, user := afterAdd name t.producer },
        es.map (.var name))
  | .flushToQueueAll [] ret _ => some ({ s with user := .outside }, [.flushedAll ret])
  | .flushToQueueAll (name :: todo) ret p =>
    let a := match p with
      | .idle => .callFlushToQueue
      | _ => .producer
    (s.varStep name a).map fun (t, es) =>
      ({ s with
        logger := s.logger.update name t.vb
        user := afterFlushToQueue name todo ret (flushedTrue es) t.producer },
        es.map (.var name))

/-- What the loop over the variables does when `read_block` has made a step: a block is written
at once, and the loop goes on when there is none. -/
def afterRead (s : Shared α) (name : StdString) (todo : List StdString) (bytes : ℤ)
    (t : Threads α) : List (ReadResult α) → Shared α
  | [] =>
    { s with
      logger := s.logger.update name t.vb
      flusher := .vars (name :: todo) bytes t.consumer }
  | ⟨none, _⟩ :: _ => { s with logger := s.logger.update name t.vb, flusher := .vars todo bytes .idle }
  | ⟨some block, valid⟩ :: _ =>
    if valid > 0 then
      { s with
        logger := { s.logger.update name t.vb with
          backend := s.logger.backend ++ [MatLogger2.writeCall t.vb block valid] }
        flusher := .vars (name :: todo) (toInt (bytes + t.vb.rows * t.vb.cols * valid * 8)) .idle }
    else { s with logger := s.logger.update name t.vb, flusher := .vars todo bytes .idle }

def flusherStep (s : Shared α) (order : List StdString) :
    Option (Shared α × List (LoggerEvent α)) :=
  match s.flusher with
  | .outside => none
  | .containers =>
    match s.logger.matdataQueue with
    | [] => some ({ s with flusher := .lockVars }, [])
    | (name, data) :: rest =>
      some ({ s with
        logger := { s.logger with
          matdataQueue := rest
          backend := s.logger.backend ++ [.writeContainer name data] } }, [])
  | .lockVars =>
    if order.Perm (s.logger.vars.map Prod.fst) then
      some ({ s with flusher := .vars order 0 .idle }, [])
    else none
  | .vars [] bytes _ => some ({ s with flusher := .outside }, [.flushed bytes])
  | .vars (name :: todo) bytes c =>
    let a := match c with
      | .idle => .callReadBlock
      | _ => .consumer
    (s.varStep name a).map fun (t, es) =>
      (s.afterRead name todo bytes t (readResults es), es.map (.var name))

/-- A thread enters a call when it is in none, and a mutex when the other thread is not in it. -/
def step (s : Shared α) : Act α → Option (Shared α × List (LoggerEvent α))
  | .create mem varName rows cols bufferSize =>
    match s.user with
    | .outside =>
      (s.create mem varName rows cols bufferSize).map fun r =>
        ({ s with logger := r.1 }, [.created varName r.2])
    | _ => none
  | .callAdd mem varName data =>
    match s.user with
    | .outside => s.callAdd mem varName data
    | _ => none
  | .save varName varData =>
    match s.user, s.flusher with
    | .outside, .containers => none
    | .outside, _ => some ({ s with logger := (s.logger.save varName varData).1 },
        [.saved varName varData])
    | _, _ => none
  | .callFlushToQueueAll order =>
    match s.user with
    | .outside =>
      if order.Perm (s.logger.vars.map Prod.fst) then
        some ({ s with user := .flushToQueueAll order true .idle }, [])
      else none
    | _ => none
  | .user => s.userStep
  | .callFlushAvailableData =>
    match s.flusher with
    | .outside => some ({ s with flusher := .containers }, [])
    | _ => none
  | .flusher order => s.flusherStep order

/-- A new logger, with the callback that an appender may have given it. -/
def start (opt : Options) (callback : Bool) : Shared α where
  logger := (MatLogger2.make opt).setOnDataAvailableCallback callback
  user := .outside
  flusher := .outside

end Shared

/-- The two threads in any interleaving of their steps. -/
def shared (α : Type) (opt : Options) : System (Shared α) (LoggerEvent α) where
  init s := ∃ callback, s = Shared.start opt callback
  step s es s' := ∃ a, s.step a = some (s', es)

/-- The steps inside the calls of one variable. -/
def LoggerEvent.at (name : StdString) : LoggerEvent α → Option (Event α)
  | .var n e => if n = name then some e else none
  | _ => none

def eventsAt (name : StdString) (tr : List (LoggerEvent α)) : List (Event α) :=
  tr.filterMap (LoggerEvent.at name)

def LoggerEvent.save : LoggerEvent α → Option (StdString × MatData α)
  | .saved varName varData => some (varName, varData)
  | _ => none

def savedBefore (tr : List (LoggerEvent α)) : List (StdString × MatData α) :=
  tr.filterMap LoggerEvent.save

section Events

variable (name : StdString) (tr es : List (LoggerEvent α))

theorem eventsAt_append : eventsAt name (tr ++ es) = eventsAt name tr ++ eventsAt name es :=
  List.filterMap_append

theorem savedBefore_append : savedBefore (tr ++ es) = savedBefore tr ++ savedBefore es :=
  List.filterMap_append

variable (evs : List (Event α))

theorem eventsAt_self : eventsAt name (evs.map (.var name)) = evs := by
  simp [eventsAt, List.filterMap_map, Function.comp_def, LoggerEvent.at]

theorem eventsAt_other {other : StdString} (h : other ≠ name) :
    eventsAt name (evs.map (.var other)) = [] := by
  simp [eventsAt, List.filterMap_map, Function.comp_def, LoggerEvent.at, h]

theorem savedBefore_var : savedBefore (evs.map (LoggerEvent.var name)) = [] := by
  simp [savedBefore, List.filterMap_map, Function.comp_def, LoggerEvent.save]

end Events

/-- The valid blocks that `read_block` has returned. -/
def readBlocks (es : List (Event α)) : List (List (List α)) :=
  ((readResults es).filter ReadResult.ret).map ReadResult.samples

theorem readBlocks_append (es es' : List (Event α)) :
    readBlocks (es ++ es') = readBlocks es ++ readBlocks es' := by
  simp only [readBlocks, readResults_append, List.filter_append, List.map_append]

theorem flatten_readBlocks (es : List (Event α)) : (readBlocks es).flatten = delivered es := by
  induction es with
  | nil => rfl
  | cons e es ih =>
    have happend : readBlocks (e :: es) = readBlocks [e] ++ readBlocks es := readBlocks_append [e] es
    have hdel : delivered (e :: es) = delivered [e] ++ delivered es := delivered_append [e] es
    rw [happend, hdel, List.flatten_append, ih]
    congr 1
    cases e with
    | read r =>
      have hr : delivered [(Event.read r : Event α)] = r.samples := List.append_nil _
      rw [hr]
      by_cases h : r.ret = true
      · simp [readBlocks, readResults, Event.result, h]
      · have hzero : r.validElements = 0 := by simpa [ReadResult.ret] using h
        simp [readBlocks, readResults, Event.result, h, ReadResult.samples, hzero]
    | _ => rfl

end XBot
