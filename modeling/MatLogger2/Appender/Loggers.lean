import MatLogger2.Appender.Roomy

/-! An appender with its loggers, all in `producer_consumer` mode: producers add samples to the
variables of the loggers, threads call `add_logger`, and the flusher reads from each variable of
each live logger in turn. The appender outlives the run. What the flusher writes to files has no
part here. -/

namespace XBot

open Transition

abbrev LoggerId := ℕ

/-- A variable, by its logger and its name. -/
abbrev VarId := LoggerId × StdString

/-- Where the flusher is in `flush_available_data_all`. It holds the mutex of the list of loggers
but at the start. -/
inductive FlushAllPc
  | start
  | loggers (todo : List LoggerId)
  /-- In `flush_available_data` of a logger, which is kept alive and holds the mutex of its
  variables. -/
  | logger (l : LoggerId) (vars : List StdString) (todo : List LoggerId)

/-- Where the thread inside `add_logger` is, which holds the mutex of the list of loggers. -/
inductive AddLoggerPc
  | idle
  /-- In `set_on_data_available_callback`, which holds the mutex of the variables. -/
  | setCallback (l : LoggerId) (todo : List StdString)
  | emplaceBack (l : LoggerId)
  deriving DecidableEq

/-- `vars l` has the names of the variables of a logger in the order in which a loop visits them,
which may be another one when there is a new variable. A logger that is not alive has been destructed. -/
structure Logging (α : Type) where
  appender : MatAppender VarId
  loggers : List LoggerId
  flushAll : FlushAllPc
  addLogger : AddLoggerPc
  alive : LoggerId → Bool
  onBlockAvailable : LoggerId → Bool
  vars : LoggerId → List StdString
  var : VarId → Option (Threads α)

/-- The flusher has left its pass, and has not reset the flag. -/
def FlusherPc.passed : FlusherPc → Bool
  | .lock | .test | .waiting _ => true
  | _ => false

namespace FlushAllPc

/-- The pass still comes to that variable. -/
def ahead : FlushAllPc → VarId → Prop
  | .start, _ => True
  | .loggers todo, id => id.1 ∈ todo
  | .logger l vars todo, id => id.1 = l ∧ id.2 ∈ vars ∨ id.1 ∈ todo

def keeps : FlushAllPc → LoggerId → Bool
  | .logger l _ _, l' => l == l'
  | _, _ => false

end FlushAllPc

namespace AddLoggerPc

def keeps : AddLoggerPc → LoggerId → Bool
  | .setCallback l _, l' | .emplaceBack l, l' => l == l'
  | .idle, _ => false

def holdsVars : AddLoggerPc → LoggerId → Bool
  | .setCallback l _, l' => l == l'
  | _, _ => false

end AddLoggerPc

namespace Logging

variable {α : Type}

def make : Logging α where
  appender := MatAppender.make
  loggers := []
  flushAll := .start
  addLogger := .idle
  alive _ := true
  onBlockAvailable _ := false
  vars _ := []
  var _ := none

def setVar (s : Logging α) (id : VarId) (t : Threads α) : Logging α :=
  { s with var := Function.update s.var id (some t) }

/-- The flusher or a caller of `add_logger` has a pointer to the logger. -/
def kept (s : Logging α) (l : LoggerId) : Bool := s.flushAll.keeps l || s.addLogger.keeps l

def varsLocked (s : Logging α) (l : LoggerId) : Bool :=
  s.flushAll.keeps l || s.addLogger.holdsVars l

inductive Act (α : Type)
  | startFlushThread
  | flusher
  | notifier (id : VarId)
  | create (l : LoggerId) (name : StdString) (order : List StdString) (rows cols blockSize : ℕ)
      (hb : 0 < blockSize) (storage : BlockId → Memory α (rows * cols) blockSize)
  | add (id : VarId) (data : Eigen.MatrixXd α)
  | producer (id : VarId)
  | callAddLogger (l : LoggerId)
  | addLogger
  | destruct (l : LoggerId)

/-- `create` once it has found its arguments in order: the new variable is given the callback of
its logger. -/
def create (s : Logging α) (l : LoggerId) (name : StdString) (order : List StdString)
    (t : Bool → Threads α) : Option (Logging α) :=
  if s.alive l ∧ ¬ s.varsLocked l ∧ s.var (l, name) = none ∧ order.Perm (name :: s.vars l) then
    some { s.setVar (l, name) (t (s.onBlockAvailable l)) with
      vars := Function.update s.vars l order }
  else none

/-- A producer that is not inside the callback makes a step, which may be to call it. -/
def produce (s : Logging α) (id : VarId) (a : XBot.Act α) : Option (Logging α) :=
  match s.var id, s.appender.notifier id with
  | some t, .idle =>
    if s.alive id.1 then
      (t.step a).map fun (t, es) =>
        { s.setVar id t with appender := s.appender.setNotifier id (called es) }
    else none
  | _, _ => none

/-- The caller of `add_logger` has a pointer to the logger. One that is registered is refused. -/
def callAddLogger (s : Logging α) (l : LoggerId) : Option (Logging α) :=
  match s.flushAll, s.addLogger with
  | .start, .idle =>
    if s.alive l = false then none
    else if l ∈ s.loggers then some s
    else some { s with addLogger := .setCallback l (s.vars l) }
  | _, _ => none

def addLoggerStep (s : Logging α) : Option (Logging α) :=
  match s.addLogger with
  | .idle => none
  | .setCallback l (name :: todo) =>
    (s.var (l, name)).map fun t =>
      { s.setVar (l, name) { t with vb := t.vb.setOnBlockAvailable true } with
        addLogger := .setCallback l todo }
  | .setCallback l [] =>
    some { s with
      onBlockAvailable := Function.update s.onBlockAvailable l true
      addLogger := .emplaceBack l }
  | .emplaceBack l => some { s with loggers := s.loggers ++ [l], addLogger := .idle }

/-- `while(read_block(..))` for one variable, a step at a time. -/
def readVar (s : Logging α) (l : LoggerId) (name : StdString) (vars : List StdString)
    (todo : List LoggerId) : Option (Logging α) :=
  match s.var (l, name) with
  | none => none
  | some t =>
    let a := match t.consumer with
      | .idle => .callReadBlock
      | _ => .consumer
    (t.step a).map fun (t, es) =>
      { s.setVar (l, name) t with
        flushAll := if es.any Loaded.readsNothing then .logger l vars todo
          else .logger l (name :: vars) todo }

/-- One step of `flush_available_data_all`, but for its return. -/
def flushAllStep (s : Logging α) : Option (Logging α) :=
  match s.flushAll with
  | .start =>
    if s.addLogger = .idle then some { s with flushAll := .loggers s.loggers } else none
  | .loggers [] => none
  | .loggers (l :: todo) =>
    if s.alive l then some { s with flushAll := .logger l (s.vars l) todo }
    else some { s with loggers := s.loggers.erase l, flushAll := .loggers todo }
  | .logger _ [] todo => some { s with flushAll := .loggers todo }
  | .logger l (name :: vars) todo => s.readVar l name vars todo

def flusherStep (s : Logging α) : Option (Logging α × List FlusherEvent) :=
  match s.appender.flusher, s.flushAll with
  | .pass, .loggers [] =>
    s.appender.flusherStep.map fun (appender, es) => ({ s with appender, flushAll := .start }, es)
  | .pass, _ => s.flushAllStep.map fun s => (s, [])
  | _, _ => s.appender.flusherStep.map fun (appender, es) => ({ s with appender }, es)

/-- The users have let the last of their pointers to the logger go. -/
def destruct (s : Logging α) (l : LoggerId) : Option (Logging α) :=
  if s.alive l ∧ ¬ s.kept l then some { s with alive := Function.update s.alive l false } else none

def step (s : Logging α) : Act α → Option (Logging α × List FlusherEvent)
  | .startFlushThread =>
    s.appender.startFlushThread.map fun appender => ({ s with appender }, [])
  | .flusher => s.flusherStep
  | .notifier id => (s.appender.notifierStep id).map fun (appender, es) => ({ s with appender }, es)
  | .create l name order rows cols blockSize hb storage =>
    (s.create l name order fun callback => Threads.start name rows cols blockSize hb storage
      .producerConsumer callback).map fun s => (s, [])
  | .add id data => (s.produce id (.callAddElem data)).map fun s => (s, [])
  | .producer id => (s.produce id .producer).map fun s => (s, [])
  | .callAddLogger l => (s.callAddLogger l).map fun s => (s, [])
  | .addLogger => s.addLoggerStep.map fun s => (s, [])
  | .destruct l => (s.destruct l).map fun s => (s, [])

end Logging

/-- An appender and its loggers, in any interleaving of steps that meet `ok`. -/
def logging (α : Type) (ok : Logging α → Logging.Act α → Prop) : System (Logging α) FlusherEvent where
  init s := s = Logging.make
  step s es s' := ∃ a, ok s a ∧ s.step a = some (s', es)

end XBot
