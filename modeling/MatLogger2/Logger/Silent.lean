import MatLogger2.Logger.Flushed

/-! The callback of a logger may be set at any time: but for being called, it changes nothing of
what the threads do. -/

namespace XBot

open VariableBuffer MatLogger2 Transition

variable {α : Type}

def Event.isNotified : Event α → Bool
  | .notified _ => true
  | _ => false

/-- What is shown if there is no callback. -/
def unheard (es : List (Event α)) : List (Event α) := es.filter fun e => !e.isNotified

@[simp] theorem unheard_append (es es' : List (Event α)) :
    unheard (es ++ es') = unheard es ++ unheard es' := List.filter_append _ _

section Unheard

variable (es : List (Event α))

theorem filterMap_unheard {β : Type} {f : Event α → Option β} (hf : ∀ info, f (.notified info) = none) :
    (unheard es).filterMap f = es.filterMap f := by
  rw [unheard, List.filterMap_filter]
  refine List.filterMap_congr fun e _ => ?_
  cases e with
  | notified info => exact (hf info).symm
  | _ => rfl

theorem accepted_unheard : accepted (unheard es) = accepted es := filterMap_unheard es fun _ => rfl

theorem discarded_unheard : discarded (unheard es) = discarded es := filterMap_unheard es fun _ => rfl

theorem readResults_unheard : readResults (unheard es) = readResults es :=
  filterMap_unheard es fun _ => rfl

end Unheard

def Threads.silent (s : Threads α) : Threads α := { s with vb := s.vb.setOnBlockAvailable false }

/-- The outcome of a step of a flush without the callback. -/
def hush (r : VariableBuffer α × FlushNext × List (Event α)) :
    VariableBuffer α × FlushNext × List (Event α) :=
  (r.1.setOnBlockAvailable false, r.2.1, unheard r.2.2)

theorem flushStep_silent (vb : VariableBuffer α) (pc : FlushPc) :
    (vb.setOnBlockAvailable false).flushStep pc = hush (vb.flushStep pc) := by
  obtain ⟨name, rows, cols, mode, block, queue, current, callback⟩ := vb
  cases pc with
  | check =>
    simp only [VariableBuffer.flushStep, VariableBuffer.setOnBlockAvailable]
    rw [apply_ite hush]
    rfl
  | allRead info w =>
    simp only [VariableBuffer.flushStep, VariableBuffer.setOnBlockAvailable]
    rw [apply_ite hush]
    rfl
  | allCopy info r count todo => cases todo <;> rfl
  | takeBlock info =>
    simp only [VariableBuffer.flushStep, VariableBuffer.setOnBlockAvailable]
    cases queue.blockPool.getLast? with
    | none => cases mode <;> rfl
    | some x => cases x <;> rfl
  | popRead info w =>
    simp only [VariableBuffer.flushStep, VariableBuffer.setOnBlockAvailable]
    rw [apply_ite hush]
    rfl
  | popCopy info r =>
    simp only [VariableBuffer.flushStep, VariableBuffer.setOnBlockAvailable]
    cases queue.readQueue.cell r <;> rfl
  | pushRead info i w =>
    simp only [VariableBuffer.flushStep, VariableBuffer.setOnBlockAvailable]
    rw [apply_ite hush]
    rfl
  | callback info => cases callback <;> rfl
  | _ => rfl

theorem unheard_afterFlush (caller : Option (Eigen.MatrixXd α)) (next : FlushNext) :
    unheard (Threads.afterFlush caller next).2 = (Threads.afterFlush caller next).2 := by
  cases next with
  | ret ok => cases caller <;> rfl
  | _ => rfl

/-- A step of the threads, seen without the callback. -/
theorem Threads.silent_step {s s' : Threads α} {a : Act α} {es : List (Event α)}
    (h : s.step a = some (s', es)) : s.silent.step a = some (s'.silent, unheard es) := by
  obtain ⟨vb, p, c⟩ := s
  cases a with
  | callAddElem data => cases p <;> cases h; rfl
  | callFlushToQueue => cases p <;> cases h; rfl
  | producer =>
    cases p with
    | idle => cases h
    | thrown what => cases h
    | crashed => cases h
    | adding data =>
      simp only [Threads.step, Threads.producerStep] at h
      split_ifs at h with hsize
      · cases h
        exact if_pos hsize
      · refine (if_neg hsize).trans ?_
        have hcur : (vb.setOnBlockAvailable false).current = vb.current := rfl
        simp only [silent, hcur]
        cases hadd : vb.current.add data <;> rw [hadd] at h <;> cases h <;> rfl
    | flushing caller pc =>
      have hs : s' = ⟨(vb.flushStep pc : _ × _ × List (Event α)).1,
          (afterFlush caller (vb.flushStep pc : _ × _ × List (Event α)).2.1).1, c⟩ ∧
          es = (vb.flushStep pc : _ × _ × List (Event α)).2.2 ++
            (afterFlush caller (vb.flushStep pc : _ × _ × List (Event α)).2.1).2 := by
        cases h
        exact ⟨rfl, rfl⟩
      obtain ⟨rfl, rfl⟩ := hs
      have hflush := flushStep_silent vb pc
      simp only [silent, Threads.step, Threads.producerStep, hflush]
      rw [unheard_append, unheard_afterFlush]
      rfl
    | resetting data ok => cases h; rfl
  | callReadBlock =>
    cases c with
    | idle =>
      obtain ⟨name, rows, cols, mode, block, queue, current, callback⟩ := vb
      cases mode <;> cases h <;> rfl
    | _ => cases h
  | consumer =>
    obtain ⟨name, rows, cols, mode, block, queue, current, callback⟩ := vb
    cases c with
    | idle => cases h
    | crashed => cases h
    | popRead w =>
      simp only [Threads.step, Threads.consumerStep] at h
      split_ifs at h with hw <;> cases h
      · exact if_pos hw
      · exact if_neg hw
    | popCopy r =>
      simp only [Threads.step, Threads.consumerStep, silent, VariableBuffer.setOnBlockAvailable] at h ⊢
      cases hi : queue.readQueue.cell r <;> rw [hi] at h <;> cases h <;> rfl
    | pushRead i data valid w =>
      simp only [Threads.step, Threads.consumerStep] at h
      split_ifs at h with hw <;> cases h
      · exact if_pos hw
      · exact if_neg hw
    | _ => cases h; rfl

namespace MatLogger2

/-- The logger as it would be without a callback. -/
def silent (s : MatLogger2 α) : MatLogger2 α := s.setOnDataAvailableCallback false

variable (s : MatLogger2 α)

theorem find_silent (name : StdString) :
    s.silent.find name = (s.find name).map fun vb => vb.setOnBlockAvailable false := by
  simp only [find, silent, setOnDataAvailableCallback]
  induction s.vars with
  | nil => rfl
  | cons p vars ih =>
    obtain ⟨n, vb⟩ := p
    rw [List.map_cons, List.lookup_cons, List.lookup_cons]
    cases name == n with
    | true => rfl
    | false => exact ih

theorem update_silent (name : StdString) (vb : VariableBuffer α) :
    (s.update name vb).silent = s.silent.update name (vb.setOnBlockAvailable false) := by
  have hvars : ∀ p : StdString × VariableBuffer α,
      ((if p.1 = name then (p.1, vb) else p).1,
        (if p.1 = name then (p.1, vb) else p).2.setOnBlockAvailable false) =
      if p.1 = name then (p.1, vb.setOnBlockAvailable false)
        else (p.1, p.2.setOnBlockAvailable false) := by
    intro p
    split_ifs <;> rfl
  simp [silent, update, setOnDataAvailableCallback, Function.comp_def, hvars]

theorem create_silent (mem : Allocator α) (varName : StdString) (rows cols bufferSize : ℤ) :
    s.silent.create mem varName rows cols bufferSize =
      (s.create mem varName rows cols bufferSize).map fun r => (r.1.silent, r.2) := by
  have hopt : s.silent.opt = s.opt := rfl
  simp only [create, hopt]
  by_cases h0 : rows = 0 ∨ cols = 0
  · rw [if_pos h0, if_pos h0]
    rfl
  rw [if_neg h0, if_neg h0]
  by_cases hpos : rows > 0 ∧ cols > 0 ∧ bufferSizeFor s.opt rows cols bufferSize > 0
  · rw [if_neg (not_not.mpr hpos), if_neg (not_not.mpr hpos), find_silent]
    cases s.find varName with
    | none =>
      dsimp only [Option.map_none]
      rw [apply_ite (Option.map fun r : MatLogger2 α × Bool => (r.1.silent, r.2))]
      rfl
    | some vb => rfl
  · rw [if_pos hpos, if_pos hpos]
    rfl

theorem silent_setOnDataAvailableCallback (callback : Bool) :
    (s.setOnDataAvailableCallback callback).silent = s.silent := by
  simp [silent, setOnDataAvailableCallback, Function.comp_def, VariableBuffer.setOnBlockAvailable]

theorem destroy_silent (fuel : ℕ) : s.silent.destroy fuel = s.destroy fuel := by
  have hs : s.silent.setOnDataAvailableCallback false = s.setOnDataAvailableCallback false :=
    s.silent_setOnDataAvailableCallback false
  rw [destroy, destroy, hs]

theorem mem_silent {name : StdString} {vb : VariableBuffer α} (h : (name, vb) ∈ s.vars) :
    (name, vb.setOnBlockAvailable false) ∈ s.silent.vars := List.mem_map_of_mem h

@[simp] theorem keys_silent : s.silent.vars.map Prod.fst = s.vars.map Prod.fst := by
  simp [silent, setOnDataAvailableCallback, Function.comp_def]

end MatLogger2

def LoggerEvent.isNotified : LoggerEvent α → Bool
  | .var _ e => e.isNotified
  | _ => false

/-- What a logger shows if it has no callback. -/
def unnotified (es : List (LoggerEvent α)) : List (LoggerEvent α) := es.filter fun e => !e.isNotified

@[simp] theorem unnotified_append (es es' : List (LoggerEvent α)) :
    unnotified (es ++ es') = unnotified es ++ unnotified es' := List.filter_append _ _

@[simp] theorem unnotified_var (name : StdString) (es : List (Event α)) :
    unnotified (es.map (.var name)) = (unheard es).map (.var name) := by
  simp [unnotified, unheard, List.filter_map, Function.comp_def, LoggerEvent.isNotified]

section Unnotified

variable (es : List (LoggerEvent α))

theorem eventsAt_unnotified (name : StdString) :
    eventsAt name (unnotified es) = unheard (eventsAt name es) := by
  rw [eventsAt, eventsAt, unnotified, unheard, List.filterMap_filter, List.filter_filterMap]
  refine List.filterMap_congr fun e _ => ?_
  cases e with
  | var n e =>
    by_cases hn : n = name
    · simp only [LoggerEvent.at, if_pos hn]
      cases e <;> rfl
    · simp [LoggerEvent.at, hn]
  | _ => rfl

theorem savedBefore_unnotified : savedBefore (unnotified es) = savedBefore es := by
  rw [savedBefore, savedBefore, unnotified, List.filterMap_filter]
  refine List.filterMap_congr fun e _ => ?_
  cases e with
  | var n e => simp [LoggerEvent.save]
  | _ => rfl

theorem flushed_unnotified {bytes : ℤ} (h : .flushed bytes ∈ es) : .flushed bytes ∈ unnotified es :=
  List.mem_filter.mpr ⟨h, rfl⟩

end Unnotified

namespace Shared

def silent (s : Shared α) : Shared α := { s with logger := s.logger.silent }

variable {s s' : Shared α} {es : List (LoggerEvent α)}

theorem flushedTrue_unheard (es : List (Event α)) : flushedTrue (unheard es) = flushedTrue es := by
  induction es with
  | nil => rfl
  | cons e es ih =>
    cases e with
    | flushed ok => exact congrArg (ok && ·) ih
    | _ => exact ih

theorem varStep_silent {name : StdString} {a : XBot.Act α} {t : Threads α} {es : List (Event α)}
    (h : s.varStep name a = some (t, es)) :
    s.silent.varStep name a = some (t.silent, unheard es) := by
  obtain ⟨vb, hf, hstep⟩ := Option.bind_eq_some_iff.mp h
  have hfind : s.silent.logger.find name = some (vb.setOnBlockAvailable false) := by
    rw [silent, find_silent, hf, Option.map_some]
  rw [varStep, hfind]
  exact Threads.silent_step hstep

theorem create_silent (mem : Allocator α) (varName : StdString) (rows cols bufferSize : ℤ) :
    s.silent.create mem varName rows cols bufferSize =
      (s.create mem varName rows cols bufferSize).map fun r => (r.1.silent, r.2) := by
  have hopt : s.silent.logger.opt = s.logger.opt := rfl
  have hf : s.silent.flusher = s.flusher := rfl
  rw [create, create, hopt, hf, apply_ite (Option.map fun r : MatLogger2 α × Bool => (r.1.silent, r.2))]
  exact if_congr .rfl rfl (s.logger.create_silent mem varName rows cols bufferSize)

theorem callAdd_silent {mem : Allocator α} {varName : StdString} {data : Eigen.MatrixXd α}
    (h : s.callAdd mem varName data = some (s', es)) :
    s.silent.callAdd mem varName data = some (s'.silent, unnotified es) := by
  have hfind : s.silent.logger.find varName =
      (s.logger.find varName).map fun vb => vb.setOnBlockAvailable false := s.logger.find_silent varName
  rw [callAdd] at h ⊢
  cases hf : s.logger.find varName with
  | some vb =>
    rw [hf] at h hfind
    cases h
    rw [hfind]
    rfl
  | none =>
    rw [hf] at h hfind
    rw [hfind, create_silent]
    obtain ⟨⟨l, ok⟩, hc, he⟩ := Option.map_eq_some_iff.mp h
    rw [hc]
    cases ok with
    | true =>
      cases he
      rfl
    | false =>
      cases he
      rfl

theorem update_silent (name : StdString) (t : Threads α) :
    (s.logger.update name t.vb).silent = s.silent.logger.update name t.silent.vb :=
  s.logger.update_silent name t.vb

theorem userStep_silent (h : s.userStep = some (s', es)) :
    s.silent.userStep = some (s'.silent, unnotified es) := by
  have hu : s.silent.user = s.user := rfl
  rw [userStep] at h ⊢
  rw [hu]
  cases hs : s.user with
  | outside =>
    rw [hs] at h
    cases h
  | add name p =>
    simp only [hs] at h ⊢
    obtain ⟨⟨t, evs⟩, hv, he⟩ := Option.map_eq_some_iff.mp h
    cases he
    simp only [varStep_silent hv, unnotified_var, Option.map_some, ← update_silent]
    rfl
  | flushToQueueAll todo ret p =>
    cases todo with
    | nil =>
      simp only [hs] at h ⊢
      cases h
      rfl
    | cons name todo =>
      simp only [hs] at h ⊢
      obtain ⟨⟨t, evs⟩, hv, he⟩ := Option.map_eq_some_iff.mp h
      cases he
      simp only [varStep_silent hv, unnotified_var, Option.map_some, ← update_silent,
        flushedTrue_unheard]
      rfl

theorem afterRead_silent (name : StdString) (todo : List StdString) (bytes : ℤ) (t : Threads α)
    (rs : List (ReadResult α)) :
    s.silent.afterRead name todo bytes t.silent rs = (s.afterRead name todo bytes t rs).silent := by
  have hupd := update_silent (s := s) name t
  cases rs with
  | nil =>
    simp only [afterRead, ← hupd]
    rfl
  | cons r rs =>
    obtain ⟨data, valid⟩ := r
    cases data with
    | none =>
      simp only [afterRead, ← hupd]
      rfl
    | some block =>
      simp only [afterRead, ← hupd]
      split_ifs <;> rfl

theorem flusherStep_silent {order : List StdString} (h : s.flusherStep order = some (s', es)) :
    s.silent.flusherStep order = some (s'.silent, unnotified es) := by
  have hf : s.silent.flusher = s.flusher := rfl
  rw [flusherStep] at h ⊢
  rw [hf]
  cases hs : s.flusher with
  | outside =>
    rw [hs] at h
    cases h
  | containers =>
    have hq' : s.silent.logger.matdataQueue = s.logger.matdataQueue := rfl
    cases hq : s.logger.matdataQueue with
    | nil =>
      simp only [hs, hq, hq'] at h ⊢
      cases h
      rfl
    | cons p rest =>
      simp only [hs, hq, hq'] at h ⊢
      cases h
      rfl
  | lockVars =>
    have hkeys : s.silent.logger.vars.map Prod.fst = s.logger.vars.map Prod.fst := s.logger.keys_silent
    simp only [hs, hkeys] at h ⊢
    split_ifs at h with horder
    cases h
    exact if_pos horder
  | vars todo bytes c =>
    cases todo with
    | nil =>
      simp only [hs] at h ⊢
      cases h
      rfl
    | cons name todo =>
      simp only [hs] at h ⊢
      obtain ⟨⟨t, evs⟩, hv, he⟩ := Option.map_eq_some_iff.mp h
      cases he
      simp only [varStep_silent hv, unnotified_var, Option.map_some, readResults_unheard,
        afterRead_silent]

theorem filling_silent (name : StdString) (vb : VariableBuffer α) :
    (s.silent.threads name (vb.setOnBlockAvailable false)).filling = (s.threads name vb).filling := rfl

/-- A step of the two threads, seen without the callback. -/
theorem silent_step {a : Act α} (h : s.step a = some (s', es)) :
    s.silent.step a = some (s'.silent, unnotified es) := by
  have hu : s.silent.user = s.user := rfl
  have hf : s.silent.flusher = s.flusher := rfl
  have hkeys : s.silent.logger.vars.map Prod.fst = s.logger.vars.map Prod.fst := s.logger.keys_silent
  cases a with
  | create mem varName rows cols bufferSize =>
    simp only [step, hu] at h ⊢
    cases hs : s.user with
    | outside =>
      simp only [hs] at h ⊢
      rw [create_silent]
      obtain ⟨r, hc, he⟩ := Option.map_eq_some_iff.mp h
      cases he
      rw [hc]
      rfl
    | _ => simp only [hs, reduceCtorEq] at h
  | callAdd mem varName data =>
    simp only [step, hu] at h ⊢
    cases hs : s.user with
    | outside =>
      simp only [hs] at h ⊢
      exact callAdd_silent h
    | _ => simp only [hs, reduceCtorEq] at h
  | save varName varData =>
    simp only [step, hu, hf] at h ⊢
    split at h <;> cases h
    rfl
  | callFlushToQueueAll order =>
    simp only [step, hu, hkeys] at h ⊢
    cases hs : s.user with
    | outside =>
      simp only [hs] at h ⊢
      split_ifs at h with horder
      cases h
      exact if_pos horder
    | _ => simp only [hs, reduceCtorEq] at h
  | user => exact userStep_silent h
  | callFlushAvailableData =>
    simp only [step, hf] at h ⊢
    cases hs : s.flusher with
    | outside =>
      simp only [hs] at h ⊢
      cases h
      rfl
    | _ => simp only [hs, reduceCtorEq] at h
  | flusher order => exact flusherStep_silent h

end Shared

end XBot
