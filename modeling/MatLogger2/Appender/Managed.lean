import MatLogger2.Appender.Registry
import MatLogger2.Logger.Silent

/-! An appender and its loggers. Each logger has one thread that uses it, which holds a pointer to it
while it is in a call, and the passes of the appender call `flush_available_data`. -/

namespace XBot

open VariableBuffer MatLogger2 Transition Ledger

variable {α : Type}

def User.isOutside : User α → Bool
  | .outside => true
  | _ => false

/-- It waits for the mutex of the variables. -/
def Shared.setOnDataAvailableCallback (s : Shared α) (callback : Bool) : Option (Shared α) :=
  if s.flusher.locksVars then none
  else some { s with logger := s.logger.setOnDataAvailableCallback callback }

structure Managed (α : Type) where
  registry : Registry
  logger : ControlBlock → Shared α

namespace Managed

inductive Event (α : Type)
  | registry (e : Registry.Event)
  | logger (l : ControlBlock) (e : LoggerEvent α)

inductive Act (α : Type)
  | make (address : ℕ) (opt : Options)
  | copy (l : ControlBlock)
  | reset (l : ControlBlock)
  | addLogger (logger : Option ControlBlock)
  | flushAvailableDataAll
  | next
  /-- A step of the thread that uses the logger. -/
  | user (l : ControlBlock) (a : Shared.Act α)
  /-- A step of the pass in the call of `flush_available_data` of the logger that it has locked. -/
  | flush (a : Shared.Act α)

def start : Managed α := ⟨Registry.start, fun _ => Shared.start ⟨0, 0⟩ false⟩

/-- The pointers that the thread in a call of the logger needs. -/
def used (s : Managed α) (l : ControlBlock) : ℕ := if (s.logger l).user.isOutside then 0 else 1

def registryStep (s : Managed α) (a : Registry.Act) : Option (Managed α × List (Event α)) :=
  (s.registry.step a).map fun (r, es) => ({ s with registry := r }, es.map .registry)

/-- A new logger. -/
def make (s : Managed α) (address : ℕ) (opt : Options) : Option (Managed α × List (Event α)) :=
  { s with logger := Function.update s.logger s.registry.next (Shared.start opt false) }.registryStep
    (.make address)

/-- A step of the thread with the mutex, which sets the callback before it adds the logger. -/
def nextStep (s : Managed α) : Option (Managed α × List (Event α)) :=
  match s.registry.mutex with
  | .notFound l =>
    ((s.logger l).setOnDataAvailableCallback true).bind fun t =>
      { s with logger := Function.update s.logger l t }.registryStep .next
  | _ => s.registryStep .next

def userStep (s : Managed α) (l : ControlBlock) (a : Shared.Act α) :
    Option (Managed α × List (Event α)) :=
  if a.isUser = true ∧ 0 < s.registry.ptrs l then
    ((s.logger l).step a).map fun (t, es) =>
      ({ s with logger := Function.update s.logger l t }, es.map (.logger l))
  else none

/-- What `flush_available_data` has returned, if it has. -/
def returned (es : List (LoggerEvent α)) : Option ℤ := es.findSome? LoggerEvent.bytes

def flushStep (s : Managed α) (a : Shared.Act α) : Option (Managed α × List (Event α)) :=
  match s.registry.mutex with
  | .locked _ l _ _ =>
    if a.isUser then none
    else
      ((s.logger l).step a).bind fun (t, es) =>
        let s' := { s with logger := Function.update s.logger l t }
        match returned es with
        | none => some (s', es.map (.logger l))
        | some n => (s'.registryStep (.flush n)).map fun (s'', evs) => (s'', es.map (.logger l) ++ evs)
  | _ => none

def step (s : Managed α) : Act α → Option (Managed α × List (Event α))
  | .make address opt => s.make address opt
  | .copy l => s.registryStep (.copy l)
  | .reset l => if s.used l < s.registry.ptrs l then s.registryStep (.reset l) else none
  | .addLogger none => s.registryStep (.addLogger none)
  | .addLogger (some l) =>
    if s.used l < s.registry.ptrs l then s.registryStep (.addLogger (some l)) else none
  | .flushAvailableDataAll => s.registryStep .flushAvailableDataAll
  | .next => s.nextStep
  | .user l a => s.userStep l a
  | .flush a => s.flushStep a

end Managed

/-- All threads in any interleaving of their steps. -/
def managed (α : Type) : System (Managed α) (Managed.Event α) where
  init s := s = Managed.start
  step s es s' := ∃ a, s.step a = some (s', es)

namespace Managed

def Event.registryEvent : Event α → Option Registry.Event
  | .registry e => some e
  | .logger _ _ => none

def Event.loggerEvent (l : ControlBlock) : Event α → Option (LoggerEvent α)
  | .registry _ => none
  | .logger k e => if k = l then some e else none

def registryEvents (tr : List (Event α)) : List Registry.Event := tr.filterMap Event.registryEvent

def loggerEvents (l : ControlBlock) (tr : List (Event α)) : List (LoggerEvent α) :=
  tr.filterMap (Event.loggerEvent l)

section Events

variable (l : ControlBlock) (tr es : List (Event α))

@[simp] theorem registryEvents_append :
    registryEvents (tr ++ es) = registryEvents tr ++ registryEvents es := List.filterMap_append

@[simp] theorem loggerEvents_append :
    loggerEvents l (tr ++ es) = loggerEvents l tr ++ loggerEvents l es := List.filterMap_append

@[simp] theorem registryEvents_registry (es : List Registry.Event) :
    registryEvents (es.map (Event.registry : _ → Event α)) = es := by
  simp [registryEvents, List.filterMap_map, Function.comp_def, Event.registryEvent]

@[simp] theorem loggerEvents_registry (es : List Registry.Event) :
    loggerEvents l (es.map (Event.registry : _ → Event α)) = [] := by
  simp [loggerEvents, List.filterMap_map, Function.comp_def, Event.loggerEvent]

variable (evs : List (LoggerEvent α))

@[simp] theorem registryEvents_logger : registryEvents (evs.map (Event.logger l)) = [] := by
  simp [registryEvents, List.filterMap_map, Function.comp_def, Event.registryEvent]

@[simp] theorem loggerEvents_logger : loggerEvents l (evs.map (Event.logger l)) = evs := by
  simp [loggerEvents, List.filterMap_map, Function.comp_def, Event.loggerEvent]

theorem loggerEvents_other {k : ControlBlock} (h : k ≠ l) :
    loggerEvents l (evs.map (Event.logger k)) = [] := by
  simp [loggerEvents, List.filterMap_map, Function.comp_def, Event.loggerEvent, h]

end Events

end Managed

namespace Shared

variable {s s' : Shared α} {es : List (LoggerEvent α)}

/-- The flushing thread leaves the other where it is. -/
theorem step_user {a : Act α} (ha : a.isUser = false) (h : s.step a = some (s', es)) :
    s'.user = s.user := by
  cases a with
  | callFlushAvailableData =>
    cases hf : s.flusher with
    | outside =>
      simp only [step, hf] at h
      cases h
      rfl
    | _ => simp [step, hf] at h
  | flusher order =>
    simp only [step, flusherStep] at h
    split at h
    · cases h
    · split at h <;> cases h <;> rfl
    · split_ifs at h
      cases h
      rfl
    · cases h
      rfl
    · obtain ⟨⟨t, evs⟩, -, he⟩ := Option.map_eq_some_iff.mp h
      cases he
      rename_i name todo bytes c _
      exact user_afterRead name todo bytes t _
  | _ => cases ha

/-- At its return, `flush_available_data` has left the logger. -/
theorem flushed_outside {a : Act α} {bytes : ℤ} (ha : a.isUser = false)
    (h : s.step a = some (s', es)) (he : .flushed bytes ∈ es) : s'.flusher = .outside := by
  obtain ⟨bytes', c, hf⟩ := (Grows.step h).returns bytes he
  cases a with
  | callFlushAvailableData => simp [step, hf] at h
  | flusher order =>
    simp only [step, flusherStep, hf] at h
    cases h
    rfl
  | _ => cases ha

theorem user_of_silent (h : s'.silent = s.silent) : s'.user = s.user := by
  have huser : s'.silent.user = s.silent.user := congrArg user h
  exact huser

theorem flusher_of_silent (h : s'.silent = s.silent) : s'.flusher = s.flusher := by
  have hflusher : s'.silent.flusher = s.silent.flusher := congrArg flusher h
  exact hflusher

end Shared

namespace Registry

variable {s s' : Registry} {es : List Event}

theorem alive_of_locked {kept rest : List ControlBlock} {l : ControlBlock} {bytes : ℤ}
    (hm : s.mutex = .locked kept l rest bytes) : s.Alive l :=
  alive_iff.mpr (.inr (by simp [hm, LoggersMutex.ptrs]))

/-- Until its call returns, nobody moves a pass that has locked a logger. -/
theorem step_locked {a : Act} (h : s.step a = some (s', es)) (ha : ∀ n, a ≠ .flush n)
    {kept rest : List ControlBlock} {l : ControlBlock} {bytes : ℤ}
    (hm : s.mutex = .locked kept l rest bytes) : s'.mutex = s.mutex := by
  cases a with
  | make address =>
    simp only [step, make] at h
    split at h <;> cases h
    rfl
  | copy k =>
    simp only [step] at h
    split at h <;> cases h
    rfl
  | reset k =>
    simp only [step] at h
    split at h <;> cases h
    rfl
  | addLogger logger =>
    cases logger with
    | none =>
      cases h
      rfl
    | some k =>
      simp only [step, addLogger, hm] at h
      cases h
  | flushAvailableDataAll =>
    simp only [step, hm] at h
    cases h
  | next =>
    simp only [step, nextStep, hm] at h
    cases h
  | flush n => exact absurd rfl (ha n)

theorem addPtr_le (s : Registry) (l k : ControlBlock) : s.ptrs k ≤ (s.addPtr l).ptrs k := by
  simp only [addPtr, Function.update_apply]
  split
  · rename_i hk
    rw [hk]
    exact Nat.le_succ _
  · exact Nat.le_refl _

theorem nextStep_ptrs (h : s.nextStep = some (s', es)) (k : ControlBlock) : s.ptrs k ≤ s'.ptrs k := by
  obtain ⟨loggers, mutex, ptrs, get, next⟩ := s
  cases mutex with
  | free => cases h
  | finding logger sp rest =>
    cases sp with
    | none => cases rest <;> cases h <;> exact Nat.le_refl _
    | some sp =>
      cases h
      exact Nat.le_refl _
  | found logger =>
    cases h
    exact addPtr_le _ logger k
  | notFound logger =>
    cases h
    exact addPtr_le _ logger k
  | removing kept rest bytes =>
    cases rest with
    | nil =>
      cases h
      exact Nat.le_refl _
    | cons elem rest =>
      simp only [nextStep] at h
      split at h <;> cases h <;> exact Nat.le_refl _
  | locked kept logger rest bytes => cases h
  | flushed kept logger rest bytes =>
    cases h
    exact Nat.le_refl _

/-- The pointer that the action takes away from a thread. -/
def Act.takes : Act → Option ControlBlock
  | .reset l => some l
  | .addLogger logger => logger
  | _ => none

theorem dropPtr_le (s : Registry) {l k : ControlBlock} {n : ℕ} (hn : n ≤ s.ptrs k)
    (hl : l = k → n < s.ptrs k) : n ≤ (s.dropPtr l).ptrs k := by
  simp only [dropPtr, Function.update_apply]
  split
  · rename_i hk
    have := hl hk.symm
    rw [← hk]
    omega
  · exact hn

theorem step_ptrs {a : Act} (h : s.step a = some (s', es)) (ha : ∀ address, a ≠ .make address)
    {k : ControlBlock} {n : ℕ} (hn : n ≤ s.ptrs k) (ht : a.takes = some k → n < s.ptrs k) :
    n ≤ s'.ptrs k := by
  cases a with
  | make address => exact absurd rfl (ha address)
  | copy l =>
    simp only [step] at h
    split at h <;> cases h
    exact hn.trans (s.addPtr_le l k)
  | reset l =>
    simp only [step] at h
    split at h <;> cases h
    exact s.dropPtr_le hn fun hl => ht (congrArg some hl)
  | addLogger logger =>
    cases logger with
    | none =>
      cases h
      exact hn
    | some l =>
      simp only [step, addLogger] at h
      split at h
      · split at h <;> cases h
        exact s.dropPtr_le hn fun hl => ht (congrArg some hl)
      · cases h
  | flushAvailableDataAll =>
    simp only [step] at h
    split at h <;> cases h
    exact hn
  | next => exact hn.trans (nextStep_ptrs h k)
  | flush n =>
    simp only [step, flushStep] at h
    split at h <;> cases h
    exact hn

end Registry

namespace Managed

variable {s s' : Managed α} {tr es : List (Event α)} {l k : ControlBlock}

/-- What a step is: one of the list of loggers, or one of the thread that uses a logger, or one of the
pass inside a logger, which may be that of its return. -/
inductive Moves (s s' : Managed α) (es : List (Event α)) : Prop
  | made (address : ℕ) (opt : Options) (evs : List Registry.Event) :
    s.registry.step (.make address) = some (s'.registry, evs) →
    s'.logger = Function.update s.logger s.registry.next (Shared.start opt false) →
    es = evs.map .registry → Moves s s' es
  | listed (a : Registry.Act) (evs : List Registry.Event) :
    s.registry.step a = some (s'.registry, evs) → (∀ address, a ≠ .make address) →
    (∀ n, a ≠ .flush n) → (∀ l, s.used l ≤ s.registry.ptrs l → s.used l ≤ s'.registry.ptrs l) →
    (∀ l, (s'.logger l).silent = (s.logger l).silent) → es = evs.map .registry → Moves s s' es
  | used (l : ControlBlock) (a : Shared.Act α) (evs : List (LoggerEvent α)) (t : Shared α) :
    a.isUser = true → 0 < s.registry.ptrs l → (s.logger l).step a = some (t, evs) →
    s' = { s with logger := Function.update s.logger l t } → es = evs.map (.logger l) → Moves s s' es
  | flushing (kept : List ControlBlock) (l : ControlBlock) (rest : List ControlBlock) (bytes : ℤ)
    (a : Shared.Act α) (evs : List (LoggerEvent α)) (t : Shared α) :
    s.registry.mutex = .locked kept l rest bytes → a.isUser = false → returned evs = none →
    (s.logger l).step a = some (t, evs) →
    s' = { s with logger := Function.update s.logger l t } → es = evs.map (.logger l) → Moves s s' es
  | flushed (kept : List ControlBlock) (l : ControlBlock) (rest : List ControlBlock) (bytes n : ℤ)
    (a : Shared.Act α) (evs : List (LoggerEvent α)) (t : Shared α) :
    s.registry.mutex = .locked kept l rest bytes → a.isUser = false → returned evs = some n →
    (s.logger l).step a = some (t, evs) →
    s.registry.step (.flush n) = some (s'.registry, [.flushed l n]) →
    s'.logger = Function.update s.logger l t →
    es = evs.map (.logger l) ++ [.registry (.flushed l n)] → Moves s s' es

theorem of_registryStep {a : Registry.Act} (h : s.registryStep a = some (s', es)) :
    ∃ evs, s.registry.step a = some (s'.registry, evs) ∧ s'.logger = s.logger ∧
      es = evs.map .registry := by
  obtain ⟨⟨r, evs⟩, hr, he⟩ := Option.map_eq_some_iff.mp h
  cases he
  exact ⟨evs, hr, rfl, rfl⟩

theorem Moves.listed_of {a : Registry.Act} (h : s.registryStep a = some (s', es))
    (ha : ∀ address, a ≠ .make address) (hf : ∀ n, a ≠ .flush n)
    (hs : ∀ l, a.takes = some l → s.used l < s.registry.ptrs l) : Moves s s' es := by
  obtain ⟨evs, hr, hl, he⟩ := of_registryStep h
  exact .listed a evs hr ha hf (fun k hk => Registry.step_ptrs hr ha hk (hs k)) (fun l => by rw [hl]) he

theorem Moves.next (h : s.nextStep = some (s', es)) : Moves s s' es := by
  rw [nextStep] at h
  split at h
  · rename_i l hm
    obtain ⟨t, hset, h⟩ := Option.bind_eq_some_iff.mp h
    obtain ⟨evs, hr, hl, he⟩ := of_registryStep h
    rw [Shared.setOnDataAvailableCallback] at hset
    split_ifs at hset
    cases hset
    refine .listed .next evs hr (by simp) (by simp) (fun k hk => ?_) (fun k => ?_) he
    · exact hk.trans (Registry.nextStep_ptrs hr k)
    · simp only [hl, Function.update_apply]
      split
      · rename_i hk
        subst hk
        exact congrArg (Shared.mk · _ _) ((s.logger k).logger.silent_setOnDataAvailableCallback true)
      · rfl
  · exact .listed_of h (by simp) (by simp) (by simp [Registry.Act.takes])

theorem Moves.flush {a : Shared.Act α} (h : s.flushStep a = some (s', es)) : Moves s s' es := by
  rw [flushStep] at h
  split at h
  · rename_i kept l rest bytes hm
    split_ifs at h with ha
    obtain ⟨⟨t, evs⟩, hstep, h⟩ := Option.bind_eq_some_iff.mp h
    rw [Bool.not_eq_true] at ha
    cases hret : returned evs with
    | none =>
      simp only [hret] at h
      cases h
      exact .flushing kept l rest bytes a evs t hm ha hret hstep rfl rfl
    | some n =>
      simp only [hret] at h
      obtain ⟨⟨s₁, revs⟩, hreg, he⟩ := Option.map_eq_some_iff.mp h
      cases he
      obtain ⟨revs, hr, hl, rfl⟩ := of_registryStep hreg
      have hflush : s.registry.step (.flush n) = some ({ s.registry with
          mutex := .flushed kept l rest (toInt (bytes + n)) }, [.flushed l n]) := by
        simp only [Registry.step, Registry.flushStep, hm]
      obtain ⟨-, rfl⟩ := Prod.mk.inj (Option.some.inj (hr.symm.trans hflush))
      exact .flushed kept l rest bytes n a evs t hm ha hret hstep hr hl rfl
  · cases h

theorem Moves.step {a : Act α} (h : s.step a = some (s', es)) : Moves s s' es := by
  cases a with
  | make address opt =>
    obtain ⟨evs, hr, hl, he⟩ := of_registryStep h
    exact .made address opt evs hr hl he
  | copy l => exact .listed_of h (by simp) (by simp) (by simp [Registry.Act.takes])
  | reset l =>
    simp only [Managed.step] at h
    split_ifs at h with hl
    exact .listed_of h (by simp) (by simp) (by simpa [Registry.Act.takes] using hl)
  | addLogger logger =>
    cases logger with
    | none => exact .listed_of h (by simp) (by simp) (by simp [Registry.Act.takes])
    | some l =>
      simp only [Managed.step] at h
      split_ifs at h with hl
      exact .listed_of h (by simp) (by simp) (by simpa [Registry.Act.takes] using hl)
  | flushAvailableDataAll => exact .listed_of h (by simp) (by simp) (by simp [Registry.Act.takes])
  | next => exact .next h
  | user l a =>
    simp only [Managed.step, userStep] at h
    split_ifs at h with ha
    obtain ⟨⟨t, evs⟩, hstep, he⟩ := Option.map_eq_some_iff.mp h
    cases he
    exact .used l a evs t ha.1 ha.2 hstep rfl rfl
  | flush a => exact .flush h

theorem returned_mem {evs : List (LoggerEvent α)} {n : ℤ} (h : returned evs = some n) :
    .flushed n ∈ evs := by
  obtain ⟨e, he, hn⟩ := List.exists_of_findSome?_eq_some h
  cases e with
  | flushed bytes =>
    cases hn
    exact he
  | _ => cases hn

/-- The list of loggers makes a step of its own, or stays as it is. -/
theorem Moves.registry (h : Moves s s' es) : s'.registry = s.registry ∧ registryEvents es = [] ∨
    ∃ a, s.registry.step a = some (s'.registry, registryEvents es) := by
  cases h with
  | made address opt evs hr hl he =>
    rw [he, registryEvents_registry]
    exact .inr ⟨_, hr⟩
  | listed a evs hr ha hf hp hl he =>
    rw [he, registryEvents_registry]
    exact .inr ⟨_, hr⟩
  | used l a evs t ha hp hstep hs he =>
    rw [hs, he, registryEvents_logger]
    exact .inl ⟨rfl, rfl⟩
  | flushing kept l rest bytes a evs t hm ha hret hstep hs he =>
    rw [hs, he, registryEvents_logger]
    exact .inl ⟨rfl, rfl⟩
  | flushed kept l rest bytes n a evs t hm ha hret hstep hr hl he =>
    rw [he, registryEvents_append, registryEvents_logger]
    exact .inr ⟨_, hr⟩

/-- What a step of a logger is for each of them. -/
theorem part_of_step {a : Shared.Act α} {t : Shared α} {evs : List (LoggerEvent α)}
    (hstep : (s.logger k).step a = some (t, evs)) (hl : s'.logger = Function.update s.logger k t)
    (he : ∀ l, loggerEvents l es = loggerEvents l (evs.map (.logger k))) (l : ControlBlock) :
    (s'.logger l).silent = (s.logger l).silent ∧ loggerEvents l es = [] ∨
      ∃ a, (s.logger l).silent.step a =
        some ((s'.logger l).silent, unnotified (loggerEvents l es)) := by
  rw [hl, he]
  rcases eq_or_ne k l with rfl | hne
  · rw [Function.update_self, loggerEvents_logger]
    exact .inr ⟨a, Shared.silent_step hstep⟩
  · rw [Function.update_of_ne hne.symm, loggerEvents_other l evs hne]
    exact .inl ⟨rfl, rfl⟩

/-- A logger, seen without its callback, makes a step of its own, or stays as it is. -/
theorem Moves.part (h : Moves s s' es) (hl : l < s.registry.next) :
    (s'.logger l).silent = (s.logger l).silent ∧ loggerEvents l es = [] ∨
      ∃ a, (s.logger l).silent.step a =
        some ((s'.logger l).silent, unnotified (loggerEvents l es)) := by
  cases h with
  | made address opt evs hr hlog he =>
    rw [hlog, Function.update_of_ne (Nat.ne_of_lt hl), he, loggerEvents_registry]
    exact .inl ⟨rfl, rfl⟩
  | listed a evs hr ha hf hp hs he =>
    rw [he, loggerEvents_registry]
    exact .inl ⟨hs l, rfl⟩
  | used k a evs t ha hp hstep hs he => exact part_of_step hstep (by rw [hs]) (fun _ => by rw [he]) l
  | flushing kept k rest bytes a evs t hm ha hret hstep hs he =>
    exact part_of_step hstep (by rw [hs]) (fun _ => by rw [he]) l
  | flushed kept k rest bytes n a evs t hm ha hret hstep hr hs he =>
    refine part_of_step hstep hs (fun l => ?_) l
    rw [he, loggerEvents_append]
    exact List.append_nil _

/-- What a logger shows, it shows while it is alive. -/
theorem Moves.alive (h : Moves s s' es) {e : LoggerEvent α} (he : .logger l e ∈ es) :
    s.registry.Alive l := by
  have hlogger : ∀ {k : ControlBlock} {evs : List (LoggerEvent α)},
      Event.logger l e ∈ evs.map (Event.logger k) → k = l := by
    intro k evs hm
    obtain ⟨e', -, he'⟩ := List.mem_map.mp hm
    cases he'
    rfl
  cases h with
  | made address opt evs hr hlog hes => simp [hes] at he
  | listed a evs hr ha hf hp hs hes => simp [hes] at he
  | used k a evs t ha hp hstep hs hes =>
    rw [hes] at he
    exact Registry.alive_iff.mpr (.inl (hlogger he ▸ hp))
  | flushing kept k rest bytes a evs t hm ha hret hstep hs hes =>
    rw [hes] at he
    exact Registry.alive_of_locked (hlogger he ▸ hm)
  | flushed kept k rest bytes n a evs t hm ha hret hstep hr hs hes =>
    rw [hes] at he
    rcases List.mem_append.mp he with he | he
    · exact Registry.alive_of_locked (hlogger he ▸ hm)
    · simp at he

def Timely (pre : List (Event α)) : Event α → Prop
  | .registry _ => True
  | .logger l _ => Registry.Live (registryEvents pre) l

structure Inv (tr : List (Event α)) (s : Managed α) : Prop where
  registry : Registry.Inv (registryEvents tr) s.registry
  unmade : ∀ l, s.registry.next ≤ l → loggerEvents l tr = []
  part : ∀ l, l < s.registry.next → ∃ opt hist,
    (shared α opt).Run hist (unnotified (loggerEvents l tr)) (s.logger l).silent
  /-- The thread in a call has a pointer. -/
  pinned : ∀ l, s.used l ≤ s.registry.ptrs l
  inside : ∀ l, (s.logger l).flusher ≠ .outside → ∃ kept rest bytes,
    s.registry.mutex = .locked kept l rest bytes
  timely : Each Timely tr

theorem Moves.next_le (h : Moves s s' es) (inv : Registry.Inv (registryEvents tr) s.registry)
    (hl : l < s.registry.next) : l < s'.registry.next := by
  rcases h.registry with ⟨hr, -⟩ | ⟨a, hr⟩
  · rwa [hr]
  · exact inv.next_le hr hl

theorem timely_logger (h : Each Timely tr) (hl : Registry.Live (registryEvents tr) l)
    (evs : List (LoggerEvent α)) : Each Timely (tr ++ evs.map (.logger l)) := by
  induction evs using List.reverseRecOn with
  | nil => simpa using h
  | append_singleton evs e ih =>
    rw [List.map_append, ← List.append_assoc]
    refine ih.snoc ?_
    rw [Timely, registryEvents_append, registryEvents_logger, List.append_nil]
    exact hl

namespace Inv

theorem start : Inv [] (start : Managed α) :=
  ⟨Registry.Inv.start, fun _ _ => rfl, fun _ h => absurd h (Nat.not_lt_zero _), fun _ => Nat.le_refl 0,
    fun _ h => absurd rfl h, each_nil⟩

theorem live (inv : Inv tr s) (l : ControlBlock) :
    s.registry.Alive l ↔ Registry.Live (registryEvents tr) l := inv.registry.lives.alive l

theorem registry_step (inv : Inv tr s) (h : Moves s s' es) :
    Registry.Inv (registryEvents (tr ++ es)) s'.registry := by
  rw [registryEvents_append]
  rcases h.registry with ⟨hr, he⟩ | ⟨a, hr⟩
  · rw [hr, he, List.append_nil]
    exact inv.registry
  · exact inv.registry.step hr

theorem unmade_step (inv : Inv tr s) (h : Moves s s' es) (hl : s'.registry.next ≤ l) :
    loggerEvents l (tr ++ es) = [] := by
  have hold : s.registry.next ≤ l := by
    by_contra hlt
    exact absurd (h.next_le inv.registry (not_le.mp hlt)) (not_lt.mpr hl)
  rw [loggerEvents_append, inv.unmade l hold, List.nil_append, loggerEvents,
    List.filterMap_eq_nil_iff]
  intro e he
  cases e with
  | registry e => rfl
  | logger k e =>
    refine if_neg ?_
    rintro rfl
    exact absurd (inv.registry.lives.known k (h.alive he)) (not_lt.mpr hold)

theorem part_step (inv : Inv tr s) (h : Moves s s' es) (hl : l < s'.registry.next) :
    ∃ opt hist, (shared α opt).Run hist (unnotified (loggerEvents l (tr ++ es)))
      (s'.logger l).silent := by
  rcases Nat.lt_or_ge l s.registry.next with hold | hnew
  · obtain ⟨opt, hist, hr⟩ := inv.part l hold
    rw [loggerEvents_append]
    rcases h.part hold with ⟨hs, he⟩ | ⟨a, ha⟩
    · rw [hs, he, List.append_nil]
      exact ⟨opt, hist, hr⟩
    · rw [unnotified_append]
      exact ⟨opt, _, hr.next ⟨a, ha⟩⟩
  · -- it has just been made
    have hsame : ∀ a evs, s.registry.step a = some (s'.registry, evs) →
        (∀ address, a ≠ .make address) → False := by
      intro a evs hr ha
      exact absurd ((Registry.step_loses hr ha).next ▸ hl) (not_lt.mpr hnew)
    cases h with
    | made address opt evs hr hlog he =>
      have hn : s'.registry.next = s.registry.next + 1 := by
        simp only [Registry.step, Registry.make] at hr
        split at hr
        · rw [← (Prod.mk.inj (Option.some.inj hr)).1]
        · cases hr
      rw [hn] at hl
      obtain rfl : l = s.registry.next := Nat.le_antisymm (Nat.lt_succ_iff.mp hl) hnew
      rw [hlog, Function.update_self, loggerEvents_append, inv.unmade _ (Nat.le_refl _), he,
        loggerEvents_registry]
      exact ⟨opt, _, .start ⟨false, rfl⟩⟩
    | listed a evs hr ha hf hp hs he => exact (hsame a evs hr ha).elim
    | used k a evs t ha hp hstep hs he =>
      rw [hs] at hl
      exact absurd hl (not_lt.mpr hnew)
    | flushing kept k rest bytes a evs t hm ha hret hstep hs he =>
      rw [hs] at hl
      exact absurd hl (not_lt.mpr hnew)
    | flushed kept k rest bytes n a evs t hm ha hret hstep hr hs he =>
      exact (hsame _ _ hr (by simp)).elim

theorem pinned_step (inv : Inv tr s) (h : Moves s s' es) (l : ControlBlock) :
    s'.used l ≤ s'.registry.ptrs l := by
  have hold := inv.pinned l
  have hupdate : ∀ {k a evs t}, (s.logger k).step a = some (t, evs) → a.isUser = false →
      s'.logger = Function.update s.logger k t → s'.used l = s.used l := by
    intro k a evs t hstep ha hl
    simp only [used, hl, Function.update_apply]
    split
    · rename_i hk
      rw [hk, Shared.step_user ha hstep]
    · rfl
  cases h with
  | made address opt evs hr hlog he =>
    simp only [Registry.step, Registry.make] at hr
    split at hr
    · rw [← (Prod.mk.inj (Option.some.inj hr)).1]
      simp only [used, hlog, Function.update_apply]
      split
      · exact Nat.zero_le 1
      · exact hold
    · cases hr
  | listed a evs hr ha hf hp hs he =>
    have hu : s'.used l = s.used l := by
      rw [used, Shared.user_of_silent (hs l), used]
    rw [hu]
    exact hp l hold
  | used k a evs t ha hp hstep hs he =>
    subst hs
    simp only [used, Function.update_apply]
    split
    · rename_i hk
      refine le_trans ?_ (hk ▸ hp : 1 ≤ s.registry.ptrs l)
      split
      · exact Nat.zero_le 1
      · exact Nat.le_refl 1
    · exact hold
  | flushing kept k rest bytes a evs t hm ha hret hstep hs he =>
    have hu := hupdate hstep ha (by rw [hs])
    rw [hs] at hu ⊢
    rw [hu]
    exact hold
  | flushed kept k rest bytes n a evs t hm ha hret hstep hr hs he =>
    rw [hupdate hstep ha hs]
    exact Registry.step_ptrs hr (by simp) hold (by simp [Registry.Act.takes])

theorem inside_step (inv : Inv tr s) (h : Moves s s' es) (l : ControlBlock)
    (hl : (s'.logger l).flusher ≠ .outside) :
    ∃ kept rest bytes, s'.registry.mutex = .locked kept l rest bytes := by
  cases h with
  | made address opt evs hr hlog he =>
    simp only [hlog, Function.update_apply] at hl
    split at hl
    · exact absurd rfl hl
    · obtain ⟨kept, rest, bytes, hm⟩ := inv.inside l hl
      exact ⟨kept, rest, bytes, (Registry.step_locked hr (by simp) hm).trans hm⟩
  | listed a evs hr ha hf hp hs he =>
    obtain ⟨kept, rest, bytes, hm⟩ := inv.inside l (Shared.flusher_of_silent (hs l) ▸ hl)
    exact ⟨kept, rest, bytes, (Registry.step_locked hr hf hm).trans hm⟩
  | used k a evs t ha hp hstep hs he =>
    subst hs
    refine inv.inside l ?_
    simp only [Function.update_apply] at hl
    split at hl
    · rename_i hk
      rwa [hk, ← (Shared.UserFrame.step ha hstep).flusher]
    · exact hl
  | flushing kept k rest bytes a evs t hm ha hret hstep hs he =>
    subst hs
    simp only [Function.update_apply] at hl
    split at hl
    · rename_i hk
      exact ⟨kept, rest, bytes, hk ▸ hm⟩
    · exact inv.inside l hl
  | flushed kept k rest bytes n a evs t hm ha hret hstep hr hs he =>
    simp only [hs, Function.update_apply] at hl
    split at hl
    · exact absurd (Shared.flushed_outside ha hstep (returned_mem hret)) hl
    · rename_i hne
      obtain ⟨kept', rest', bytes', hm'⟩ := inv.inside l hl
      rw [hm] at hm'
      exact absurd (LoggersMutex.locked.inj hm').2.1.symm hne

theorem timely_step (inv : Inv tr s) (h : Moves s s' es) : Each Timely (tr ++ es) := by
  have hregistry : ∀ evs : List Registry.Event, ∀ pre, ∀ e ∈ evs.map Event.registry,
      Timely (α := α) pre e := by
    intro evs pre e he
    obtain ⟨e', -, rfl⟩ := List.mem_map.mp he
    trivial
  cases h with
  | made address opt evs hr hlog he => exact he ▸ inv.timely.append (hregistry evs)
  | listed a evs hr ha hf hp hs he => exact he ▸ inv.timely.append (hregistry evs)
  | used k a evs t ha hp hstep hs he =>
    have hlive := (inv.live k).mp (Registry.alive_iff.mpr (.inl hp))
    exact he ▸ timely_logger inv.timely hlive evs
  | flushing kept k rest bytes a evs t hm ha hret hstep hs he =>
    exact he ▸ timely_logger inv.timely ((inv.live k).mp (Registry.alive_of_locked hm)) evs
  | flushed kept k rest bytes n a evs t hm ha hret hstep hr hs he =>
    rw [he, ← List.append_assoc]
    exact (timely_logger inv.timely ((inv.live k).mp (Registry.alive_of_locked hm)) evs).snoc trivial

theorem step (inv : Inv tr s) {a : Act α} (h : s.step a = some (s', es)) : Inv (tr ++ es) s' := by
  have hm := Moves.step h
  exact ⟨inv.registry_step hm, fun _ => inv.unmade_step hm, fun _ => inv.part_step hm,
    inv.pinned_step hm, inv.inside_step hm, inv.timely_step hm⟩

theorem run {hist : List (Managed α)} (h : (managed α).Run hist tr s) : Inv tr s := by
  refine h.inv (fun s hs => hs ▸ .start) ?_
  rintro tr s es s' inv ⟨a, ha⟩
  exact inv.step ha

end Inv

end Managed

end XBot
