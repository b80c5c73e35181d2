import MatLogger2.Eigen
import MatLogger2.Lib.Transition

/-! The list of loggers of an appender: weak pointers that `add_logger` searches and extends, and
that each flush pass visits in turn. A logger is destructed with the last of its `shared_ptr`s, which
may be one that the search or the pass has locked. -/

namespace XBot

open Transition

/-- A logger, as the control block that its pointers share. -/
abbrev ControlBlock := ℕ

/-- Where the thread is that has locked `_loggers_mutex`. -/
inductive LoggersMutex
  | free
  /-- In `find_if` of `add_logger`, with `sp` and the entries that come after it. -/
  | finding (logger : ControlBlock) (sp : Option ControlBlock) (rest : List ControlBlock)
  | found (logger : ControlBlock)
  | notFound (logger : ControlBlock)
  /-- In `remove_if` of `flush_available_data_all`, between two entries. -/
  | removing (kept rest : List ControlBlock) (bytes : ℤ)
  /-- In `process_or_remove`, with the entry locked. -/
  | locked (kept : List ControlBlock) (logger : ControlBlock) (rest : List ControlBlock) (bytes : ℤ)
  | flushed (kept : List ControlBlock) (logger : ControlBlock) (rest : List ControlBlock) (bytes : ℤ)

/-- The `shared_ptr`s of that thread. -/
def LoggersMutex.ptrs : LoggersMutex → List ControlBlock
  | .free => []
  | .finding logger sp _ => logger :: sp.toList
  | .found logger | .notFound logger => [logger]
  | .removing _ _ _ => []
  | .locked _ logger _ _ | .flushed _ logger _ _ => [logger]

/-- `ptrs` counts the `shared_ptr`s of all other threads, also those that wait for the mutex, and
`get` is the address of a logger. -/
structure Registry where
  loggers : List ControlBlock
  mutex : LoggersMutex
  ptrs : ControlBlock → ℕ
  get : ControlBlock → ℕ
  next : ControlBlock

namespace Registry

inductive Event
  | made (l : ControlBlock)
  | destructed (l : ControlBlock)
  /-- A return of `add_logger`. -/
  | added (logger : Option ControlBlock) (ok : Bool)
  | passStarted (loggers : List ControlBlock)
  | visited (l : ControlBlock) (alive : Bool)
  /-- A call of `flush_available_data` and what it returns. -/
  | flushed (l : ControlBlock) (bytes : ℤ)
  | passEnded (loggers : List ControlBlock) (bytes : ℤ)
  deriving DecidableEq

inductive Act
  | make (address : ℕ)
  | copy (l : ControlBlock)
  | reset (l : ControlBlock)
  | addLogger (logger : Option ControlBlock)
  | flushAvailableDataAll
  /-- The thread with the mutex goes on, or its call of `flush_available_data` returns. -/
  | next
  | flush (bytes : ℤ)

def start : Registry := ⟨[], .free, fun _ => 0, fun _ => 0, 0⟩

def useCount (s : Registry) (l : ControlBlock) : ℕ := s.ptrs l + s.mutex.ptrs.count l

/-- `lock` of a weak pointer to the logger gives a pointer. -/
def Alive (s : Registry) (l : ControlBlock) : Prop := 0 < s.useCount l

instance (s : Registry) (l : ControlBlock) : Decidable (s.Alive l) :=
  inferInstanceAs (Decidable (0 < s.useCount l))

def addPtr (s : Registry) (l : ControlBlock) : Registry :=
  { s with ptrs := Function.update s.ptrs l (s.ptrs l + 1) }

def dropPtr (s : Registry) (l : ControlBlock) : Registry :=
  { s with ptrs := Function.update s.ptrs l (s.ptrs l - 1) }

/-- What is seen of a logger that has lost a pointer. -/
def lost (s : Registry) (l : ControlBlock) : List Event :=
  if s.Alive l then [] else [.destructed l]

/-- The address of a new logger may be that of one that is no longer alive. -/
def make (s : Registry) (address : ℕ) : Option (Registry × List Event) :=
  if ∀ l < s.next, s.Alive l → s.get l ≠ address then
    some ({ s with
      ptrs := Function.update s.ptrs s.next 1
      get := Function.update s.get s.next address
      next := s.next + 1 }, [.made s.next])
  else none

/-- The argument is a pointer of the caller's, which gets it back at the return. -/
def addLogger (s : Registry) : Option ControlBlock → Option (Registry × List Event)
  | none => some (s, [.added none false])
  | some l =>
    match s.mutex with
    | .free =>
      if 0 < s.ptrs l then some ({ s.dropPtr l with mutex := .finding l none s.loggers }, [])
      else none
    | _ => none

/-- A step of the thread with the mutex. -/
def nextStep (s : Registry) : Option (Registry × List Event) :=
  match s.mutex with
  | .free => none
  | .finding logger none [] => some ({ s with mutex := .notFound logger }, [])
  | .finding logger none (elem :: rest) =>
    let sp := if s.Alive elem then some elem else none
    some ({ s with mutex := .finding logger sp rest }, [])
  | .finding logger (some sp) rest =>
    let s' := { s with
      mutex := if s.get sp = s.get logger then .found logger else .finding logger none rest }
    some (s', s'.lost sp)
  | .found logger =>
    some ({ s.addPtr logger with mutex := .free }, [.added (some logger) false])
  | .notFound logger =>
    some ({ s.addPtr logger with mutex := .free, loggers := s.loggers ++ [logger] },
      [.added (some logger) true])
  | .removing _ [] bytes => some ({ s with mutex := .free }, [.passEnded s.loggers bytes])
  | .removing kept (elem :: rest) bytes =>
    if s.Alive elem then
      some ({ s with mutex := .locked kept elem rest bytes }, [.visited elem true])
    else
      some ({ s with mutex := .removing kept rest bytes, loggers := kept ++ rest },
        [.visited elem false])
  | .locked .. => none
  | .flushed kept logger rest bytes =>
    let s' := { s with mutex := .removing (kept ++ [logger]) rest bytes }
    some (s', s'.lost logger)

def flushStep (s : Registry) (n : ℤ) : Option (Registry × List Event) :=
  match s.mutex with
  | .locked kept logger rest bytes =>
    some ({ s with mutex := .flushed kept logger rest (toInt (bytes + n)) }, [.flushed logger n])
  | _ => none

def step (s : Registry) : Act → Option (Registry × List Event)
  | .make address => s.make address
  | .copy l => if s.Alive l then some (s.addPtr l, []) else none
  | .reset l => if 0 < s.ptrs l then some (s.dropPtr l, (s.dropPtr l).lost l) else none
  | .addLogger logger => s.addLogger logger
  | .flushAvailableDataAll =>
    match s.mutex with
    | .free => some ({ s with mutex := .removing [] s.loggers 0 }, [.passStarted s.loggers])
    | _ => none
  | .next => s.nextStep
  | .flush n => s.flushStep n

def system : System Registry Event where
  init := fun s => s = start
  step := fun s es s' => ∃ a, s.step a = some (s', es)

/-! What a trace tells. -/

/-- The logger has been made, and has not been destructed. -/
def Live (tr : List Event) (l : ControlBlock) : Prop := .made l ∈ tr ∧ .destructed l ∉ tr

def visits (tr : List Event) : List (ControlBlock × Bool) :=
  tr.filterMap fun
    | .visited l alive => some (l, alive)
    | _ => none

def flushes (tr : List Event) : List (ControlBlock × ℤ) :=
  tr.filterMap fun
    | .flushed l bytes => some (l, bytes)
    | _ => none

/-- The entries that have been found alive. -/
def survivors (visits : List (ControlBlock × Bool)) : List ControlBlock :=
  (visits.filter Prod.snd).map Prod.fst

def Event.boundsPass : Event → Bool
  | .passStarted _ | .passEnded _ _ => true
  | _ => false

/-- What a pass over `entries` has done in `tr`, with `rest` still to be visited. -/
structure Pass (entries : List ControlBlock) (tr : List Event) (rest kept called : List ControlBlock)
    (bytes : ℤ) : Prop where
  nodup : entries.Nodup
  alone : ∀ e ∈ tr, e.boundsPass = false
  visited : (visits tr).map Prod.fst ++ rest = entries
  kept : survivors (visits tr) = kept
  called : (flushes tr).map Prod.fst = called
  bytes : toInt ((flushes tr).map Prod.snd).sum = bytes

/-- The last pass to start has come so far. -/
def InPass (tr : List Event) (rest kept called : List ControlBlock) (bytes : ℤ) : Prop :=
  ∃ pre entries mid, tr = pre ++ .passStarted entries :: mid ∧
    Pass entries mid rest kept called bytes

/-- What the events say is so: `add_logger` has returned `true` to the first of the calls for a logger,
an entry has been found alive if it was, and a pass ends when each entry has been visited once, each
logger found alive has been flushed once, and these are what is left of the list. -/
def Sound (pre : List Event) : Event → Prop
  | .added none ok => ok = false
  | .added (some l) ok => ok = true ↔ .added (some l) true ∉ pre
  | .visited l alive => alive = true ↔ Live pre l
  | .flushed l _ => Live pre l
  | .passEnded loggers bytes => InPass pre [] loggers loggers bytes
  | _ => True

/-! Which loggers are alive. -/

variable {s s' : Registry} {tr es : List Event} {l k : ControlBlock}

theorem alive_iff : s.Alive k ↔ 0 < s.ptrs k ∨ k ∈ s.mutex.ptrs := by
  unfold Alive useCount
  rw [← List.count_pos_iff]
  omega

@[simp] theorem addPtr_ptrs : 0 < (s.addPtr l).ptrs k ↔ 0 < s.ptrs k ∨ k = l := by
  simp only [addPtr, Function.update_apply]
  split
  · simp_all
  · simp_all

theorem dropPtr_ptrs (h : 0 < s.ptrs l) : 0 < (s.dropPtr l).ptrs k ∨ k = l ↔ 0 < s.ptrs k := by
  simp only [dropPtr, Function.update_apply]
  split
  · simp_all
  · simp_all

@[simp] theorem addPtr_mutex : (s.addPtr l).mutex = s.mutex := rfl

@[simp] theorem dropPtr_mutex : (s.dropPtr l).mutex = s.mutex := rfl

theorem alive_addPtr (hl : s.Alive l) (k : ControlBlock) : (s.addPtr l).Alive k ↔ s.Alive k := by
  rw [alive_iff] at hl
  rw [alive_iff, alive_iff, addPtr_ptrs, addPtr_mutex]
  constructor
  · rintro ((h | rfl) | h)
    · exact .inl h
    · exact hl
    · exact .inr h
  · rintro (h | h)
    · exact .inl (.inl h)
    · exact .inr h

theorem alive_dropPtr (h : 0 < s.ptrs l) (hk : k ≠ l) : (s.dropPtr l).Alive k ↔ s.Alive k := by
  rw [alive_iff, alive_iff, dropPtr_mutex, ← dropPtr_ptrs h, or_iff_left hk]

/-- `lock` of a weak pointer adds a pointer to a logger that is alive. -/
theorem alive_locked {m : LoggersMutex} (hl : s.Alive l)
    (hm : ∀ k, k ∈ m.ptrs ↔ k ∈ s.mutex.ptrs ∨ k = l) (k : ControlBlock) :
    ({ s with mutex := m } : Registry).Alive k ↔ s.Alive k := by
  rw [alive_iff] at hl
  rw [alive_iff, alive_iff, hm]
  constructor
  · rintro (h | h | rfl)
    · exact .inl h
    · exact .inr h
    · exact hl
  · rintro (h | h)
    · exact .inl h
    · exact .inr (.inl h)

/-- No logger is made, and if one is destructed then it has lost a pointer. -/
structure Loses (s s' : Registry) (es : List Event) : Prop where
  next : s'.next = s.next
  get : s'.get = s.get
  alive : (∀ k, s'.Alive k ↔ s.Alive k) ∧ (∀ k, .made k ∉ es ∧ .destructed k ∉ es) ∨
    ∃ l, s.Alive l ∧ es = s'.lost l ∧ ∀ k, k ≠ l → (s'.Alive k ↔ s.Alive k)

theorem nextStep_loses (h : s.nextStep = some (s', es)) : Loses s s' es := by
  obtain ⟨loggers, mutex, ptrs, get, next⟩ := s
  cases mutex with
  | free => cases h
  | finding logger sp rest =>
    cases sp with
    | none =>
      cases rest with
      | nil =>
        cases h
        exact ⟨rfl, rfl, .inl ⟨fun k => by simp [alive_iff, LoggersMutex.ptrs], by simp⟩⟩
      | cons elem rest =>
        cases h
        refine ⟨rfl, rfl, .inl ⟨fun k => ?_, by simp⟩⟩
        split
        · rename_i halive
          exact alive_locked halive (by simp [LoggersMutex.ptrs]) k
        · simp [alive_iff, LoggersMutex.ptrs]
    | some sp =>
      cases h
      refine ⟨rfl, rfl, .inr ⟨sp, by simp [alive_iff, LoggersMutex.ptrs], rfl, fun k hk => ?_⟩⟩
      split <;> simp [alive_iff, LoggersMutex.ptrs, hk]
  | found logger =>
    cases h
    exact ⟨rfl, rfl, .inl ⟨fun k => by simp [alive_iff, LoggersMutex.ptrs], by simp⟩⟩
  | notFound logger =>
    cases h
    exact ⟨rfl, rfl, .inl ⟨fun k => by simp [alive_iff, LoggersMutex.ptrs], by simp⟩⟩
  | removing kept rest bytes =>
    cases rest with
    | nil =>
      cases h
      exact ⟨rfl, rfl, .inl ⟨fun k => by simp [alive_iff, LoggersMutex.ptrs], by simp⟩⟩
    | cons elem rest =>
      simp only [nextStep] at h
      split at h
      · rename_i halive
        cases h
        exact ⟨rfl, rfl, .inl ⟨alive_locked halive (by simp [LoggersMutex.ptrs]), by simp⟩⟩
      · cases h
        exact ⟨rfl, rfl, .inl ⟨fun k => by simp [alive_iff, LoggersMutex.ptrs], by simp⟩⟩
  | locked kept logger rest bytes => cases h
  | flushed kept logger rest bytes =>
    cases h
    refine ⟨rfl, rfl, .inr ⟨logger, by simp [alive_iff, LoggersMutex.ptrs], rfl, fun k hk => ?_⟩⟩
    simp [alive_iff, LoggersMutex.ptrs, hk]

theorem addLogger_loses {logger : Option ControlBlock} (h : s.addLogger logger = some (s', es)) :
    Loses s s' es := by
  cases logger with
  | none =>
    cases h
    exact ⟨rfl, rfl, .inl ⟨fun _ => .rfl, by simp⟩⟩
  | some l =>
    simp only [addLogger] at h
    split at h
    · rename_i hfree
      split at h
      · rename_i hl
        cases h
        refine ⟨rfl, rfl, .inl ⟨fun k => ?_, by simp⟩⟩
        rw [alive_iff, alive_iff, hfree, ← dropPtr_ptrs hl]
        simp [LoggersMutex.ptrs]
      · cases h
    · cases h

theorem step_loses {a : Act} (h : s.step a = some (s', es)) (ha : ∀ address, a ≠ .make address) :
    Loses s s' es := by
  cases a with
  | make address => exact absurd rfl (ha address)
  | copy l =>
    simp only [step] at h
    split at h
    · rename_i hl
      cases h
      exact ⟨rfl, rfl, .inl ⟨alive_addPtr hl, by simp⟩⟩
    · cases h
  | reset l =>
    simp only [step] at h
    split at h
    · rename_i hl
      cases h
      exact ⟨rfl, rfl, .inr ⟨l, alive_iff.mpr (.inl hl), rfl, fun k => alive_dropPtr hl⟩⟩
    · cases h
  | addLogger logger => exact addLogger_loses h
  | flushAvailableDataAll =>
    simp only [step] at h
    split at h
    · rename_i hfree
      cases h
      exact ⟨rfl, rfl, .inl ⟨fun k => by simp [alive_iff, hfree, LoggersMutex.ptrs], by simp⟩⟩
    · cases h
  | next => exact nextStep_loses h
  | flush n =>
    simp only [step, flushStep] at h
    split at h
    · rename_i hlocked
      cases h
      exact ⟨rfl, rfl, .inl ⟨fun k => by simp [alive_iff, hlocked, LoggersMutex.ptrs], by simp⟩⟩
    · cases h

structure Lives (tr : List Event) (s : Registry) : Prop where
  made : ∀ l, .made l ∈ tr ↔ l < s.next
  destructed : ∀ l, .destructed l ∈ tr ↔ l < s.next ∧ ¬ s.Alive l
  known : ∀ l, s.Alive l → l < s.next
  address : ∀ l k, s.Alive l → s.Alive k → s.get l = s.get k → l = k

namespace Lives

theorem alive (lives : Lives tr s) (l : ControlBlock) : s.Alive l ↔ Live tr l := by
  unfold Live
  rw [lives.made, lives.destructed]
  constructor
  · intro h
    exact ⟨lives.known l h, fun hd => hd.2 h⟩
  · rintro ⟨hl, hd⟩
    by_contra h
    exact hd ⟨hl, h⟩

theorem start : Lives [] Registry.start := by
  have hdead : ∀ l, ¬ Registry.start.Alive l := by
    intro l h
    exact absurd h (lt_irrefl 0)
  exact ⟨fun l => by simp [Registry.start], fun l => by simp [Registry.start],
    fun l h => absurd h (hdead l), fun l _ h => absurd h (hdead l)⟩

theorem mem_lost {e : Event} : e ∈ s.lost l ↔ e = .destructed l ∧ ¬ s.Alive l := by
  unfold lost
  split
  · simp_all
  · simp_all

theorem loses (lives : Lives tr s) (h : Loses s s' es) : Lives (tr ++ es) s' := by
  have hle : ∀ k, s'.Alive k → s.Alive k := by
    intro k hk
    rcases h.alive with ⟨ha, -⟩ | ⟨l, hl, -, ha⟩
    · exact (ha k).mp hk
    · by_cases hkl : k = l
      · exact hkl ▸ hl
      · exact (ha k hkl).mp hk
  refine ⟨fun k => ?_, fun k => ?_, fun k hk => ?_, fun k k' hk hk' => ?_⟩
  · rw [List.mem_append, h.next, lives.made]
    rcases h.alive with ⟨-, hes⟩ | ⟨l, -, rfl, -⟩
    · exact or_iff_left (hes k).1
    · simp [mem_lost]
  · rw [List.mem_append, h.next, lives.destructed]
    rcases h.alive with ⟨ha, hes⟩ | ⟨l, hl, rfl, ha⟩
    · rw [ha, or_iff_left (hes k).2]
    · rw [mem_lost]
      by_cases hkl : k = l
      · subst hkl
        simp [hl, lives.known k hl]
      · simp [hkl, ha k hkl]
  · rw [h.next]
    exact lives.known k (hle k hk)
  · rw [h.get]
    exact lives.address k k' (hle k hk) (hle k' hk')

/-- The address of the new logger is that of none that is alive. -/
theorem make (lives : Lives tr s) {address : ℕ} (h : s.make address = some (s', es)) :
    Lives (tr ++ es) s' := by
  unfold Registry.make at h
  split at h
  · rename_i hfree
    have hnew : ¬ s.Alive s.next := fun hn => lt_irrefl _ (lives.known _ hn)
    have ha : ∀ k, s'.Alive k ↔ s.Alive k ∨ k = s.next := by
      intro k
      cases h
      rw [alive_iff, alive_iff]
      by_cases hk : k = s.next
      · simp [hk]
      · simp [hk]
    have hn : s'.next = s.next + 1 := by
      cases h
      rfl
    have hold : ∀ k, s.Alive k → s'.get k = s.get k := by
      intro k hk
      cases h
      refine Function.update_of_ne ?_ _ _
      rintro rfl
      exact hnew hk
    have hget : s'.get s.next = address := by
      cases h
      exact Function.update_self _ _ _
    obtain ⟨-, rfl⟩ := Prod.mk.inj (Option.some.inj h)
    refine ⟨fun k => ?_, fun k => ?_, fun k hk => ?_, fun k k' hk hk' heq => ?_⟩
    · rw [List.mem_append, hn, lives.made, List.mem_singleton, Event.made.injEq,
        Nat.lt_succ_iff_lt_or_eq]
    · rw [List.mem_append, hn, lives.destructed, or_iff_left (by simp), ha]
      constructor
      · rintro ⟨hlt, hk⟩
        exact ⟨Nat.lt_succ_of_lt hlt, fun h => h.elim hk (Nat.ne_of_lt hlt)⟩
      · rintro ⟨hlt, hk⟩
        rw [not_or] at hk
        exact ⟨(Nat.lt_succ_iff_lt_or_eq.mp hlt).resolve_right hk.2, hk.1⟩
    · rw [hn, Nat.lt_succ_iff_lt_or_eq]
      exact ((ha k).mp hk).imp_left (lives.known k)
    · rcases (ha k).mp hk with hk | rfl
      · rcases (ha k').mp hk' with hk' | rfl
        · rw [hold k hk, hold k' hk'] at heq
          exact lives.address k k' hk hk' heq
        · rw [hold k hk, hget] at heq
          exact absurd heq (hfree k (lives.known k hk) hk)
      · rcases (ha k').mp hk' with hk' | rfl
        · rw [hold k' hk', hget] at heq
          exact absurd heq.symm (hfree k' (lives.known k' hk') hk')
        · rfl
  · cases h

theorem step (lives : Lives tr s) {a : Act} (h : s.step a = some (s', es)) : Lives (tr ++ es) s' := by
  cases a with
  | make address => exact lives.make h
  | _ => exact lives.loses (step_loses h (by simp))

end Lives

/-! How a pass goes on. -/

/-- Events of threads that are not in a pass. -/
def Event.quiet : Event → Bool
  | .made _ | .destructed _ | .added _ _ => true
  | _ => false

@[simp] theorem visits_append (tr es : List Event) : visits (tr ++ es) = visits tr ++ visits es :=
  List.filterMap_append

@[simp] theorem flushes_append (tr es : List Event) : flushes (tr ++ es) = flushes tr ++ flushes es :=
  List.filterMap_append

@[simp] theorem survivors_append (vs ws : List (ControlBlock × Bool)) :
    survivors (vs ++ ws) = survivors vs ++ survivors ws := by
  simp [survivors]

def Quiet (es : List Event) : Prop := ∀ e ∈ es, e.quiet = true

theorem Quiet.spec (h : Quiet es) :
    (∀ e ∈ es, e.boundsPass = false) ∧ visits es = [] ∧ flushes es = [] := by
  refine ⟨fun e he => ?_, List.filterMap_eq_nil_iff.mpr fun e he => ?_,
    List.filterMap_eq_nil_iff.mpr fun e he => ?_⟩
  all_goals
    have hq := h e he
    cases e with
    | made l => rfl
    | destructed l => rfl
    | added logger ok => rfl
    | _ => cases hq

theorem quiet_lost (s : Registry) (l : ControlBlock) : Quiet (s.lost l) := by
  intro e he
  obtain ⟨rfl, -⟩ := Lives.mem_lost.mp he
  rfl

theorem sound_lost (s : Registry) (l : ControlBlock) (pre : List Event) :
    ∀ e ∈ s.lost l, Sound pre e := by
  intro e he
  obtain ⟨rfl, -⟩ := Lives.mem_lost.mp he
  trivial

namespace InPass

variable {rest kept called : List ControlBlock} {bytes : ℤ}

theorem start {loggers : List ControlBlock} (tr : List Event) (h : loggers.Nodup) :
    InPass (tr ++ [.passStarted loggers]) loggers [] [] 0 := by
  have hzero : toInt 0 = 0 := toInt_eq (by norm_num) (by norm_num)
  exact ⟨tr, loggers, [], rfl, h, by simp, rfl, rfl, rfl, hzero⟩

theorem quiet (h : InPass tr rest kept called bytes) (hes : Quiet es) :
    InPass (tr ++ es) rest kept called bytes := by
  obtain ⟨pre, entries, mid, rfl, p⟩ := h
  obtain ⟨hb, hv, hf⟩ := hes.spec
  refine ⟨pre, entries, mid ++ es, by simp, p.nodup, fun e he => ?_, ?_, ?_, ?_, ?_⟩
  · exact (List.mem_append.mp he).elim (p.alone e) (hb e)
  · simpa [hv] using p.visited
  · simpa [hv] using p.kept
  · simpa [hf] using p.called
  · simpa [hf] using p.bytes

theorem visit (h : InPass tr (l :: rest) kept called bytes) (alive : Bool) :
    InPass (tr ++ [.visited l alive]) rest (kept ++ survivors [(l, alive)]) called bytes := by
  obtain ⟨pre, entries, mid, rfl, p⟩ := h
  refine ⟨pre, entries, mid ++ [.visited l alive], by simp, p.nodup, ?_, ?_, ?_, ?_, ?_⟩
  · simpa [Event.boundsPass, or_imp, forall_and] using p.alone
  · simpa [visits] using p.visited
  · rw [visits_append, survivors_append, p.kept]
    rfl
  · simpa [flushes] using p.called
  · simpa [flushes] using p.bytes

theorem flush (h : InPass tr rest kept called bytes) (l : ControlBlock) (n : ℤ) :
    InPass (tr ++ [.flushed l n]) rest kept (called ++ [l]) (toInt (bytes + n)) := by
  obtain ⟨pre, entries, mid, rfl, p⟩ := h
  refine ⟨pre, entries, mid ++ [.flushed l n], by simp, p.nodup, ?_, ?_, ?_, ?_, ?_⟩
  · simpa [Event.boundsPass, or_imp, forall_and] using p.alone
  · simpa [visits] using p.visited
  · simpa [visits] using p.kept
  · rw [flushes_append, List.map_append, p.called]
    rfl
  · rw [← p.bytes, toInt_toInt_add]
    simp [flushes]

end InPass

/-! What holds between any two steps. -/

/-- What the thread with the mutex has found so far. -/
def Holds (tr : List Event) (loggers : List ControlBlock) : LoggersMutex → Prop
  | .free => True
  | .finding logger sp rest => ∃ done, loggers = done ++ (sp.toList ++ rest) ∧ logger ∉ done
  | .found logger => logger ∈ loggers
  | .notFound logger => logger ∉ loggers
  | .removing kept rest bytes => loggers = kept ++ rest ∧ InPass tr rest kept kept bytes
  | .locked kept logger rest bytes =>
    loggers = kept ++ logger :: rest ∧ InPass tr rest (kept ++ [logger]) kept bytes
  | .flushed kept logger rest bytes =>
    loggers = kept ++ logger :: rest ∧ InPass tr rest (kept ++ [logger]) (kept ++ [logger]) bytes

theorem Holds.quiet {m : LoggersMutex} {loggers : List ControlBlock} (h : Holds tr loggers m)
    (he : Quiet es) : Holds (tr ++ es) loggers m := by
  cases m with
  | free => trivial
  | finding logger sp rest => exact h
  | found logger => exact h
  | notFound logger => exact h
  | removing kept rest bytes => exact ⟨h.1, h.2.quiet he⟩
  | locked kept logger rest bytes => exact ⟨h.1, h.2.quiet he⟩
  | flushed kept logger rest bytes => exact ⟨h.1, h.2.quiet he⟩

structure Inv (tr : List Event) (s : Registry) : Prop where
  lives : Lives tr s
  nodup : s.loggers.Nodup
  added : ∀ l, .added (some l) true ∈ tr → l < s.next ∧ (s.Alive l → l ∈ s.loggers)
  listed : ∀ l ∈ s.loggers, .added (some l) true ∈ tr
  mutex : Holds tr s.loggers s.mutex
  sound : Each Sound tr

namespace Inv

/-- What is gone stays away. -/
theorem alive_of_step (inv : Inv tr s) {a : Act} (h : s.step a = some (s', es)) (hl : l < s.next)
    (ha : s'.Alive l) : s.Alive l := by
  rw [(inv.lives.step h).alive] at ha
  rw [inv.lives.alive]
  exact ⟨(inv.lives.made l).mpr hl, fun hd => ha.2 (List.mem_append_left es hd)⟩

theorem next_le {a : Act} (inv : Inv tr s) (h : s.step a = some (s', es)) (hl : l < s.next) :
    l < s'.next := by
  rw [← (inv.lives.step h).made]
  exact List.mem_append_left es ((inv.lives.made l).mpr hl)

/-- A step that may remove entries of loggers that are not alive. -/
theorem step_of {a : Act} (inv : Inv tr s) (h : s.step a = some (s', es))
    (hl : ∀ l ∈ s.loggers, s.Alive l → l ∈ s'.loggers) (hsub : s'.loggers.Sublist s.loggers)
    (hadd : ∀ l, .added (some l) true ∉ es) (hmutex : Holds (tr ++ es) s'.loggers s'.mutex)
    (hsound : Each Sound (tr ++ es)) : Inv (tr ++ es) s' := by
  refine ⟨inv.lives.step h, inv.nodup.sublist hsub, fun l hmem => ?_, fun l hin => ?_, hmutex, hsound⟩
  · rcases List.mem_append.mp hmem with hmem | hmem
    · obtain ⟨hlt, hin⟩ := inv.added l hmem
      refine ⟨inv.next_le h hlt, fun ha => ?_⟩
      have ha := inv.alive_of_step h hlt ha
      exact hl l (hin ha) ha
    · exact absurd hmem (hadd l)
  · exact List.mem_append_left es (inv.listed l (hsub.subset hin))

/-- A step of a thread without the mutex. -/
theorem step_quiet {a : Act} (inv : Inv tr s) (h : s.step a = some (s', es))
    (hl : s'.loggers = s.loggers) (hm : s'.mutex = s.mutex) (hes : Quiet es)
    (hadd : ∀ l, .added (some l) true ∉ es) (hsound : ∀ pre, ∀ e ∈ es, Sound pre e) :
    Inv (tr ++ es) s' := by
  refine inv.step_of h (fun l hin _ => hl ▸ hin) (hl ▸ .refl _) hadd ?_ (inv.sound.append hsound)
  rw [hl, hm]
  exact inv.mutex.quiet hes

theorem not_added_lost (s : Registry) (l k : ControlBlock) : .added (some k) true ∉ s.lost l := by
  intro h
  cases (Lives.mem_lost.mp h).1

/-- The address tells the entry of the logger from those of all others that are alive. -/
theorem found_sp (inv : Inv tr s) {logger sp : ControlBlock} {rest : List ControlBlock}
    (hm : s.mutex = .finding logger (some sp) rest) : s.get sp = s.get logger ↔ sp = logger := by
  have hsp : s.Alive sp := alive_iff.mpr (.inr (by simp [hm, LoggersMutex.ptrs]))
  have hlogger : s.Alive logger := alive_iff.mpr (.inr (by simp [hm, LoggersMutex.ptrs]))
  exact ⟨inv.lives.address sp logger hsp hlogger, fun h => h ▸ rfl⟩

/-- A step of the search, which finds the entry of the logger if it comes to it. -/
theorem findStep (inv : Inv tr s) {logger : ControlBlock} {sp : Option ControlBlock}
    {rest : List ControlBlock} (hm : s.mutex = .finding logger sp rest)
    (h : s.nextStep = some (s', es)) : Inv (tr ++ es) s' := by
  have hmutex := inv.mutex
  have hstep : s.step .next = some (s', es) := h
  rw [hm] at hmutex
  obtain ⟨done, hlist, hnot⟩ := hmutex
  rw [Registry.nextStep, hm] at h
  cases sp with
  | none =>
    cases rest with
    | nil =>
      cases h
      refine inv.step_of hstep (fun l hl _ => hl) (.refl _) (by simp) ?_ (by simpa using inv.sound)
      change logger ∉ s.loggers
      rwa [hlist, Option.toList_none, List.append_nil, List.append_nil]
    | cons elem rest =>
      cases h
      refine inv.step_of hstep (fun l hl _ => hl) (.refl _) (by simp) ?_ (by simpa using inv.sound)
      by_cases halive : s.Alive elem
      · rw [if_pos halive]
        exact ⟨done, hlist, hnot⟩
      · -- the entry is not that of the logger, which is alive
        have hne : logger ≠ elem := by
          rintro rfl
          exact halive (alive_iff.mpr (.inr (by simp [hm, LoggersMutex.ptrs])))
        rw [if_neg halive]
        exact ⟨done ++ [elem], by simpa using hlist, by simp [hnot, hne]⟩
  | some sp =>
    have hfound := inv.found_sp hm
    cases h
    refine inv.step_of hstep (fun l hl _ => hl) (.refl _) (not_added_lost _ sp) ?_
      (inv.sound.append (sound_lost _ sp))
    by_cases hget : s.get sp = s.get logger
    · rw [if_pos hget]
      change logger ∈ s.loggers
      rw [hlist, ← hfound.mp hget]
      simp
    · have hne : logger ≠ sp := fun he => hget (hfound.mpr he.symm)
      rw [if_neg hget]
      exact ⟨done ++ [sp], by simpa using hlist, by simp [hnot, hne]⟩

theorem foundStep (inv : Inv tr s) {logger : ControlBlock} (hm : s.mutex = .found logger)
    (h : s.nextStep = some (s', es)) : Inv (tr ++ es) s' := by
  have hmutex := inv.mutex
  have hstep : s.step .next = some (s', es) := h
  rw [hm] at hmutex
  rw [Registry.nextStep, hm] at h
  cases h
  refine inv.step_of hstep (fun l hl _ => hl) (.refl _) (by simp) trivial (inv.sound.snoc ?_)
  exact iff_of_false Bool.false_ne_true fun hnew => hnew (inv.listed logger hmutex)

theorem notFoundStep (inv : Inv tr s) {logger : ControlBlock} (hm : s.mutex = .notFound logger)
    (h : s.nextStep = some (s', es)) : Inv (tr ++ es) s' := by
  have hmutex := inv.mutex
  have hstep : s.step .next = some (s', es) := h
  have halive : s.Alive logger := alive_iff.mpr (.inr (by simp [hm, LoggersMutex.ptrs]))
  rw [hm] at hmutex
  rw [Registry.nextStep, hm] at h
  cases h
  refine ⟨inv.lives.step hstep, ?_, fun l hl => ?_, fun l hl => ?_, trivial, inv.sound.snoc ?_⟩
  · rw [List.nodup_append_comm]
    exact List.nodup_cons.mpr ⟨hmutex, inv.nodup⟩
  · rcases List.mem_append.mp hl with hl | hl
    · obtain ⟨hlt, hin⟩ := inv.added l hl
      refine ⟨hlt, fun ha => List.mem_append_left _ (hin ?_)⟩
      exact inv.alive_of_step hstep hlt ha
    · cases List.mem_singleton.mp hl
      refine ⟨inv.lives.known logger halive, fun _ => ?_⟩
      exact List.mem_append_right _ (List.mem_singleton_self _)
  · rcases List.mem_append.mp hl with hl | hl
    · exact List.mem_append_left _ (inv.listed l hl)
    · rw [List.mem_singleton.mp hl]
      exact List.mem_append_right _ (List.mem_singleton_self _)
  · exact iff_of_true rfl fun hold => hmutex ((inv.added logger hold).2 halive)

/-- A step of the pass, which removes an entry only if its logger is not alive. -/
theorem removeStep (inv : Inv tr s) {kept rest : List ControlBlock} {bytes : ℤ}
    (hm : s.mutex = .removing kept rest bytes) (h : s.nextStep = some (s', es)) :
    Inv (tr ++ es) s' := by
  have hmutex := inv.mutex
  have hstep : s.step .next = some (s', es) := h
  rw [hm] at hmutex
  obtain ⟨hlist, hpass⟩ := hmutex
  rw [Registry.nextStep, hm] at h
  cases rest with
  | nil =>
    cases h
    refine inv.step_of hstep (fun l hl _ => hl) (.refl _) (by simp) trivial (inv.sound.snoc ?_)
    rw [List.append_nil] at hlist
    exact hlist ▸ hpass
  | cons elem rest =>
    have hvisited := inv.lives.alive elem
    simp only at h
    split at h
    · rename_i halive
      cases h
      refine inv.step_of hstep (fun l hl _ => hl) (.refl _) (by simp) ⟨hlist, hpass.visit true⟩
        (inv.sound.snoc ?_)
      exact iff_of_true rfl (hvisited.mp halive)
    · rename_i halive
      cases h
      refine inv.step_of hstep (fun l hl ha => ?_) ?_ (by simp) ⟨rfl, ?_⟩ (inv.sound.snoc ?_)
      · have hne : l ≠ elem := fun he => halive (he ▸ ha)
        rw [hlist] at hl
        simpa [hne] using hl
      · rw [hlist]
        exact (List.sublist_cons_self elem rest).append_left kept
      · simpa [survivors] using hpass.visit false
      · exact iff_of_false Bool.false_ne_true fun hlive => halive (hvisited.mpr hlive)

theorem flushedStep (inv : Inv tr s) {kept rest : List ControlBlock} {logger : ControlBlock}
    {bytes : ℤ} (hm : s.mutex = .flushed kept logger rest bytes) (h : s.nextStep = some (s', es)) :
    Inv (tr ++ es) s' := by
  have hmutex := inv.mutex
  have hstep : s.step .next = some (s', es) := h
  rw [hm] at hmutex
  obtain ⟨hlist, hpass⟩ := hmutex
  rw [Registry.nextStep, hm] at h
  cases h
  have hquiet := quiet_lost { s with mutex := .removing (kept ++ [logger]) rest bytes } logger
  exact inv.step_of hstep (fun l hl _ => hl) (.refl _) (not_added_lost _ logger)
    ⟨by simpa using hlist, hpass.quiet hquiet⟩ (inv.sound.append (sound_lost _ logger))

theorem nextStep (inv : Inv tr s) (h : s.nextStep = some (s', es)) : Inv (tr ++ es) s' := by
  cases hm : s.mutex with
  | free =>
    rw [Registry.nextStep, hm] at h
    cases h
  | finding logger sp rest => exact inv.findStep hm h
  | found logger => exact inv.foundStep hm h
  | notFound logger => exact inv.notFoundStep hm h
  | removing kept rest bytes => exact inv.removeStep hm h
  | locked kept logger rest bytes =>
    rw [Registry.nextStep, hm] at h
    cases h
  | flushed kept logger rest bytes => exact inv.flushedStep hm h

theorem flushStep (inv : Inv tr s) {n : ℤ} (h : s.flushStep n = some (s', es)) :
    Inv (tr ++ es) s' := by
  have hmutex := inv.mutex
  have hstep : s.step (.flush n) = some (s', es) := h
  unfold Registry.flushStep at h
  split at h
  · rename_i kept logger rest bytes hm
    have halive : s.Alive logger := alive_iff.mpr (.inr (by simp [hm, LoggersMutex.ptrs]))
    rw [hm] at hmutex
    cases h
    exact inv.step_of hstep (fun l hl _ => hl) (.refl _) (by simp)
      ⟨hmutex.1, hmutex.2.flush logger n⟩ (inv.sound.snoc ((inv.lives.alive logger).mp halive))
  · cases h

theorem addLogger (inv : Inv tr s) {logger : Option ControlBlock}
    (h : s.addLogger logger = some (s', es)) : Inv (tr ++ es) s' := by
  have hstep : s.step (.addLogger logger) = some (s', es) := h
  cases logger with
  | none =>
    cases h
    exact inv.step_quiet hstep rfl rfl (by simp [Quiet, Event.quiet]) (by simp) (by simp [Sound])
  | some l =>
    simp only [Registry.addLogger] at h
    split at h
    · split at h
      · cases h
        exact inv.step_of hstep (fun l hl _ => hl) (.refl _) (by simp) ⟨[], rfl, by simp⟩
          (by simpa using inv.sound)
      · cases h
    · cases h

theorem start : Inv [] start := by
  exact ⟨Lives.start, List.nodup_nil, by simp, by simp [Registry.start], trivial, each_nil⟩

theorem step (inv : Inv tr s) {a : Act} (h : s.step a = some (s', es)) : Inv (tr ++ es) s' := by
  have hstep := h
  cases a with
  | make address =>
    simp only [Registry.step, Registry.make] at h
    split at h
    · cases h
      exact inv.step_quiet hstep rfl rfl (by simp [Quiet, Event.quiet]) (by simp) (by simp [Sound])
    · cases h
  | copy l =>
    simp only [Registry.step] at h
    split at h
    · cases h
      exact inv.step_quiet hstep rfl rfl (by simp [Quiet]) (by simp) (by simp)
    · cases h
  | reset l =>
    simp only [Registry.step] at h
    split at h
    · cases h
      exact inv.step_quiet hstep rfl rfl (quiet_lost _ l) (not_added_lost _ l) (sound_lost _ l)
    · cases h
  | addLogger logger => exact inv.addLogger h
  | flushAvailableDataAll =>
    simp only [Registry.step] at h
    split at h
    · cases h
      exact inv.step_of hstep (fun l hl _ => hl) (.refl _) (by simp)
        ⟨rfl, InPass.start tr inv.nodup⟩ (inv.sound.snoc trivial)
    · cases h
  | next => exact inv.nextStep h
  | flush n => exact inv.flushStep h

end Inv

/-! All runs. -/

theorem inv_of_run {hist : List Registry} (h : system.Run hist tr s) : Inv tr s := by
  refine h.inv (fun s hs => hs ▸ Inv.start) ?_
  rintro tr s es s' inv ⟨a, hst⟩
  exact inv.step hst

/-- In every state no entry of a live logger occurs twice, and a live logger for which `add_logger`
has returned `true` has one. Each pass has done what its events say. -/
theorem registered {hist : List Registry} (h : system.Run hist tr s) :
    (∀ l, s.Alive l → s.loggers.count l ≤ 1) ∧
    (∀ l, s.Alive l → .added (some l) true ∈ tr → l ∈ s.loggers) ∧
    (∀ l, s.Alive l ↔ Live tr l) ∧ Each Sound tr := by
  have inv := inv_of_run h
  refine ⟨fun l _ => ?_, fun l ha hadd => (inv.added l hadd).2 ha, inv.lives.alive, inv.sound⟩
  exact List.nodup_iff_count_le_one.mp inv.nodup l

/-- Three loggers at one address, each made when the one before is gone. A pass removes the entry of
the first, and is left with the only pointer to the second. -/
def reused : List Act :=
  [.make 5, .addLogger (some 0), .next, .next, .reset 0,
    .make 5, .addLogger (some 1), .next, .next, .next, .addLogger (some 1), .next, .next, .next, .next,
    .flushAvailableDataAll, .next, .next, .reset 1, .flush 80, .next, .next,
    .make 5, .addLogger (some 2), .next, .next, .next]

theorem registered_reused : ∃ hist tr s, system.Run hist tr s ∧ .passEnded [1] 80 ∈ tr ∧
    .destructed 1 ∈ tr ∧ s.loggers.count 2 ≤ 1 ∧ 2 ∈ s.loggers ∧ Each Sound tr := by
  have hex : (exec Registry.step Registry.start reused).map (fun p =>
      decide (.passEnded [1] 80 ∈ p.2 ∧ .destructed 1 ∈ p.2 ∧ .added (some 2) true ∈ p.2 ∧
        p.1.Alive 2)) = some true := by
    decide +kernel
  rw [Option.map_eq_some_iff] at hex
  obtain ⟨⟨s, tr⟩, h, hs⟩ := hex
  obtain ⟨hended, hgone, hadded, halive⟩ := of_decide_eq_true hs
  obtain ⟨hist, hr⟩ := System.Run.exec (S := system) (fun _ a _ _ ha => ⟨a, ha⟩) (.start rfl) h
  obtain ⟨hcount, hlisted, -, hsound⟩ := registered hr
  exact ⟨_, tr, s, hr, hended, hgone, hcount 2 halive, hlisted 2 halive hadded, hsound⟩

/-- How many steps the thread with the mutex has left, at most. -/
def left : LoggersMutex → ℕ
  | .free => 0
  | .finding _ sp rest => 2 * rest.length + sp.toList.length + 2
  | .found _ | .notFound _ => 1
  | .removing _ rest _ => 3 * rest.length + 1
  | .locked _ _ rest _ => 3 * rest.length + 3
  | .flushed _ _ rest _ => 3 * rest.length + 2

theorem nextStep_left (h : s.nextStep = some (s', es)) : left s'.mutex < left s.mutex := by
  unfold nextStep at h
  split at h
  · cases h
  · rename_i hm
    cases h
    simp [hm, left]
  · rename_i elem rest hm
    cases h
    rw [hm]
    dsimp only
    split
    · simp [left]
      omega
    · simp [left]
  · rename_i hm
    cases h
    rw [hm]
    dsimp only
    split
    · simp [left]
    · simp [left]
  · rename_i hm
    cases h
    simp [hm, left]
  · rename_i hm
    cases h
    simp [hm, left]
  · rename_i hm
    cases h
    simp [hm, left]
  · rename_i hm
    rw [hm]
    split at h <;> cases h
    · simp [left]
      omega
    · simp [left]
  · cases h
  · rename_i hm
    cases h
    simp [hm, left]

/-- The thread with the mutex goes on, unless it is inside a logger. -/
theorem next_goes_on (hfree : s.mutex ≠ .free)
    (hlocked : ∀ kept l rest bytes, s.mutex ≠ .locked kept l rest bytes) :
    s.nextStep.isSome = true := by
  rw [nextStep]
  cases hm : s.mutex with
  | free => exact absurd hm hfree
  | finding logger sp rest =>
    cases sp with
    | none => cases rest <;> rfl
    | some sp => rfl
  | found logger => rfl
  | notFound logger => rfl
  | removing kept rest bytes =>
    cases rest with
    | nil => rfl
    | cons elem rest =>
      dsimp only
      split <;> rfl
  | locked kept logger rest bytes => exact absurd hm (hlocked _ _ _ _)
  | flushed kept logger rest bytes => rfl

/-- A thread with the mutex can go on, and no other thread takes it back. So a pass comes to its
end, after at most so many steps of its own. -/
theorem goes_on (hm : s.mutex ≠ .free) :
    (∃ a s' es, s.step a = some (s', es) ∧ left s'.mutex < left s.mutex) ∧
      ∀ a s' es, s.step a = some (s', es) → s'.mutex = s.mutex ∨ left s'.mutex < left s.mutex := by
  have hflush : ∀ n s' es, s.flushStep n = some (s', es) → left s'.mutex < left s.mutex := by
    intro n s' es h
    unfold flushStep at h
    split at h
    · rename_i hlocked
      cases h
      simp [hlocked, left]
    · cases h
  refine ⟨?_, fun a s' es h => ?_⟩
  · by_cases hlocked : ∃ kept logger rest bytes, s.mutex = .locked kept logger rest bytes
    · obtain ⟨kept, logger, rest, bytes, hl⟩ := hlocked
      have hsome : (s.flushStep 0).isSome := by simp [flushStep, hl]
      obtain ⟨⟨s', es⟩, h⟩ := Option.isSome_iff_exists.mp hsome
      exact ⟨.flush 0, s', es, h, hflush 0 s' es h⟩
    · push Not at hlocked
      have hsome := next_goes_on hm hlocked
      obtain ⟨⟨s', es⟩, h⟩ := Option.isSome_iff_exists.mp hsome
      exact ⟨.next, s', es, h, nextStep_left h⟩
  · cases a with
    | make address =>
      simp only [step, make] at h
      split at h <;> cases h
      exact .inl rfl
    | copy l =>
      simp only [step] at h
      split at h <;> cases h
      exact .inl rfl
    | reset l =>
      simp only [step] at h
      split at h <;> cases h
      exact .inl rfl
    | addLogger logger =>
      cases logger with
      | none =>
        cases h
        exact .inl rfl
      | some l =>
        simp only [step, addLogger] at h
        cases h
    | flushAvailableDataAll =>
      simp only [step] at h
      cases h
    | next => exact .inr (nextStep_left h)
    | flush n => exact .inr (hflush n s' es h)

end Registry

end XBot
