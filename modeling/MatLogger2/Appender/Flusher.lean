import MatLogger2.Lib.Transition
import MatLogger2.VarBuffer.Types

/-! The flusher thread and those who wake it up. Producers call `on_block_available`, and the
destructor asks the flusher to exit. Sections under the mutex of the condition are one step, but
for the flusher's own, which holds the mutex over several. -/

namespace XBot

open Transition

/-- Where `flush_thread_main` is. -/
inductive FlusherPc
  | notStarted
  | check
  | pass
  | lock
  | test
  | waiting (notified : Bool)
  | reset
  | unlock
  | exited
  deriving DecidableEq

/-- Where a producer is in `on_block_available`. -/
inductive NotifierPc
  | idle
  | load (info : BufferInfo)
  | store (info : BufferInfo) (bytes : ℤ)
  | test (info : BufferInfo)
  | notify

inductive DestructorPc
  | notCalled
  | join
  | done
  deriving DecidableEq

/-- `ι` names the producers. -/
structure MatAppender (ι : Type) where
  availableBytes : ℤ
  flushThreadWakeUp : Bool
  flushThreadRun : Bool
  flusher : FlusherPc
  notifier : ι → NotifierPc
  destructor : DestructorPc

inductive FlusherEvent
  /-- `_flush_thread_wake_up = true` -/
  | raised
  /-- `_flush_thread_run = false` -/
  | stopped
  | passStarted
  /-- The predicate was false, and the flusher waits. -/
  | blocked
  deriving DecidableEq

def NOTIFY_THRESHOLD_BYTES : ℤ := 30000000

def NOTIFY_THRESHOLD_SPACE_AVAILABLE : ℚ := 1 / 2

namespace FlusherPc

/-- The wait has released the mutex. -/
def holdsMutex : FlusherPc → Bool
  | .test | .reset | .unlock => true
  | _ => false

/-- `_cond.notify_one()` -/
def notifyOne : FlusherPc → FlusherPc
  | .waiting _ => .waiting true
  | pc => pc

/-- From the start of a pass until the flag is reset. -/
def covering : FlusherPc → Bool
  | .pass | .lock | .test | .waiting _ => true
  | _ => false

/-- The flusher does not come back to the wait unless it starts another pass. -/
def leaving : FlusherPc → Bool
  | .notStarted | .unlock | .check | .exited => true
  | _ => false

theorem notifyOne_eq_notStarted {pc : FlusherPc} : pc.notifyOne = .notStarted ↔ pc = .notStarted := by
  cases pc <;> simp [notifyOne]

end FlusherPc

namespace MatAppender

variable {ι : Type} [DecidableEq ι]

def make : MatAppender ι where
  availableBytes := 0
  flushThreadWakeUp := false
  flushThreadRun := false
  flusher := .notStarted
  notifier _ := .idle
  destructor := .notCalled

def setNotifier (s : MatAppender ι) (i : ι) (pc : NotifierPc) : MatAppender ι :=
  { s with notifier := Function.update s.notifier i pc }

/-- Enough new data, or too little space in the queue. -/
def notifies (availableBytes : ℤ) (info : BufferInfo) : Prop :=
  availableBytes > NOTIFY_THRESHOLD_BYTES ∨
    info.variableFreeSpace < NOTIFY_THRESHOLD_SPACE_AVAILABLE

instance (availableBytes : ℤ) (info : BufferInfo) : Decidable (notifies availableBytes info) :=
  inferInstanceAs (Decidable (_ ∨ _))

/-- One step of `on_block_available`. -/
def notifierStep (s : MatAppender ι) (i : ι) : Option (MatAppender ι × List FlusherEvent) :=
  match s.notifier i with
  | .idle => none
  -- `_available_bytes` is read and written without the mutex
  | .load info => some (s.setNotifier i (.store info s.availableBytes), [])
  | .store info bytes =>
    some ({ s.setNotifier i (.test info) with
      availableBytes := toInt (bytes + info.newAvailableBytes) }, [])
  | .test info =>
    some (s.setNotifier i (if notifies s.availableBytes info then .notify else .idle), [])
  | .notify =>
    if s.flusher.holdsMutex then none
    else
      some ({ s.setNotifier i .idle with
        availableBytes := 0
        flushThreadWakeUp := true
        flusher := s.flusher.notifyOne }, [.raised])

/-- One step of `flush_thread_main`. A wait may also end without a notification. -/
def flusherStep (s : MatAppender ι) : Option (MatAppender ι × List FlusherEvent) :=
  match s.flusher with
  | .notStarted | .exited => none
  | .check =>
    if s.flushThreadRun then some ({ s with flusher := .pass }, [.passStarted])
    else some ({ s with flusher := .exited }, [])
  | .pass => some ({ s with flusher := .lock }, [])
  | .lock => some ({ s with flusher := .test }, [])
  | .test =>
    if s.flushThreadWakeUp then some ({ s with flusher := .reset }, [])
    else some ({ s with flusher := .waiting false }, [.blocked])
  | .waiting _ => some ({ s with flusher := .test }, [])
  | .reset => some ({ s with flushThreadWakeUp := false, flusher := .unlock }, [])
  | .unlock => some ({ s with flusher := .check }, [])

def startFlushThread (s : MatAppender ι) : Option (MatAppender ι) :=
  match s.flusher, s.destructor with
  | .notStarted, .notCalled => some { s with flushThreadRun := true, flusher := .check }
  | _, _ => none

def destructorStep (s : MatAppender ι) : Option (MatAppender ι × List FlusherEvent) :=
  match s.destructor with
  | .notCalled =>
    if s.flusher = .notStarted then some ({ s with destructor := .done }, [])
    else if s.flusher.holdsMutex then none
    else
      some ({ s with
        flushThreadRun := false
        flushThreadWakeUp := true
        flusher := s.flusher.notifyOne
        destructor := .join }, [.stopped, .raised])
  | .join => if s.flusher = .exited then some ({ s with destructor := .done }, []) else none
  | .done => none

inductive Act (ι : Type)
  | startFlushThread
  | onBlockAvailable (i : ι) (info : BufferInfo)
  | notifier (i : ι)
  | flusher
  | destructor

def step (s : MatAppender ι) : Act ι → Option (MatAppender ι × List FlusherEvent)
  | .startFlushThread => s.startFlushThread.map fun s => (s, [])
  | .onBlockAvailable i info =>
    match s.notifier i with
    | .idle => some (s.setNotifier i (.load info), [])
    | _ => none
  | .notifier i => s.notifierStep i
  | .flusher => s.flusherStep
  | .destructor => s.destructorStep

end MatAppender

/-- An appender, its flusher thread and any producers, in any interleaving. -/
def appender (ι : Type) [DecidableEq ι] : System (MatAppender ι) FlusherEvent where
  init s := s = MatAppender.make
  step s es s' := ∃ a, s.step a = some (s', es)

namespace MatAppender

variable {ι : Type} {s s' : MatAppender ι} {tr es : List FlusherEvent}

/-- The last pass has started after every notification so far. -/
def Covered (tr : List FlusherEvent) : Prop :=
  Since (· = .passStarted) (fun e => e ≠ .passStarted ∧ e ≠ .raised) tr

/-- What holds between any two steps. -/
structure Inv (tr : List FlusherEvent) (s : MatAppender ι) : Prop where
  covered : s.flusher.covering = true → s.flushThreadWakeUp = false → Covered tr
  running : s.flushThreadRun = false → s.flushThreadWakeUp = true ∨ s.flusher.leaving = true
  started : .stopped ∈ tr → s.flushThreadRun = false ∧ s.flusher ≠ .notStarted
  notified : ∀ b, s.flusher = .waiting b → s.flushThreadWakeUp = true → b = true
  unblocked : ∀ pre post, tr = pre ++ .stopped :: post → .blocked ∉ post

/-- Events that come after a stop are not that the flusher waits. -/
theorem unblocked_append (h : ∀ pre post, tr = pre ++ FlusherEvent.stopped :: post → .blocked ∉ post)
    (hes : .stopped ∈ tr → .blocked ∉ es)
    (hnew : ∀ pre post, es = pre ++ .stopped :: post → .blocked ∉ post) :
    ∀ pre post, tr ++ es = pre ++ FlusherEvent.stopped :: post → .blocked ∉ post := by
  intro pre post he
  rcases List.append_eq_append_iff.mp he with ⟨mid, -, hmid⟩ | ⟨mid, rfl, hmid⟩
  · exact hnew mid post hmid
  · cases mid with
    | nil =>
      exact hnew [] post hmid.symm
    | cons e mid =>
      obtain ⟨rfl, rfl⟩ := List.cons.inj hmid
      intro hb
      rcases List.mem_append.mp hb with hb | hb
      · exact h pre mid rfl hb
      · exact hes (by simp) hb

namespace Inv

theorem init : Inv [] (make : MatAppender ι) :=
  ⟨nofun, fun _ => .inr rfl, nofun, nofun, by simp⟩

/-- Steps that neither the flusher nor the flags take part in. -/
theorem quiet (inv : Inv tr s) (hf : s'.flusher = s.flusher)
    (hw : s'.flushThreadWakeUp = s.flushThreadWakeUp)
    (hr : s'.flushThreadRun = s.flushThreadRun) : Inv tr s' := by
  refine ⟨?_, ?_, ?_, ?_, inv.unblocked⟩
  · rw [hf, hw]
    exact inv.covered
  · rw [hf, hw, hr]
    exact inv.running
  · rw [hf, hr]
    exact inv.started
  · rw [hf, hw]
    exact inv.notified

/-- A section that raises the flag, and may stop the flusher. -/
theorem raise (inv : Inv tr s) (hf : s'.flusher = s.flusher.notifyOne)
    (hw : s'.flushThreadWakeUp = true) (hes : .blocked ∉ es)
    (hrun : s'.flushThreadRun = s.flushThreadRun ∧ .stopped ∉ es ∨
      s'.flushThreadRun = false ∧ s.flusher ≠ .notStarted) : Inv (tr ++ es) s' := by
  refine ⟨fun _ h => ?_, fun _ => .inl hw, fun hstop => ?_, fun b hb _ => ?_, ?_⟩
  · rw [hw] at h
    cases h
  · rw [hf, ne_eq, FlusherPc.notifyOne_eq_notStarted]
    rcases hrun with ⟨hr, hno⟩ | h
    · rcases List.mem_append.mp hstop with hstop | hstop
      · rw [hr]
        exact inv.started hstop
      · exact absurd hstop hno
    · exact h
  · rw [hf] at hb
    cases hpc : s.flusher <;> rw [hpc] at hb <;> cases hb
    rfl
  · refine unblocked_append inv.unblocked (fun _ => hes) fun pre post he hb => hes ?_
    rw [he]
    simp [hb]

/-- A step of the flusher that does not start a pass, wait or reset the flag. -/
theorem goto (inv : Inv tr s) {pc : FlusherPc} (hpc : pc ≠ .notStarted ∧ ∀ b, pc ≠ .waiting b)
    (hcover : pc.covering = true → s.flusher.covering = true)
    (hleave : s.flushThreadRun = false → s.flusher.leaving = true → pc.leaving = true) :
    Inv tr { s with flusher := pc } := by
  refine ⟨fun h => inv.covered (hcover h), fun h => ?_, fun h => ⟨(inv.started h).1, hpc.1⟩,
    fun b hb => absurd hb (hpc.2 b), inv.unblocked⟩
  rcases inv.running h with hw | hl
  · exact .inl hw
  · exact .inr (hleave h hl)

theorem flusherStep (inv : Inv tr s) (h : s.flusherStep = some (s', es)) : Inv (tr ++ es) s' := by
  obtain ⟨bytes, wake, run, pc, notifier, destructor⟩ := s
  cases pc with
  | notStarted => cases h
  | exited => cases h
  | check =>
    cases run with
    | false =>
      cases h
      rw [List.append_nil]
      exact inv.goto ⟨nofun, nofun⟩ nofun fun _ _ => rfl
    | true =>
      cases h
      refine ⟨fun _ _ => since_now tr rfl, nofun, fun hstop => ?_, nofun, ?_⟩
      · have := inv.started (by simpa using hstop)
        exact absurd this.1 nofun
      · exact unblocked_append inv.unblocked (by simp) (by simp [List.cons_eq_append_iff])
  | pass =>
    cases h
    rw [List.append_nil]
    exact inv.goto ⟨nofun, nofun⟩ (fun _ => rfl) nofun
  | lock =>
    cases h
    rw [List.append_nil]
    exact inv.goto ⟨nofun, nofun⟩ (fun _ => rfl) nofun
  | test =>
    cases wake with
    | true =>
      cases h
      rw [List.append_nil]
      exact inv.goto ⟨nofun, nofun⟩ nofun nofun
    | false =>
      -- a stopped flusher has the flag raised, so that this one goes on
      have hrun : run = true := by
        cases run with
        | true => rfl
        | false => rcases inv.running rfl with h | h <;> cases h
      subst hrun
      have hnot : FlusherEvent.stopped ∉ tr := fun hstop => absurd (inv.started hstop).1 nofun
      cases h
      refine ⟨fun _ _ => ?_, nofun, fun hstop => ?_, nofun, ?_⟩
      · exact Since.snoc (inv.covered rfl rfl) ⟨nofun, nofun⟩
      · exact absurd (by simpa using hstop) hnot
      · exact unblocked_append inv.unblocked (fun h => absurd h hnot)
          (by simp [List.cons_eq_append_iff])
  | waiting b =>
    cases h
    rw [List.append_nil]
    exact inv.goto ⟨nofun, nofun⟩ (fun _ => rfl) nofun
  | reset =>
    cases h
    rw [List.append_nil]
    exact ⟨nofun, fun _ => .inr rfl, fun h => ⟨(inv.started h).1, nofun⟩, nofun, inv.unblocked⟩
  | unlock =>
    cases h
    rw [List.append_nil]
    exact inv.goto ⟨nofun, nofun⟩ nofun fun _ _ => rfl

theorem startFlushThread (inv : Inv tr s) (h : s.startFlushThread = some s') : Inv tr s' := by
  unfold MatAppender.startFlushThread at h
  split at h
  · rename_i hpc _
    cases h
    exact ⟨nofun, nofun, fun hstop => absurd hpc (inv.started hstop).2, nofun, inv.unblocked⟩
  · cases h

theorem destructorStep (inv : Inv tr s) (h : s.destructorStep = some (s', es)) :
    Inv (tr ++ es) s' := by
  unfold MatAppender.destructorStep at h
  split at h
  · split_ifs at h with hnot hmutex
    · cases h
      rw [List.append_nil]
      exact inv.quiet rfl rfl rfl
    · cases h
      exact inv.raise rfl rfl (by simp) (.inr ⟨rfl, hnot⟩)
  · split_ifs at h
    cases h
    rw [List.append_nil]
    exact inv.quiet rfl rfl rfl
  · cases h

variable [DecidableEq ι]

theorem notifierStep (inv : Inv tr s) {i : ι} (h : s.notifierStep i = some (s', es)) :
    Inv (tr ++ es) s' := by
  unfold MatAppender.notifierStep at h
  split at h
  · cases h
  · cases h
    rw [List.append_nil]
    exact inv.quiet rfl rfl rfl
  · cases h
    rw [List.append_nil]
    exact inv.quiet rfl rfl rfl
  · cases h
    rw [List.append_nil]
    exact inv.quiet rfl rfl rfl
  · split_ifs at h
    cases h
    exact inv.raise rfl rfl (by simp) (.inl ⟨rfl, by simp⟩)

theorem step (inv : Inv tr s) {a : Act ι} (h : s.step a = some (s', es)) : Inv (tr ++ es) s' := by
  cases a with
  | startFlushThread =>
    obtain ⟨s₁, hs, he⟩ := Option.map_eq_some_iff.mp h
    cases he
    rw [List.append_nil]
    exact inv.startFlushThread hs
  | onBlockAvailable i info =>
    simp only [MatAppender.step] at h
    split at h
    · cases h
      rw [List.append_nil]
      exact inv.quiet rfl rfl rfl
    · cases h
  | notifier i => exact inv.notifierStep h
  | flusher => exact inv.flusherStep h
  | destructor => exact inv.destructorStep h

theorem run {hist : List (MatAppender ι)} (h : (appender ι).Run hist tr s) : Inv tr s := by
  refine h.inv ?_ ?_
  · rintro s rfl
    exact init
  · rintro tr s es s' inv ⟨a, ha⟩
    exact inv.step ha

end Inv

/-- The flusher is in the wait and its predicate is false. -/
def Blocked (s : MatAppender ι) : Prop :=
  (∃ b, s.flusher = .waiting b) ∧ s.flushThreadWakeUp = false

/-- No wake-up is lost: a blocked flusher has not been stopped, and its last pass has started after
every notification. A flusher that waits on a raised flag has been notified. Once it is stopped it
does not wait again. -/
theorem no_lost_wakeup [DecidableEq ι] {hist : List (MatAppender ι)} (h : (appender ι).Run hist tr s) :
    (s.Blocked → s.flushThreadRun = true ∧ Covered tr ∧
      ∀ pre post, tr = pre ++ .raised :: post → .passStarted ∈ post) ∧
    (∀ b, s.flusher = .waiting b → s.flushThreadWakeUp = true → b = true) ∧
    ∀ pre post, tr = pre ++ .stopped :: post → .blocked ∉ post := by
  have inv := Inv.run h
  refine ⟨fun ⟨⟨b, hb⟩, hw⟩ => ?_, inv.notified, inv.unblocked⟩
  have hcov := inv.covered (by rw [hb]; rfl) hw
  refine ⟨?_, hcov, fun pre post he => ?_⟩
  · by_contra hrun
    rcases inv.running (Bool.eq_false_iff.mpr hrun) with h | h
    · rw [hw] at h
      cases h
    · rw [hb] at h
      cases h
  · obtain ⟨e, hmem, rfl⟩ := hcov.follows he nofun (by simp)
    exact hmem

/-- A pass, a wait, a notification of a queue that is getting full, and another pass and wait. -/
def wokenOnce : List (Act Unit) :=
  [.startFlushThread] ++ List.replicate 4 .flusher ++ [.onBlockAvailable () ⟨[], 8, 9⟩] ++
    List.replicate 4 (.notifier ()) ++ List.replicate 8 .flusher

theorem no_lost_wakeup_once : ∃ hist tr s, (appender Unit).Run hist tr s ∧ s.Blocked ∧
    s.flushThreadRun = true ∧ .raised ∈ tr ∧ Covered tr := by
  have hex : ((exec step make wokenOnce).map fun p =>
      (p.1.flusher, p.1.flushThreadWakeUp, decide (FlusherEvent.raised ∈ p.2))) =
      some (.waiting false, false, true) := by
    decide +kernel
  rw [Option.map_eq_some_iff] at hex
  obtain ⟨⟨s, tr⟩, h, hs⟩ := hex
  simp only [Prod.mk.injEq, decide_eq_true_eq] at hs
  obtain ⟨hist, hr⟩ := System.Run.exec (S := appender Unit) (fun _ a _ _ ha => ⟨a, ha⟩) (.start rfl) h
  have hb : s.Blocked := ⟨⟨false, hs.1⟩, hs.2.1⟩
  obtain ⟨hrun, hcov, -⟩ := (no_lost_wakeup hr).1 hb
  exact ⟨_, tr, s, hr, hb, hrun, hs.2.2, hcov⟩

end MatAppender
end XBot
