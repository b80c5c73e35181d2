import MatLogger2.Appender.Loggers

/-! No variable of a registered logger is out of blocks while the flusher sleeps, if `add_logger`
finds room in the variables that it comes to while the flusher rests. -/

namespace XBot

open Spsc Transition

variable {α : Type}

namespace Logging

/-- The flusher does not come to the variable again before it looks at the flag. -/
def Behind (s : Logging α) (id : VarId) (t : Threads α) : Prop :=
  s.appender.flusher.passed = true ∨
    s.appender.flusher = .pass ∧ (¬ s.flushAll.ahead id ∨ Loaded.FoundEmpty t)

/-- `add_logger` sets no callback of a variable that is short of room while the flusher is past its
pass and has not been notified. -/
def Careful (s : Logging α) : Act α → Prop
  | .addLogger =>
    match s.addLogger with
    | .setCallback l (name :: _) =>
      s.appender.flusher.passed = true → s.appender.flushThreadWakeUp = false →
        ∀ t ∈ s.var (l, name), Roomy t .idle
    | _ => True
  | _ => True

instance (s : Logging α) (a : Act α) : Decidable (Careful s a) := by
  unfold Careful
  split
  · split
    · exact inferInstanceAs (Decidable (_ → _ → ∀ t ∈ _, _))
    · exact isTrue trivial
  · exact isTrue trivial

/-- The variable has been given the callback of its logger. -/
def HasCallback (s : Logging α) (id : VarId) : Prop :=
  s.onBlockAvailable id.1 = true ∨ ∃ todo, s.addLogger = .setCallback id.1 todo ∧ id.2 ∉ todo

/-- What holds of each variable. -/
structure VarInv (s : Logging α) (id : VarId) (t : Threads α) : Prop where
  watched : Watched t (s.appender.notifier id)
  listed : id.2 ∈ s.vars id.1
  reading : t.consumer ≠ .idle → ∃ vars todo, s.flushAll = .logger id.1 (id.2 :: vars) todo
  called : s.HasCallback id → t.vb.onBlockAvailable = true
  caller : t.vb.onBlockAvailable = true →
    s.onBlockAvailable id.1 = true ∨ ∃ todo, s.addLogger = .setCallback id.1 todo
  roomy : s.alive id.1 = true → t.vb.onBlockAvailable = true → s.Behind id t →
    s.appender.flushThreadWakeUp = false → Roomy t (s.appender.notifier id)

structure Inv (s : Logging α) : Prop where
  var : ∀ id t, s.var id = some t → s.VarInv id t
  unused : ∀ id, s.var id = none → s.appender.notifier id = .idle
  outside : s.appender.flusher ≠ .pass → s.flushAll = .start
  mutex : s.addLogger ≠ .idle → s.flushAll = .start
  installed : ∀ l, l ∈ s.loggers ∨ s.addLogger = .emplaceBack l → s.onBlockAvailable l = true
  registered : ∀ l, s.alive l = true → s.onBlockAvailable l = true →
    l ∈ s.loggers ∨ s.addLogger = .emplaceBack l

variable {s s' : Logging α} {es : List FlusherEvent}

theorem VarInv.idle {id : VarId} {t : Threads α} (v : s.VarInv id t) (h : s.flushAll = .start) :
    t.consumer = .idle := by
  by_contra hc
  obtain ⟨vars, todo, he⟩ := v.reading hc
  rw [h] at he
  cases he

/-- At the start of a pass all variables are ahead. -/
theorem not_behind {id : VarId} {t : Threads α} (hc : t.consumer = .idle)
    (hp : s.appender.flusher.passed = false) (hf : s.flushAll = .start) : ¬ s.Behind id t := by
  intro hb
  rcases hb with h | ⟨-, h | h⟩
  · rw [hp] at h
    cases h
  · rw [hf] at h
    exact h trivial
  · rw [Loaded.FoundEmpty, hc] at h
    cases h

/-- What holds of the variables when one of them has got a new state. -/
theorem forall_setVar {P : VarId → Threads α → Prop} {id : VarId} {t : Threads α} (h : P id t)
    (hrest : ∀ id', id' ≠ id → ∀ u, s.var id' = some u → P id' u) :
    ∀ id' u, (s.setVar id t).var id' = some u → P id' u := by
  intro id' u hu
  rcases eq_or_ne id' id with rfl | hne
  · simp only [setVar, Function.update_self, Option.some.injEq] at hu
    exact hu ▸ h
  · simp only [setVar, Function.update_of_ne hne] at hu
    exact hrest id' hne u hu

namespace Inv

theorem init : Inv (make : Logging α) := by
  refine ⟨fun id t ht => ?_, fun _ _ => rfl, fun _ => rfl, fun _ => rfl, fun l h => ?_,
    fun l _ h => ?_⟩
  · cases ht
  · rcases h with h | h <;> cases h
  · cases h

/-- A step of the appender alone. -/
theorem appender (inv : Inv s) (a : MatAppender VarId)
    (hw : ∀ id t, s.var id = some t → Watched t (a.notifier id))
    (hu : ∀ id, s.var id = none → a.notifier id = .idle)
    (ho : a.flusher ≠ .pass → s.flushAll = .start)
    (hr : ∀ id t, s.var id = some t → s.alive id.1 = true → t.vb.onBlockAvailable = true →
      Behind { s with appender := a } id t → a.flushThreadWakeUp = false →
      Roomy t (a.notifier id)) : Inv { s with appender := a } := by
  refine ⟨fun id t ht => ?_, hu, ho, inv.mutex, inv.installed, inv.registered⟩
  have v := inv.var id t ht
  exact ⟨hw id t ht, v.listed, v.reading, v.called, v.caller, hr id t ht⟩

/-- A step of the flusher that leaves the callbacks alone. -/
theorem flusher (inv : Inv s) (hf : s.flushAll = .start) {a : MatAppender VarId}
    (hn : a.notifier = s.appender.notifier)
    (hp : a.flusher.passed = true → s.appender.flusher.passed = true ∧
      a.flushThreadWakeUp = s.appender.flushThreadWakeUp) : Inv { s with appender := a } := by
  refine inv.appender a (fun id t ht => ?_) (fun id hid => ?_) (fun _ => hf) ?_
  · rw [hn]
    exact (inv.var id t ht).watched
  · rw [hn]
    exact inv.unused id hid
  · intro id t ht hal hcb hb hw
    have v := inv.var id t ht
    cases hpass : a.flusher.passed with
    | true =>
      obtain ⟨hold, hwake⟩ := hp hpass
      rw [hn]
      exact v.roomy hal hcb (.inl hold) (hwake ▸ hw)
    | false => exact absurd hb (not_behind (v.idle hf) hpass hf)

/-- A step of a callback that leaves the flag as it is. -/
theorem setNotifier (inv : Inv s) {id : VarId} {n : NotifierPc} {a : MatAppender VarId}
    (hn : a.notifier = Function.update s.appender.notifier id n)
    (hf : a.flusher = s.appender.flusher)
    (hw : a.flushThreadWakeUp = s.appender.flushThreadWakeUp) (hid : s.var id = none → n = .idle)
    (hwatch : ∀ t : Threads α, Watched t (s.appender.notifier id) →
      Watched t n ∧ (Roomy t (s.appender.notifier id) → Roomy t n)) :
    Inv { s with appender := a } := by
  have hbehind : ∀ id' (t : Threads α), Behind { s with appender := a } id' t → s.Behind id' t := by
    intro id' t hb
    unfold Behind at hb
    rwa [hf] at hb
  refine inv.appender a (fun id' t ht => ?_) (fun id' hid' => ?_) (hf ▸ inv.outside) ?_
  · have v := (inv.var id' t ht).watched
    rw [hn]
    rcases eq_or_ne id' id with rfl | hne
    · rw [Function.update_self]
      exact (hwatch t v).1
    · rwa [Function.update_of_ne hne]
  · rw [hn]
    rcases eq_or_ne id' id with rfl | hne
    · rw [Function.update_self]
      exact hid hid'
    · rw [Function.update_of_ne hne]
      exact inv.unused id' hid'
  · intro id' t ht hal hcb hb hwake
    have v := inv.var id' t ht
    have hr := v.roomy hal hcb (hbehind id' t hb) (hw ▸ hwake)
    rw [hn]
    rcases eq_or_ne id' id with rfl | hne
    · rw [Function.update_self]
      exact (hwatch t v.watched).2 hr
    · rwa [Function.update_of_ne hne]

theorem notifierStep (inv : Inv s) {id : VarId} {a : MatAppender VarId}
    (h : s.appender.notifierStep id = some (a, es)) : Inv { s with appender := a } := by
  have hunused : s.var id = none → s.appender.notifier id = .idle := inv.unused id
  unfold MatAppender.notifierStep at h
  cases hn : s.appender.notifier id with
  | idle =>
    rw [hn] at h
    cases h
  | load info =>
    rw [hn] at h hunused
    cases h
    refine inv.setNotifier rfl rfl rfl (fun hid => nomatch hunused hid) fun t w => ?_
    rw [hn] at w ⊢
    exact ⟨w.notifier (.inr rfl) fun _ => rfl, fun hr => hr⟩
  | store info bytes =>
    rw [hn] at h hunused
    cases h
    refine inv.setNotifier rfl rfl rfl (fun hid => nomatch hunused hid) fun t w => ?_
    rw [hn] at w ⊢
    exact ⟨w.notifier (.inr rfl) fun _ => rfl, fun hr => hr⟩
  | test info =>
    rw [hn] at h hunused
    cases h
    refine inv.setNotifier rfl rfl rfl (fun hid => nomatch hunused hid) fun t w => ?_
    rw [hn] at w ⊢
    split_ifs with hnot
    · exact ⟨w.notifier (.inl rfl) fun _ => rfl, fun hr => hr⟩
    · exact ⟨w.notifier (.inl rfl) nofun, fun _ => w.roomy_of_not_notifies rfl hnot⟩
  | notify =>
    rw [hn] at h
    simp only at h
    split_ifs at h with hmutex
    cases h
    have hnotifier : ∀ id', s.var id' = none →
        Function.update s.appender.notifier id .idle id' = .idle := by
      intro id' hid'
      rcases eq_or_ne id' id with rfl | hne
      · rw [Function.update_self]
      · rw [Function.update_of_ne hne]
        exact inv.unused id' hid'
    refine inv.appender _ (fun id' t ht => ?_) hnotifier (fun hf => inv.outside fun hp => hf ?_)
      fun _ _ _ _ _ _ hwake => nomatch hwake
    · have w := (inv.var id' t ht).watched
      show Watched t (Function.update s.appender.notifier id .idle id')
      rcases eq_or_ne id' id with rfl | hne
      · rw [Function.update_self]
        rw [hn] at w
        exact w.notifier (.inl rfl) nofun
      · rwa [Function.update_of_ne hne]
    · show s.appender.flusher.notifyOne = .pass
      rw [hp]
      rfl

/-- The flusher outside its pass. -/
theorem flusherOutside (inv : Inv s) (hout : s.appender.flusher ≠ .pass) {a : MatAppender VarId}
    (h : s.appender.flusherStep = some (a, es)) : Inv { s with appender := a } := by
  have hf := inv.outside hout
  unfold MatAppender.flusherStep at h
  cases hpc : s.appender.flusher with
  | pass => exact absurd hpc hout
  | check =>
    rw [hpc] at h
    simp only at h
    split_ifs at h <;> cases h <;> exact inv.flusher hf rfl nofun
  | test =>
    rw [hpc] at h
    simp only at h
    split_ifs at h
    · cases h
      exact inv.flusher hf rfl nofun
    · cases h
      exact inv.flusher hf rfl fun _ => ⟨by rw [hpc]; rfl, rfl⟩
  | lock =>
    rw [hpc] at h
    cases h
    exact inv.flusher hf rfl fun _ => ⟨by rw [hpc]; rfl, rfl⟩
  | waiting b =>
    rw [hpc] at h
    cases h
    exact inv.flusher hf rfl fun _ => ⟨by rw [hpc]; rfl, rfl⟩
  | reset =>
    rw [hpc] at h
    cases h
    exact inv.flusher hf rfl nofun
  | unlock =>
    rw [hpc] at h
    cases h
    exact inv.flusher hf rfl nofun
  | notStarted =>
    rw [hpc] at h
    cases h
  | exited =>
    rw [hpc] at h
    cases h

theorem startFlushThread (inv : Inv s) {a : MatAppender VarId}
    (h : s.appender.startFlushThread = some a) : Inv { s with appender := a } := by
  unfold MatAppender.startFlushThread at h
  split at h
  · rename_i hpc _
    cases h
    exact inv.flusher (inv.outside (by rw [hpc]; nofun)) rfl nofun
  · cases h

/-- The pass is over. -/
theorem passed (inv : Inv s) (hp : s.appender.flusher = .pass) (hf : s.flushAll = .loggers []) :
    Inv { s with appender := { s.appender with flusher := .lock }, flushAll := .start } := by
  have hbehind : ∀ id t, s.Behind id t := by
    intro id t
    refine .inr ⟨hp, .inl ?_⟩
    rw [hf]
    exact List.not_mem_nil
  refine ⟨fun id t ht => ?_, inv.unused, fun _ => rfl, fun _ => rfl, inv.installed, inv.registered⟩
  have v := inv.var id t ht
  refine ⟨v.watched, v.listed, fun hc => ?_, v.called, v.caller, fun hal hcb _ hwake =>
    v.roomy hal hcb (hbehind id t) hwake⟩
  obtain ⟨vars, todo, he⟩ := v.reading hc
  rw [hf] at he
  cases he

/-- A step of the pass between two variables: what it no longer comes to, it had come to, or it is
a variable of a logger that is gone. -/
theorem goto (inv : Inv s) {pc : FlushAllPc} {loggers : List LoggerId}
    (hp : s.appender.flusher = .pass) (hadd : s.addLogger = .idle)
    (hread : ∀ l name vars todo, s.flushAll ≠ .logger l (name :: vars) todo)
    (hsub : ∀ l ∈ loggers, l ∈ s.loggers) (hkeep : ∀ l ∈ s.loggers, s.alive l = true → l ∈ loggers)
    (hahead : ∀ id t, s.var id = some t → s.alive id.1 = true → s.onBlockAvailable id.1 = true →
      s.flushAll.ahead id → pc.ahead id) :
    Inv { s with loggers := loggers, flushAll := pc } := by
  refine ⟨fun id t ht => ?_, inv.unused, fun h => absurd hp h, fun h => absurd hadd h,
    fun l hl => inv.installed l (hl.imp_left (hsub l)), fun l hal hcb => ?_⟩
  · have v := inv.var id t ht
    have hc : t.consumer = .idle := by
      by_contra hc
      obtain ⟨vars, todo, he⟩ := v.reading hc
      exact hread _ _ _ _ he
    refine ⟨v.watched, v.listed, fun h => absurd hc h, v.called, v.caller,
      fun hal hcb hb hwake => v.roomy hal hcb ?_ hwake⟩
    have hlogger : s.onBlockAvailable id.1 = true := by
      rcases v.caller hcb with h | ⟨todo, h⟩
      · exact h
      · rw [hadd] at h
        cases h
    rcases hb with h | ⟨-, h | h⟩
    · exact .inl h
    · exact .inr ⟨hp, .inl fun ha => h (hahead id t ht hal hlogger ha)⟩
    · rw [Loaded.FoundEmpty, hc] at h
      cases h
  · exact (inv.registered l hal hcb).imp_left fun hl => hkeep l hl hal

/-- One step of `read_block` in the pass. -/
theorem readVar (inv : Inv s) {l : LoggerId} {name : StdString} {vars : List StdString}
    {todo : List LoggerId} (hp : s.appender.flusher = .pass)
    (hf : s.flushAll = .logger l (name :: vars) todo) (h : s.readVar l name vars todo = some s') :
    Inv s' := by
  unfold Logging.readVar at h
  cases ht : s.var (l, name) with
  | none =>
    rw [ht] at h
    cases h
  | some t =>
    have v := inv.var _ _ ht
    have hadd : s.addLogger = .idle := by
      by_contra hne
      have := inv.mutex hne
      rw [hf] at this
      cases this
    rw [ht] at h
    obtain ⟨⟨t', es⟩, hstep, rfl⟩ := Option.map_eq_some_iff.mp h
    have hread : t.step .callReadBlock = some (t', es) ∨ t.consumerStep = some (t', es) := by
      cases hc : t.consumer <;> rw [hc] at hstep <;> first
        | exact .inl hstep
        | exact .inr hstep
    have r := v.watched.reads hread
    have hpc : ∀ id, id ≠ (l, name) → s.flushAll.ahead id →
        (if es.any Loaded.readsNothing then .logger l vars todo
          else .logger l (name :: vars) todo : FlushAllPc).ahead id := by
      intro id hne ha
      rw [hf] at ha
      split_ifs
      · rcases ha with ⟨hl, hn⟩ | ha
        · rcases List.mem_cons.mp hn with hn | hn
          · exact absurd (Prod.ext hl hn) hne
          · exact .inl ⟨hl, hn⟩
        · exact .inr ha
      · exact ha
    refine ⟨forall_setVar ⟨r.watched, v.listed, fun hc => ?_, fun h => r.callback.trans (v.called h),
      fun h => v.caller (r.callback.symm.trans h), fun hal hflag hb hwake => ?_⟩ ?_, ?_,
      fun h => absurd hp h, fun h => absurd hadd h, inv.installed, inv.registered⟩
    · have hno : ¬ es.any Loaded.readsNothing = true := fun h => hc (r.nothing h).2
      exact ⟨vars, todo, if_neg hno⟩
    · rcases hb with hpass | ⟨-, hbe | hbe⟩
      · have hpass : s.appender.flusher.passed = true := hpass
        rw [hp] at hpass
        cases hpass
      · by_cases hany : es.any Loaded.readsNothing = true
        · exact r.roomy (v.roomy hal (r.callback.symm.trans hflag)
            (.inr ⟨hp, .inr (r.nothing hany).1⟩) hwake)
        · simp only [if_neg hany] at hbe
          exact absurd (.inl ⟨rfl, List.mem_cons_self⟩) hbe
      · exact r.empty hbe
    · intro id hne u hu
      have vu := inv.var id u hu
      have hc : u.consumer = .idle := by
        by_contra hc
        obtain ⟨vars', todo', he⟩ := vu.reading hc
        rw [hf, FlushAllPc.logger.injEq, List.cons.injEq] at he
        exact hne (Prod.ext he.1.symm he.2.1.1.symm)
      refine ⟨vu.watched, vu.listed, fun h => absurd hc h, vu.called, vu.caller,
        fun hal hflag hb hwake => vu.roomy hal hflag ?_ hwake⟩
      rcases hb with hpass | ⟨-, hbe | hbe⟩
      · exact .inl hpass
      · exact .inr ⟨hp, .inl fun ha => hbe (hpc id hne ha)⟩
      · rw [Loaded.FoundEmpty, hc] at hbe
        cases hbe
    · intro id hid
      rcases eq_or_ne id (l, name) with rfl | hne
      · simp [setVar] at hid
      · simp only [setVar, Function.update_of_ne hne] at hid
        exact inv.unused id hid

theorem flushAllStep (inv : Inv s) (hp : s.appender.flusher = .pass)
    (h : s.flushAllStep = some s') : Inv s' := by
  have hadd : s.flushAll ≠ .start → s.addLogger = .idle := by
    intro hne
    by_contra hbusy
    exact hne (inv.mutex hbusy)
  unfold Logging.flushAllStep at h
  cases hf : s.flushAll with
  | start =>
    rw [hf] at h
    simp only at h
    split_ifs at h with hidle
    cases h
    refine inv.goto hp hidle (by rw [hf]; nofun) (fun _ h => h) (fun _ h _ => h)
      fun id t _ hal hcb _ => ?_
    rcases inv.registered id.1 hal hcb with h | h
    · exact h
    · rw [hidle] at h
      cases h
  | loggers todo =>
    cases todo with
    | nil =>
      rw [hf] at h
      cases h
    | cons l todo =>
      have hidle := hadd (by rw [hf]; nofun)
      have hread : ∀ l name vars todo, s.flushAll ≠ .logger l (name :: vars) todo := by
        rw [hf]
        nofun
      rw [hf] at h
      simp only at h
      split_ifs at h with hl
      · cases h
        refine inv.goto hp hidle hread (fun _ h => h) (fun _ h _ => h) fun id t ht _ _ ha => ?_
        rw [hf] at ha
        rcases List.mem_cons.mp ha with he | ha
        · exact .inl ⟨he, he ▸ (inv.var id t ht).listed⟩
        · exact .inr ha
      · cases h
        refine inv.goto hp hidle hread (fun _ h => List.mem_of_mem_erase h)
          (fun l' h hal => (List.mem_erase_of_ne ?_).mpr h) fun id t _ hal _ ha => ?_
        · rintro rfl
          exact hl hal
        · rw [hf] at ha
          rcases List.mem_cons.mp ha with he | ha
          · exact absurd (he ▸ hal) hl
          · exact ha
  | logger l vars todo =>
    cases vars with
    | nil =>
      rw [hf] at h
      cases h
      refine inv.goto hp (hadd (by rw [hf]; nofun)) (by rw [hf]; nofun) (fun _ h => h)
        (fun _ h _ => h) fun id t _ _ _ ha => ?_
      rw [hf] at ha
      rcases ha with ⟨-, hn⟩ | ha
      · cases hn
      · exact ha
    | cons name vars =>
      rw [hf] at h
      exact inv.readVar hp hf h

theorem flusherStep (inv : Inv s) (h : s.flusherStep = some (s', es)) : Inv s' := by
  unfold Logging.flusherStep at h
  split at h
  · rename_i hp hf
    simp only [MatAppender.flusherStep, hp, Option.map_some, Option.some.injEq, Prod.mk.injEq] at h
    rw [← h.1]
    exact inv.passed hp hf
  · rename_i hp hne
    obtain ⟨s₁, hs, he⟩ := Option.map_eq_some_iff.mp h
    cases he
    exact inv.flushAllStep hp hs
  · rename_i hne _
    obtain ⟨⟨a, es'⟩, ha, he⟩ := Option.map_eq_some_iff.mp h
    cases he
    exact inv.flusherOutside hne ha

/-- A new variable has room, and the callback of its logger. -/
theorem create (inv : Inv s) {l : LoggerId} {name : StdString} {order : List StdString}
    {t : Bool → Threads α}
    (ht : ∀ callback, Watched (t callback) .idle ∧ (t callback).consumer = .idle ∧
      (t callback).vb.onBlockAvailable = callback ∧ (t callback).waiting = 0)
    (h : s.create l name order t = some s') : Inv s' := by
  unfold Logging.create at h
  split_ifs at h with hok
  obtain ⟨hal, hlock, hnone, hperm⟩ := hok
  cases h
  obtain ⟨hw, hc, hcb, hwait⟩ := ht (s.onBlockAvailable l)
  have hidle := inv.unused _ hnone
  have hlocked : ∀ todo, s.addLogger ≠ .setCallback l todo := by
    intro todo he
    apply hlock
    simp [varsLocked, he, AddLoggerPc.holdsVars]
  refine ⟨forall_setVar ⟨hidle ▸ hw, ?_, fun h => absurd hc h, fun h => ?_, fun h => ?_,
    fun _ _ _ _ => ?_⟩ ?_, fun id hid => ?_, inv.outside, inv.mutex, inv.installed, inv.registered⟩
  · show name ∈ Function.update s.vars l order l
    rw [Function.update_self, hperm.mem_iff]
    exact List.mem_cons_self
  · rcases h with h | ⟨todo, h, -⟩
    · exact hcb.trans h
    · exact absurd h (hlocked todo)
  · exact .inl (hcb.symm.trans h)
  · unfold Roomy
    rw [hwait]
    exact le_add_right (by decide)
  · intro id hne u hu
    have v := inv.var id u hu
    refine ⟨v.watched, ?_, v.reading, v.called, v.caller, v.roomy⟩
    show id.2 ∈ Function.update s.vars l order id.1
    rcases eq_or_ne id.1 l with he | hne
    · rw [he, Function.update_self, hperm.mem_iff]
      exact List.mem_cons_of_mem _ (he ▸ v.listed)
    · rw [Function.update_of_ne hne]
      exact v.listed
  · rcases eq_or_ne id (l, name) with rfl | hne
    · exact hidle
    · simp only [setVar, Function.update_of_ne hne] at hid
      exact inv.unused id hid

theorem produce (inv : Inv s) {id : VarId} {a : XBot.Act α}
    (ha : a = .producer ∨ ∃ data, a = .callAddElem data) (h : s.produce id a = some s') : Inv s' := by
  unfold Logging.produce at h
  split at h
  · rename_i t ht hn
    split_ifs at h with hal
    obtain ⟨⟨t', es⟩, hstep, rfl⟩ := Option.map_eq_some_iff.mp h
    have v := inv.var id t ht
    have hwrite : t.producerStep = some (t', es) ∨
        ∃ data, t.step (.callAddElem data) = some (t', es) := by
      rcases ha with rfl | ⟨data, rfl⟩
      · exact .inl hstep
      · exact .inr ⟨data, hstep⟩
    have w := Watched.writes (hn ▸ v.watched) hwrite
    have hempty : Loaded.FoundEmpty t' → Loaded.FoundEmpty t := by
      intro he
      rw [Loaded.FoundEmpty, w.consumer, w.read] at he
      exact he
    have hother : ∀ id', id' ≠ id →
        (s.appender.setNotifier id (called es)).notifier id' = s.appender.notifier id' :=
      fun id' hne => Function.update_of_ne hne _ _
    have hself : (s.appender.setNotifier id (called es)).notifier id = called es :=
      Function.update_self _ _ _
    refine ⟨forall_setVar ⟨hself ▸ w.watched, v.listed, fun hc => v.reading (w.consumer ▸ hc),
      fun h => w.callback.trans (v.called h), fun h => v.caller (w.callback.symm.trans h),
      fun hal hflag hb hwake => ?_⟩ ?_, fun id' hid => ?_, inv.outside, inv.mutex, inv.installed,
      inv.registered⟩
    · have hflag' := w.callback.symm.trans hflag
      have hr := v.roomy hal hflag' (hb.imp_right fun hb => ⟨hb.1, hb.2.imp_right hempty⟩) hwake
      rw [hself]
      exact w.roomy hflag' (hn ▸ hr)
    · intro id' hne u hu
      have vu := inv.var id' u hu
      refine ⟨?_, vu.listed, vu.reading, vu.called, vu.caller, fun hal hflag hb hwake => ?_⟩
      · rw [hother id' hne]
        exact vu.watched
      · rw [hother id' hne]
        exact vu.roomy hal hflag hb hwake
    · rcases eq_or_ne id' id with rfl | hne
      · simp [setVar] at hid
      · simp only [setVar, Function.update_of_ne hne] at hid
        rw [hother id' hne]
        exact inv.unused id' hid
  · cases h

theorem callAddLogger (inv : Inv s) {l : LoggerId} (h : s.callAddLogger l = some s') : Inv s' := by
  unfold Logging.callAddLogger at h
  split at h
  · rename_i hf hidle
    split_ifs at h with hal hmem
    · cases h
      exact inv
    · cases h
      refine ⟨fun id t ht => ?_, inv.unused, inv.outside, fun _ => hf, fun l' h => ?_,
        fun l' hal hcb => ?_⟩
      · have v := inv.var id t ht
        refine ⟨v.watched, v.listed, v.reading, fun h => ?_, fun h => ?_, v.roomy⟩
        · rcases h with h | ⟨todo, he, hno⟩
          · exact v.called (.inl h)
          · cases he
            exact absurd v.listed hno
        · rcases v.caller h with h | ⟨todo, h⟩
          · exact .inl h
          · rw [hidle] at h
            cases h
      · rcases h with h | h
        · exact inv.installed l' (.inl h)
        · cases h
      · rcases inv.registered l' hal hcb with h | h
        · exact .inl h
        · rw [hidle] at h
          cases h
  · cases h

/-- The callback of one variable is set, and the variable has room if nobody looks at it soon. -/
theorem setCallback (inv : Inv s) {l : LoggerId} {name : StdString} {todo : List StdString}
    (hadd : s.addLogger = .setCallback l (name :: todo)) (hok : s.Careful .addLogger)
    {t : Threads α} (ht : s.var (l, name) = some t) :
    Inv { s.setVar (l, name) { t with vb := t.vb.setOnBlockAvailable true } with
      addLogger := .setCallback l todo } := by
  have hf := inv.mutex (by rw [hadd]; nofun)
  simp only [Careful, hadd] at hok
  have v := inv.var _ _ ht
  refine ⟨forall_setVar ⟨v.watched.setOnBlockAvailable true, v.listed, v.reading, fun _ => rfl,
    fun _ => .inr ⟨todo, rfl⟩, fun _ _ hb hwake => ?_⟩ ?_, fun id hid => ?_, inv.outside, fun _ => hf,
    fun l' h => ?_, fun l' hal hcb => ?_⟩
  · have hroom : s.appender.flusher.passed = true → Roomy t .idle := fun hp => hok hp hwake t ht
    rcases hb with hp | ⟨-, hb | hb⟩
    · exact (hroom hp).mono _
    · have hb : ¬ s.flushAll.ahead (l, name) := hb
      rw [hf] at hb
      exact absurd trivial hb
    · have hc : t.consumer = .popRead _ := hb
      rw [v.idle hf] at hc
      cases hc
  · intro id hne u hu
    have vu := inv.var id u hu
    refine ⟨vu.watched, vu.listed, vu.reading, fun h => vu.called ?_, fun h => ?_, vu.roomy⟩
    · rcases h with h | ⟨todo', he, hno⟩
      · exact .inl h
      · cases he
        refine .inr ⟨_, hadd, fun hmem => ?_⟩
        rcases List.mem_cons.mp hmem with hn | hmem
        · exact hne (Prod.ext rfl hn)
        · exact hno hmem
    · rcases vu.caller h with h | ⟨todo', h⟩
      · exact .inl h
      · rw [hadd] at h
        cases h
        exact .inr ⟨todo, rfl⟩
  · rcases eq_or_ne id (l, name) with rfl | hne
    · simp [setVar] at hid
    · simp only [setVar, Function.update_of_ne hne] at hid
      exact inv.unused id hid
  · rcases h with h | h
    · exact inv.installed l' (.inl h)
    · cases h
  · rcases inv.registered l' hal hcb with h | h
    · exact .inl h
    · rw [hadd] at h
      cases h

theorem addLoggerStep (inv : Inv s) (hok : s.Careful .addLogger) (h : s.addLoggerStep = some s') :
    Inv s' := by
  unfold Logging.addLoggerStep at h
  split at h
  · cases h
  · rename_i l name todo hadd
    obtain ⟨t, ht, rfl⟩ := Option.map_eq_some_iff.mp h
    exact inv.setCallback hadd hok ht
  · rename_i l hadd
    have hf := inv.mutex (by rw [hadd]; nofun)
    have hset : ∀ l', l' ≠ l → Function.update s.onBlockAvailable l true l' = s.onBlockAvailable l' :=
      fun l' hne => Function.update_of_ne hne _ _
    have hself : Function.update s.onBlockAvailable l true l = true := Function.update_self _ _ _
    cases h
    refine ⟨fun id t ht => ?_, inv.unused, inv.outside, fun _ => hf, fun l' h => ?_,
      fun l' hal hcb => ?_⟩
    · have v := inv.var id t ht
      refine ⟨v.watched, v.listed, v.reading, fun h => v.called ?_, fun h => .inl ?_, v.roomy⟩
      · rcases h with h | ⟨todo, h, -⟩
        · rcases eq_or_ne id.1 l with he | hne
          · exact .inr ⟨[], he ▸ hadd, List.not_mem_nil⟩
          · exact .inl ((hset _ hne).symm.trans h)
        · cases h
      · rcases eq_or_ne id.1 l with he | hne
        · exact he ▸ hself
        · rcases v.caller h with h | ⟨todo, h⟩
          · exact (hset _ hne).trans h
          · rw [hadd] at h
            cases h
            exact absurd rfl hne
    · rcases eq_or_ne l' l with rfl | hne
      · exact hself
      · rcases h with h | h
        · exact (hset _ hne).trans (inv.installed l' (.inl h))
        · cases h
          exact absurd rfl hne
    · rcases eq_or_ne l' l with rfl | hne
      · exact .inr rfl
      · rcases inv.registered l' hal ((hset _ hne).symm.trans hcb) with h | h
        · exact .inl h
        · rw [hadd] at h
          cases h
  · rename_i l hadd
    have hf := inv.mutex (by rw [hadd]; nofun)
    cases h
    refine ⟨fun id t ht => ?_, inv.unused, inv.outside, fun _ => hf, fun l' h => ?_,
      fun l' hal hcb => .inl ?_⟩
    · have v := inv.var id t ht
      refine ⟨v.watched, v.listed, v.reading, fun h => v.called ?_, fun h => .inl ?_, v.roomy⟩
      · rcases h with h | ⟨todo, h, -⟩
        · exact .inl h
        · cases h
      · rcases v.caller h with h | ⟨todo, h⟩
        · exact h
        · rw [hadd] at h
          cases h
    · rcases h with h | h
      · rcases List.mem_append.mp h with h | h
        · exact inv.installed l' (.inl h)
        · rw [List.mem_singleton.mp h]
          exact inv.installed l (.inr hadd)
      · cases h
    · rcases inv.registered l' hal hcb with h | h
      · exact List.mem_append_left _ h
      · rw [hadd] at h
        cases h
        exact List.mem_append_right _ (List.mem_singleton.mpr rfl)

theorem destruct (inv : Inv s) {l : LoggerId} (h : s.destruct l = some s') : Inv s' := by
  unfold Logging.destruct at h
  split_ifs at h
  cases h
  have hal : ∀ l', Function.update s.alive l false l' = true → s.alive l' = true := by
    intro l' h
    rcases eq_or_ne l' l with rfl | hne
    · rw [Function.update_self] at h
      cases h
    · rwa [Function.update_of_ne hne] at h
  refine ⟨fun id t ht => ?_, inv.unused, inv.outside, inv.mutex, inv.installed,
    fun l' h => inv.registered l' (hal l' h)⟩
  have v := inv.var id t ht
  exact ⟨v.watched, v.listed, v.reading, v.called, v.caller, fun h => v.roomy (hal _ h)⟩

theorem step (inv : Inv s) {a : Act α} (hok : s.Careful a) (h : s.step a = some (s', es)) :
    Inv s' := by
  cases a with
  | startFlushThread =>
    obtain ⟨a, ha, he⟩ := Option.map_eq_some_iff.mp h
    cases he
    exact inv.startFlushThread ha
  | flusher => exact inv.flusherStep h
  | notifier id =>
    obtain ⟨⟨a, es'⟩, ha, he⟩ := Option.map_eq_some_iff.mp h
    cases he
    exact inv.notifierStep ha
  | create l name order rows cols blockSize hb storage =>
    obtain ⟨s₁, hs, he⟩ := Option.map_eq_some_iff.mp h
    cases he
    refine inv.create (fun callback => ⟨Watched.start name rows cols blockSize hb storage callback,
      rfl, rfl, ?_⟩) hs
    exact List.length_eq_zero_iff.mpr
      (VariableBuffer.make_queue name rows cols blockSize hb storage).1
  | add id data =>
    obtain ⟨s₁, hs, he⟩ := Option.map_eq_some_iff.mp h
    cases he
    exact inv.produce (.inr ⟨data, rfl⟩) hs
  | producer id =>
    obtain ⟨s₁, hs, he⟩ := Option.map_eq_some_iff.mp h
    cases he
    exact inv.produce (.inl rfl) hs
  | callAddLogger l =>
    obtain ⟨s₁, hs, he⟩ := Option.map_eq_some_iff.mp h
    cases he
    exact inv.callAddLogger hs
  | addLogger =>
    obtain ⟨s₁, hs, he⟩ := Option.map_eq_some_iff.mp h
    cases he
    exact inv.addLoggerStep hok hs
  | destruct l =>
    obtain ⟨s₁, hs, he⟩ := Option.map_eq_some_iff.mp h
    cases he
    exact inv.destruct hs

theorem run {hist : List (Logging α)} {tr : List FlusherEvent}
    (h : (logging α Careful).Run hist tr s) : Inv s := by
  refine h.inv (I := fun _ s => Inv s) ?_ ?_
  · intro s hs
    exact hs ▸ init
  · intro tr s es s' inv hstep
    obtain ⟨a, hok, ha⟩ := hstep
    exact inv.step hok ha

end Inv

/-- Whenever the flusher is blocked, every variable of every registered live logger has a free
block, so that the next flush of its current block succeeds and no sample of it is dropped. -/
theorem blocked_has_free {hist : List (Logging α)} {tr : List FlusherEvent}
    (h : (logging α Careful).Run hist tr s) (hb : s.appender.Blocked) :
    ∀ l ∈ s.loggers, s.alive l = true → ∀ name t, s.var (l, name) = some t →
      0 < t.free ∧ (t.producer = .idle → t.vb.flushToQueue.ret = .ok true ∧
        ∀ data, (t.vb.addElem data).discarded = []) := by
  have inv := Inv.run h
  intro l hl hal name t ht
  have v := inv.var _ t ht
  obtain ⟨⟨b, hpc⟩, hwake⟩ := hb
  have hc : t.consumer = .idle := v.idle (inv.outside (by rw [hpc]; nofun))
  have hflag : t.vb.onBlockAvailable = true := v.called (.inl (inv.installed l (.inl hl)))
  have hroom := v.roomy hal hflag (.inl (by rw [hpc]; rfl)) hwake
  have hfree := v.watched.free_pos hroom hc
  exact ⟨hfree, fun hp => v.watched.owned.calls_succeed hp hc hfree⟩

/-- Two samples in blocks of one: the second takes a new block, and the full one is announced where
there is a callback. -/
def twoSamples (id : VarId) (callback : Bool) : List (Act ℕ) :=
  [.add id (scalar 0), .producer id, .add id (scalar 1)] ++ List.replicate 13 (.producer id) ++
    List.replicate (if callback then 3 else 0) (.notifier id) ++ List.replicate 2 (.producer id)

/-- A logger is registered, the flusher looks at it and goes to sleep, and then the logger gets two
samples. So does another one, which is registered only after that. -/
def lateLogger : List (Act ℕ) :=
  [.create 0 [] [[]] 1 1 1 Nat.one_pos fun _ => scalarMemory, .callAddLogger 0] ++
    List.replicate 3 .addLogger ++ [.startFlushThread] ++ List.replicate 10 .flusher ++
    twoSamples (0, []) true ++ [.create 1 [] [[]] 1 1 1 Nat.one_pos fun _ => scalarMemory] ++
    twoSamples (1, []) false ++ [.callAddLogger 1] ++ List.replicate 3 .addLogger

theorem blocked_has_free_two : ∃ hist tr s, (logging ℕ Careful).Run hist tr s ∧
    s.appender.Blocked ∧ s.loggers = [0, 1] ∧
    ∀ l ∈ s.loggers, ∃ t, s.var (l, []) = some t ∧ t.waiting = 1 ∧ 0 < t.free := by
  let careful : Logging ℕ → Act ℕ → _ := fun s a => if s.Careful a then s.step a else none
  have hex : ((exec careful make lateLogger).map fun p => ((p.1.appender.flusher,
      p.1.appender.flushThreadWakeUp, p.1.loggers), (p.1.alive 0, p.1.alive 1),
      (p.1.var (0, [])).map Threads.waiting, (p.1.var (1, [])).map Threads.waiting)) =
      some ((.waiting false, false, [0, 1]), (true, true), some 1, some 1) := by
    decide +kernel
  obtain ⟨⟨s, tr⟩, h, hs⟩ := Option.map_eq_some_iff.mp hex
  simp only [Prod.mk.injEq, Option.map_eq_some_iff] at hs
  obtain ⟨⟨hpc, hwake, hl⟩, ⟨hal₀, hal₁⟩, ⟨t₀, ht₀, hwait₀⟩, t₁, ht₁, hwait₁⟩ := hs
  have hcareful : ∀ s a s' es, careful s a = some (s', es) →
      (logging ℕ Careful).step s es s' := by
    intro s a s' es ha
    simp only [careful] at ha
    split_ifs at ha with hok
    exact ⟨a, hok, ha⟩
  obtain ⟨hist, hr⟩ := System.Run.exec hcareful (.start rfl) h
  have hb : s.appender.Blocked := ⟨⟨false, hpc⟩, hwake⟩
  have hfree := blocked_has_free hr hb
  rw [hl, List.forall_mem_cons, List.forall_mem_singleton] at hfree
  refine ⟨_, _, s, hr, hb, hl, ?_⟩
  rw [hl, List.forall_mem_cons, List.forall_mem_singleton]
  exact ⟨⟨t₀, ht₀, hwait₀, (hfree.1 hal₀ [] t₀ ht₀).1⟩, t₁, ht₁, hwait₁, (hfree.2 hal₁ [] t₁ ht₁).1⟩

/-- Steps of the producer of one variable that call no callback. -/
theorem run_produce {ok : Logging α → Act α → Prop} (id : VarId)
    (hok : ∀ s, ok s (.producer id) ∧ ∀ data, ok s (.add id data)) {acts : List (XBot.Act α)}
    (hacts : ∀ a ∈ acts, a = .producer ∨ ∃ data, a = .callAddElem data) :
    ∀ {hist : List (Logging α)} {tr : List FlusherEvent} {s : Logging α} {t t' : Threads α}
      {es : List (Event α)}, (logging α ok).Run hist tr s → s.var id = some t →
      s.alive id.1 = true → s.appender.notifier id = .idle →
      exec Threads.step t acts = some (t', es) → reported es = none →
      ∃ hist' tr', (logging α ok).Run hist' tr' (s.setVar id t') := by
  induction acts with
  | nil =>
    intro hist tr s t t' es hr ht hal hn h hes
    cases h
    refine ⟨hist, tr, ?_⟩
    have : s.setVar id t = s := by
      unfold setVar
      rw [← ht, Function.update_eq_self]
    rw [this]
    exact hr
  | cons a acts ih =>
    intro hist tr s t t' es hr ht hal hn h hes
    simp only [Transition.exec] at h
    cases ha : t.step a with
    | none => simp [ha] at h
    | some p =>
      obtain ⟨t₁, es₁⟩ := p
      simp only [ha, Option.map_eq_some_iff, Prod.mk.injEq, Prod.exists] at h
      obtain ⟨t₂, es₂, h, rfl, rfl⟩ := h
      obtain ⟨hes₁, hes₂⟩ : reported es₁ = none ∧ reported es₂ = none := by
        simpa [reported, List.findSome?_append] using hes
      have hstep : s.produce id a = some (s.setVar id t₁) := by
        have hset : s.appender.setNotifier id .idle = s.appender := by
          unfold MatAppender.setNotifier
          rw [← hn, Function.update_eq_self]
        simp only [produce, ht, hn, hal, ha, if_true, Option.map_some, called, hes₁, hset]
        rfl
      have hnext : (logging α ok).step s [] (s.setVar id t₁) := by
        rcases hacts a (by simp) with rfl | ⟨data, rfl⟩
        · exact ⟨.producer id, (hok s).1, by simp only [step, hstep, Option.map_some]⟩
        · exact ⟨.add id data, (hok s).2 data, by simp only [step, hstep, Option.map_some]⟩
      have := ih (fun a h => hacts a (List.mem_cons_of_mem _ h)) (hr.next hnext)
        (Function.update_self _ _ _) hal hn h hes₂
      simpa only [setVar, Function.update_idem] using this

/-- All blocks of a variable but the current one wait to be read. -/
def fillQueue : List (XBot.Act ℕ) :=
  (List.range 20).flatMap fun k =>
    .callAddElem (scalar k) :: List.replicate (if k = 0 then 1 else 15) .producer

/-- A flusher that has nothing to do goes to sleep, and a logger is filled before it is
registered. -/
def asleep : Logging ℕ :=
  { (make : Logging ℕ) with
    appender := { MatAppender.make with flushThreadRun := true, flusher := .waiting false }
    vars := Function.update (fun _ => []) 0 [[]]
    var := Function.update (fun _ => none) (0, []) (some scalarThreads) }

theorem late_logger_full : ∃ hist tr s, (logging ℕ fun _ _ => True).Run hist tr s ∧
    s.appender.Blocked ∧ 0 ∈ s.loggers ∧ s.alive 0 = true ∧ ∃ t, s.var (0, []) = some t ∧
      t.free = 0 ∧ t.vb.flushToQueue.ret = .ok false := by
  have hS : ∀ s a s' es, step s a = some (s', es) →
      (logging ℕ fun _ _ => True).step s es s' := fun _ a _ _ h => ⟨a, trivial, h⟩
  have hsleep : exec step make ([.startFlushThread] ++ List.replicate 5 .flusher ++
      [.create 0 [] [[]] 1 1 1 Nat.one_pos fun _ => scalarMemory]) =
      some (asleep, [.passStarted, .blocked]) := rfl
  obtain ⟨_, hr⟩ := System.Run.exec hS (.start rfl) hsleep
  have hfill : ((exec Threads.step scalarThreads fillQueue).map fun p =>
      let t := { p.1 with vb := p.1.vb.setOnBlockAvailable true }
      ((reported p.2).isNone, t.free, t.vb.flushToQueue.ret.toOption)) =
        some (true, 0, some false) := by
    decide +kernel
  obtain ⟨⟨t, es⟩, h, ht⟩ := Option.map_eq_some_iff.mp hfill
  simp only [Prod.mk.injEq] at ht
  obtain ⟨hes, hfree, hret⟩ := ht
  have hacts : ∀ a ∈ fillQueue, a = .producer ∨ ∃ data, a = .callAddElem data := by
    intro a ha
    obtain ⟨k, -, ha⟩ := List.mem_flatMap.mp ha
    rcases List.mem_cons.mp ha with rfl | ha
    · exact .inr ⟨_, rfl⟩
    · exact .inl (List.eq_of_mem_replicate ha)
  obtain ⟨_, _, hr⟩ := run_produce (0, []) (fun _ => ⟨trivial, fun _ => trivial⟩) hacts hr
    rfl rfl rfl h (Option.isNone_iff_eq_none.mp hes)
  have hadd : exec step (asleep.setVar (0, []) t) (.callAddLogger 0 :: List.replicate 3 .addLogger) =
      some ({ (asleep.setVar (0, []) t).setVar (0, [])
          { t with vb := t.vb.setOnBlockAvailable true } with
        onBlockAvailable := Function.update (fun _ => false) 0 true
        loggers := [0] }, []) := rfl
  obtain ⟨_, hr⟩ := System.Run.exec hS hr hadd
  refine ⟨_, _, _, hr, ⟨⟨false, rfl⟩, rfl⟩, List.mem_singleton.mpr rfl, rfl,
    { t with vb := t.vb.setOnBlockAvailable true }, rfl, hfree, ?_⟩
  cases hf : (VariableBuffer.flushToQueue (t.vb.setOnBlockAvailable true)).ret with
  | error what =>
    rw [hf] at hret
    cases hret
  | ok b =>
    rw [hf] at hret
    exact congrArg Except.ok (Option.some.inj hret)

end Logging
end XBot
