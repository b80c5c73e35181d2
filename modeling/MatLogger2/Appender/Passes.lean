import MatLogger2.Appender.Managed

/-! What becomes of the samples and containers of all loggers of an appender, in any interleaving of
their threads with its passes: when a logger is destructed, and when a pass has ended. -/

namespace XBot

open VariableBuffer MatLogger2 Transition Ledger

variable {α : Type}

/-- The entries that the pass has visited and kept. -/
def LoggersMutex.visited : LoggersMutex → List ControlBlock
  | .removing kept _ _ | .locked kept _ _ _ => kept
  | .flushed kept logger _ _ => kept ++ [logger]
  | _ => []

namespace Registry

variable {s s' : Registry} {es : List Event} {k : ControlBlock}

theorem nextStep_visited (h : s.nextStep = some (s', es)) (hk : k ∈ s'.mutex.visited) :
    k ∈ s.mutex.visited := by
  obtain ⟨loggers, mutex, ptrs, get, next⟩ := s
  cases mutex with
  | free => cases h
  | finding logger sp rest =>
    cases sp with
    | none => cases rest <;> cases h <;> exact hk
    | some sp =>
      cases h
      dsimp only at hk
      split at hk <;> exact hk
  | found logger =>
    cases h
    exact hk
  | notFound logger =>
    cases h
    exact hk
  | removing kept rest bytes =>
    cases rest with
    | nil =>
      cases h
      cases hk
    | cons elem rest =>
      simp only [nextStep] at h
      split at h <;> cases h <;> exact hk
  | locked kept logger rest bytes => cases h
  | flushed kept logger rest bytes =>
    cases h
    exact hk

/-- A pass keeps a logger when its `flush_available_data` has returned. -/
theorem step_visited {a : Act} (h : s.step a = some (s', es)) (hk : k ∈ s'.mutex.visited) :
    k ∈ s.mutex.visited ∨
      (∃ n, a = .flush n) ∧ ∃ kept rest bytes, s.mutex = .locked kept k rest bytes := by
  cases a with
  | make address =>
    simp only [step, make] at h
    split at h <;> cases h
    exact .inl hk
  | copy l =>
    simp only [step] at h
    split at h <;> cases h
    exact .inl hk
  | reset l =>
    simp only [step] at h
    split at h <;> cases h
    exact .inl hk
  | addLogger logger =>
    cases logger with
    | none =>
      cases h
      exact .inl hk
    | some l =>
      simp only [step, addLogger] at h
      split at h
      · split at h <;> cases h
        cases hk
      · cases h
  | flushAvailableDataAll =>
    simp only [step] at h
    split at h <;> cases h
    cases hk
  | next => exact .inl (nextStep_visited h hk)
  | flush n =>
    simp only [step, flushStep] at h
    split at h <;> cases h
    rename_i kept l rest bytes hm
    rcases List.mem_append.mp hk with hk | hk
    · rw [hm]
      exact .inl hk
    · obtain rfl := List.mem_singleton.mp hk
      exact .inr ⟨⟨n, rfl⟩, kept, rest, bytes, hm⟩

theorem step_passEnded {a : Act} {loggers : List ControlBlock} {bytes : ℤ}
    (h : s.step a = some (s', es)) (he : .passEnded loggers bytes ∈ es) :
    ∃ kept bytes, s.mutex = .removing kept [] bytes := by
  have hlost : ∀ (t : Registry) l, .passEnded loggers bytes ∉ t.lost l := by
    intro t l hm
    cases (Lives.mem_lost.mp hm).1
  cases a with
  | make address =>
    simp only [step, make] at h
    split at h <;> cases h
    simp at he
  | copy l =>
    simp only [step] at h
    split at h <;> cases h
    cases he
  | reset l =>
    simp only [step] at h
    split at h <;> cases h
    exact absurd he (hlost _ _)
  | addLogger logger =>
    cases logger with
    | none =>
      cases h
      simp at he
    | some l =>
      simp only [step, addLogger] at h
      split at h
      · split at h <;> cases h
        cases he
      · cases h
  | flushAvailableDataAll =>
    simp only [step] at h
    split at h <;> cases h
    simp at he
  | next =>
    simp only [step] at h
    cases hm : s.mutex with
    | free => simp [nextStep, hm] at h
    | finding logger sp rest =>
      cases sp with
      | none =>
        cases rest <;> simp only [nextStep, hm] at h <;> cases h <;> cases he
      | some sp =>
        simp only [nextStep, hm] at h
        cases h
        exact absurd he (hlost _ _)
    | found logger =>
      simp only [nextStep, hm] at h
      cases h
      simp at he
    | notFound logger =>
      simp only [nextStep, hm] at h
      cases h
      simp at he
    | removing kept rest bytes =>
      cases rest with
      | nil => exact ⟨kept, bytes, rfl⟩
      | cons elem rest =>
        simp only [nextStep, hm] at h
        split at h <;> cases h <;> simp at he
    | locked kept logger rest bytes => simp [nextStep, hm] at h
    | flushed kept logger rest bytes =>
      simp only [nextStep, hm] at h
      cases h
      exact absurd he (hlost _ _)
  | flush n =>
    simp only [step, flushStep] at h
    split at h <;> cases h
    simp at he

end Registry

namespace Managed

variable {s s' : Managed α} {tr tr' es : List (Event α)} {l k : ControlBlock}

/-- What a pass has kept by a step, it had kept before, or `flush_available_data` has just returned. -/
theorem Moves.visited (h : Moves s s' es) (hk : k ∈ s'.registry.mutex.visited) :
    k ∈ s.registry.mutex.visited ∨ ∃ n, .flushed n ∈ loggerEvents k es := by
  cases h with
  | made address opt evs hr hlog he =>
    exact .inl ((Registry.step_visited hr hk).resolve_right (by simp))
  | listed a evs hr ha hf hp hs he =>
    exact .inl ((Registry.step_visited hr hk).resolve_right fun h => by
      obtain ⟨⟨n, hn⟩, -⟩ := h
      exact hf n hn)
  | used l a evs t ha hp hstep hs he =>
    rw [hs] at hk
    exact .inl hk
  | flushing kept l rest bytes a evs t hm ha hret hstep hs he =>
    rw [hs] at hk
    exact .inl hk
  | flushed kept l rest bytes n a evs t hm ha hret hstep hr hs he =>
    rcases Registry.step_visited hr hk with hk | ⟨-, kept', rest', bytes', hm'⟩
    · exact .inl hk
    · rw [hm] at hm'
      obtain rfl := (LoggersMutex.locked.inj hm').2.1
      refine .inr ⟨n, ?_⟩
      rw [he, loggerEvents_append, loggerEvents_logger]
      exact List.mem_append_left _ (returned_mem hret)

/-- A pass that ends has visited all entries. -/
theorem Moves.passEnded (h : Moves s s' es) {loggers : List ControlBlock} {bytes : ℤ}
    (he : .passEnded loggers bytes ∈ registryEvents es) :
    ∃ kept bytes, s.registry.mutex = .removing kept [] bytes := by
  rcases h.registry with ⟨-, hes⟩ | ⟨a, hr⟩
  · rw [hes] at he
    cases he
  · exact Registry.step_passEnded hr he

/-- What a run leads to that starts when no thread has the mutex. -/
structure Onward (tr : List (Event α)) (l : ControlBlock) (s : Managed α) (tr' : List (Event α))
    (s' : Managed α) : Prop where
  inv : Inv (tr ++ tr') s'
  made : l < s'.registry.next
  part : ∀ opt, ∃ hist, ((shared α opt).startingAt (s.logger l).silent).Run hist
    (unnotified (loggerEvents l tr')) (s'.logger l).silent
  visited : ∀ k ∈ s'.registry.mutex.visited, ∃ n, .flushed n ∈ loggerEvents k tr'
  ended : ∀ loggers bytes, .passEnded loggers bytes ∈ registryEvents tr' → s'.registry.Alive l →
    ∃ n, .flushed n ∈ loggerEvents l tr'

theorem Onward.start (inv : Inv tr s) (hm : s.registry.mutex = .free) (hl : l < s.registry.next) :
    Onward tr l s [] s := by
  refine ⟨by rwa [List.append_nil], hl, fun opt => ⟨_, .start rfl⟩, ?_, by simp [registryEvents]⟩
  rw [hm]
  simp [LoggersMutex.visited]

theorem Onward.step (h : Onward tr l s tr' s') (hadd : .added (some l) true ∈ registryEvents tr)
    {s'' : Managed α} {a : Act α} (hstep : s'.step a = some (s'', es)) :
    Onward tr l s (tr' ++ es) s'' := by
  have hm := Moves.step hstep
  have hold : ∀ {k : ControlBlock} {n : ℤ}, .flushed n ∈ loggerEvents k tr' →
      ∃ n, .flushed n ∈ loggerEvents k (tr' ++ es) := by
    intro k n hn
    rw [loggerEvents_append]
    exact ⟨n, List.mem_append_left _ hn⟩
  have hvisited : ∀ k ∈ s'.registry.mutex.visited, ∃ n, .flushed n ∈ loggerEvents k (tr' ++ es) := by
    intro k hk
    obtain ⟨n, hn⟩ := h.visited k hk
    exact hold hn
  refine ⟨?_, hm.next_le h.inv.registry h.made, fun opt => ?_, fun k hk => ?_, ?_⟩
  · rw [← List.append_assoc]
    exact h.inv.step hstep
  · obtain ⟨hist, hr⟩ := h.part opt
    rw [loggerEvents_append]
    rcases hm.part h.made with ⟨hs, he⟩ | ⟨a, ha⟩
    · rw [hs, he, List.append_nil]
      exact ⟨hist, hr⟩
    · rw [unnotified_append]
      exact ⟨_, hr.next ⟨a, ha⟩⟩
  · rcases hm.visited hk with hk | ⟨n, hn⟩
    · exact hvisited k hk
    · rw [loggerEvents_append]
      exact ⟨n, List.mem_append_right _ hn⟩
  · intro loggers bytes he ha
    have halive : s'.registry.Alive l := by
      rcases hm.registry with ⟨hr, -⟩ | ⟨a, hr⟩
      · rwa [hr] at ha
      · exact h.inv.registry.alive_of_step hr h.made ha
    rw [registryEvents_append, List.mem_append] at he
    rcases he with he | he
    · obtain ⟨n, hn⟩ := h.ended loggers bytes he halive
      exact hold hn
    · -- the pass that ends here has kept the logger
      obtain ⟨kept, bytes', hmutex⟩ := hm.passEnded he
      have hlist := h.inv.registry.mutex
      rw [hmutex] at hlist
      have hin := (h.inv.registry.added l (by simp [hadd])).2 halive
      rw [hlist.1, List.append_nil] at hin
      exact hvisited l (by rw [hmutex]; exact hin)

theorem Onward.run {hist hist' : List (Managed α)} (h : (managed α).Run hist tr s)
    (hm : s.registry.mutex = .free) (hl : l ∈ s.registry.loggers)
    (h' : ((managed α).startingAt s).Run hist' tr' s') : Onward tr l s tr' s' := by
  have inv := Inv.run h
  have hadd := inv.registry.listed l hl
  induction h' with
  | start hs =>
    obtain rfl := hs
    exact .start inv hm (inv.registry.added l hadd).1
  | next hr hstep ih =>
    obtain ⟨a, ha⟩ := hstep
    exact ih.step hadd ha

/-- Nobody is inside a logger that is not alive. -/
theorem Inv.outside (inv : Inv tr s) (hl : ¬ s.registry.Alive l) :
    (s.logger l).user = .outside ∧ (s.logger l).flusher = .outside := by
  constructor
  · have hptrs : ¬ 0 < s.registry.ptrs l := fun hp => hl (Registry.alive_iff.mpr (.inl hp))
    have hused := inv.pinned l
    rw [Nat.eq_zero_of_not_pos hptrs, used] at hused
    cases hu : (s.logger l).user with
    | outside => rfl
    | _ => simp [hu, User.isOutside] at hused
  · by_contra hf
    obtain ⟨kept, rest, bytes, hm⟩ := inv.inside l hf
    exact hl (Registry.alive_of_locked hm)

/-- After its end, a logger shows nothing. -/
theorem Inv.quiet (inv : Inv tr s) {pre post : List (Event α)}
    (htr : tr = pre ++ .registry (.destructed l) :: post) : loggerEvents l post = [] := by
  rw [loggerEvents, List.filterMap_eq_nil_iff]
  intro e he
  cases e with
  | registry e => rfl
  | logger k e =>
    refine if_neg ?_
    rintro rfl
    obtain ⟨mid, rest, rfl⟩ := List.append_of_mem he
    have hlive := inv.timely (pre ++ .registry (.destructed k) :: mid) (.logger k e) rest (by simp [htr])
    refine hlive.2 ?_
    rw [registryEvents_append]
    exact List.mem_append_right _ List.mem_cons_self

end Managed

def LoggersMutex.isFree : LoggersMutex → Bool
  | .free => true
  | _ => false

/-- The steps of a logger's threads, where a pass takes those of the second. -/
def Managed.actOf (l : ControlBlock) (a : Shared.Act α) : Managed.Act α :=
  if a.isUser then .user l a else .flush a

/-- A logger is made and added, and used. -/
def enrolled : List (Managed.Act ℕ) :=
  [.make 5 ⟨20, 20⟩, .addLogger (some 0), .next, .next] ++ (crossing.take 17).map (Managed.actOf 0)

/-- A pass flushes it while it is being used. -/
def passing : List (Managed.Act ℕ) :=
  [.flushAvailableDataAll, .next] ++ (crossing.drop 17).map (Managed.actOf 0) ++ [.next, .next]

theorem exec_enrolled : ∃ s tr s' tr' s'' tr'', exec Managed.step .start enrolled = some (s, tr) ∧
    exec Managed.step s passing = some (s', tr') ∧ exec Managed.step s' [.reset 0] = some (s'', tr'') ∧
    s.registry.mutex = .free ∧ 0 ∈ s.registry.loggers ∧
    .passEnded [0] 8 ∈ Managed.registryEvents tr' ∧ s'.registry.Alive 0 ∧
    .destructed 0 ∈ Managed.registryEvents tr'' ∧
    (∃ vb, (s.logger 0).logger.vars = [([120], vb)] ∧ ((s.logger 0).threads [120] vb).filling = []) ∧
    accepted (eventsAt [120] (Managed.loggerEvents 0 tr)) = [[5]] ∧
    discarded (eventsAt [120] (Managed.loggerEvents 0 tr)) = [] ∧
    (∃ vb, (s''.logger 0).logger.vars = [([120], vb)]) ∧
    accepted (eventsAt [120] (Managed.loggerEvents 0 (tr ++ (tr' ++ tr'')))) = [[5], [6]] ∧
    discarded (eventsAt [120] (Managed.loggerEvents 0 (tr ++ (tr' ++ tr'')))) = [] := by
  have hex : ((exec Managed.step .start enrolled).bind fun p =>
      (exec Managed.step p.1 passing).bind fun q =>
        (exec Managed.step q.1 [.reset 0]).map fun r =>
          decide (p.1.registry.mutex.isFree = true ∧ 0 ∈ p.1.registry.loggers ∧
            .passEnded [0] 8 ∈ Managed.registryEvents q.2 ∧ q.1.registry.Alive 0 ∧
            .destructed 0 ∈ Managed.registryEvents r.2 ∧
            (p.1.logger 0).logger.vars.map (fun v => (v.1, ((p.1.logger 0).threads v.1 v.2).filling)) =
              [([120], [])] ∧
            accepted (eventsAt [120] (Managed.loggerEvents 0 p.2)) = [[5]] ∧
            discarded (eventsAt [120] (Managed.loggerEvents 0 p.2)) = [] ∧
            (r.1.logger 0).logger.vars.map Prod.fst = [[120]] ∧
            accepted (eventsAt [120] (Managed.loggerEvents 0 (p.2 ++ (q.2 ++ r.2)))) = [[5], [6]] ∧
            discarded (eventsAt [120] (Managed.loggerEvents 0 (p.2 ++ (q.2 ++ r.2)))) = [])) =
      some true := by
    decide +kernel
  obtain ⟨⟨s, tr⟩, h, hex⟩ := Option.bind_eq_some_iff.mp hex
  obtain ⟨⟨s', tr'⟩, h', hex⟩ := Option.bind_eq_some_iff.mp hex
  obtain ⟨⟨s'', tr''⟩, h'', hs⟩ := Option.map_eq_some_iff.mp hex
  obtain ⟨hfree, hin, hended, halive, hdead, hvars, hacc, hdis, hvars', hacc', hdis'⟩ :=
    of_decide_eq_true hs
  refine ⟨s, tr, s', tr', s'', tr'', h, h', h'', ?_, hin, hended, halive, hdead, ?_, hacc, hdis, ?_,
    hacc', hdis'⟩
  · cases hm : s.registry.mutex with
    | free => rfl
    | _ => simp [hm, LoggersMutex.isFree] at hfree
  · obtain ⟨⟨n, vb⟩, hl, he⟩ := List.map_eq_singleton_iff.mp hvars
    obtain ⟨rfl, hfill⟩ := Prod.mk.inj he
    exact ⟨vb, hl, hfill⟩
  · obtain ⟨⟨n, vb⟩, hl, he⟩ := List.map_eq_singleton_iff.mp hvars'
    obtain rfl : n = [120] := he
    exact ⟨vb, hl⟩

section Results

variable {hist hist' : List (Managed α)} {tr tr' : List (Managed.Event α)} {s s' : Managed α}
variable {l : ControlBlock}

/-- When a logger is destructed, no thread is inside it, and none will be. The destructor ends, and all
that has been saved and accepted has then been written, but for the blocks that were dropped. -/
theorem managed_saved (h : (managed α).Run hist tr s)
    (hd : .destructed l ∈ Managed.registryEvents tr) :
    (s.logger l).user = .outside ∧ (s.logger l).flusher = .outside ∧
    (∀ pre post, tr = pre ++ .registry (.destructed l) :: post → Managed.loggerEvents l post = []) ∧
    ∃ s', (∀ fuel, (s.logger l).logger.destroy (fuel + 2) = some (s', none)) ∧
      containers s'.backend = savedBefore (Managed.loggerEvents l tr) ∧
      (∀ name, name ∉ (s.logger l).logger.vars.map Prod.fst → callsFor name s'.backend = []) ∧
      ∀ name vb, (name, vb) ∈ (s.logger l).logger.vars → ∃ kept payloads,
        (callsFor name s'.backend).mapM BackendCall.payload = some payloads ∧
        payloads.flatten = kept.flatten ∧
        Lossy (discarded (eventsAt name (Managed.loggerEvents l tr)))
          (accepted (eventsAt name (Managed.loggerEvents l tr))) kept ∧
        ∀ run ∈ discarded (eventsAt name (Managed.loggerEvents l tr)),
          run.length = vb.current.getSize := by
  have inv := Managed.Inv.run h
  obtain ⟨hlt, hdead⟩ := (inv.registry.lives.destructed l).mp hd
  obtain ⟨hu, hf⟩ := inv.outside hdead
  obtain ⟨opt, hist, hr⟩ := inv.part l hlt
  have hpart := Shared.Inv.run hr
  obtain ⟨s', hdestroy, hcont, hother, hall⟩ := hpart.destroy hu hf
  refine ⟨hu, hf, fun pre post => inv.quiet, s', fun fuel => ?_, ?_, fun name hn => ?_, ?_⟩
  · rw [← hdestroy fuel]
    exact ((s.logger l).logger.destroy_silent (fuel + 2)).symm
  · rw [hcont, savedBefore_unnotified]
  · refine hother name ?_
    rwa [Shared.silent, keys_silent]
  · intro name vb hm
    have hm' := (s.logger l).logger.mem_silent hm
    have hlossy := (hpart.blocks hu hf hm').2
    have hlengths := (hpart.each _ _ hm').lengths
    rw [eventsAt_unnotified, accepted_unheard, discarded_unheard] at hlossy
    rw [eventsAt_unnotified, discarded_unheard] at hlengths
    refine ⟨_, _, payloads_isWrite (hall name _ hm'), ?_, hlossy, hlengths⟩
    rw [← List.flatten_flatten, eventsAt_unnotified]

theorem managed_saved_enrolled : ∃ hist tr s s' payloads, (managed ℕ).Run hist tr s ∧
    .destructed 0 ∈ Managed.registryEvents tr ∧ (s.logger 0).logger.destroy 2 = some (s', none) ∧
    (callsFor [120] s'.backend).mapM BackendCall.payload = some payloads ∧
    payloads.flatten = [5, 6] := by
  obtain ⟨s, tr, s', tr', s'', tr'', h, h', h'', -, -, -, -, hdead, -, -, -, ⟨vb, hvars⟩, hacc, hdis⟩ :=
    exec_enrolled
  have hstep : ∀ s a s' es, Managed.step s a = some (s', es) → (managed ℕ).step s es s' :=
    fun _ a _ _ ha => ⟨a, ha⟩
  obtain ⟨hist, hr⟩ := System.Run.exec hstep (.start rfl) h
  obtain ⟨hist', hr'⟩ := System.Run.exec hstep hr h'
  obtain ⟨hist'', hr''⟩ := System.Run.exec hstep hr' h''
  rw [List.nil_append, List.append_assoc tr] at hr''
  have hd : .destructed 0 ∈ Managed.registryEvents (tr ++ (tr' ++ tr'')) := by simp [hdead]
  obtain ⟨-, -, -, t, hdestroy, -, -, hall⟩ := managed_saved hr'' hd
  obtain ⟨kept, payloads, hpay, hflat, hlossy, -⟩ := hall [120] vb (by simp [hvars])
  rw [hdis, hacc] at hlossy
  rw [hlossy.eq_of_nil] at hflat
  exact ⟨_, _, s'', t, payloads, hr'', hd, hdestroy 0, hpay, hflat⟩

/-- When a pass has ended, all loggers that were in the list when no thread had its mutex, and are still
alive, have written what had been saved by then, and what had left the current blocks. -/
theorem pass_complete (h : (managed α).Run hist tr s) (hm : s.registry.mutex = .free)
    (h' : ((managed α).startingAt s).Run hist' tr' s') {loggers : List ControlBlock} {bytes : ℤ}
    (he : .passEnded loggers bytes ∈ Managed.registryEvents tr') (hl : l ∈ s.registry.loggers)
    (ha : s'.registry.Alive l) :
    savedBefore (Managed.loggerEvents l tr) <+: containers (s'.logger l).logger.backend ∧
    ∀ name vb, (name, vb) ∈ (s.logger l).logger.vars → ∃ left written payloads,
      Lossy (discarded (eventsAt name (Managed.loggerEvents l tr)))
        (accepted (eventsAt name (Managed.loggerEvents l tr)))
        (left ++ ((s.logger l).threads name vb).filling) ∧ left <+: written ∧
      (callsFor name (s'.logger l).logger.backend).mapM BackendCall.payload = some payloads ∧
      payloads.flatten = written.flatten := by
  have inv := Managed.Inv.run h
  have onward := Managed.Onward.run h hm hl h'
  obtain ⟨n, hn⟩ := onward.ended loggers bytes he ha
  have hlt := (inv.registry.added l (inv.registry.listed l hl)).1
  obtain ⟨opt, hist, hr⟩ := inv.part l hlt
  obtain ⟨hist', hr'⟩ := onward.part opt
  have hf : (s.logger l).silent.flusher = .outside := by
    by_contra hf
    obtain ⟨kept, rest, bytes, hlocked⟩ := inv.inside l hf
    rw [hm] at hlocked
    cases hlocked
  obtain ⟨inv', hkeys, hall⟩ := Shared.Handed.run hr hf hr' (flushed_unnotified _ hn)
  constructor
  · have hsaved := hall.1
    rwa [savedBefore_unnotified] at hsaved
  · intro name vb hm
    have hwritten := (Shared.Inv.run hr).left_written inv' hkeys hall ((s.logger l).logger.mem_silent hm)
    rw [eventsAt_unnotified, accepted_unheard, discarded_unheard, Shared.filling_silent] at hwritten
    exact hwritten

theorem pass_complete_enrolled : ∃ hist tr s hist' tr' s' payloads, (managed ℕ).Run hist tr s ∧
    ((managed ℕ).startingAt s).Run hist' tr' s' ∧ .passEnded [0] 8 ∈ Managed.registryEvents tr' ∧
    (callsFor [120] (s'.logger 0).logger.backend).mapM BackendCall.payload = some payloads ∧
    [5] <+: payloads.flatten := by
  obtain ⟨s, tr, s', tr', -, -, h, h', -, hfree, hin, hended, halive, -, ⟨vb, hvars, hfill⟩, hacc, hdis,
    -⟩ := exec_enrolled
  have hstep : ∀ s a s' es, Managed.step s a = some (s', es) → (managed ℕ).step s es s' :=
    fun _ a _ _ ha => ⟨a, ha⟩
  obtain ⟨hist, hr⟩ := System.Run.exec hstep (.start rfl) h
  obtain ⟨hist', hr'⟩ := System.Run.exec (S := (managed ℕ).startingAt s) hstep (.start rfl) h'
  obtain ⟨left, written, payloads, hlossy, hpre, hpay, hflat⟩ :=
    (pass_complete hr hfree hr' hended hin halive).2 [120] vb (by simp [hvars])
  rw [List.nil_append, hfill, List.append_nil, hacc, hdis] at hlossy
  rw [hlossy.eq_of_nil] at hpre
  refine ⟨_, _, s, _, _, s', payloads, hr, hr', hended, hpay, ?_⟩
  obtain ⟨rest, rfl⟩ := hpre
  exact ⟨rest.flatten, hflat.symm⟩

end Results

end XBot
