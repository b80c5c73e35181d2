import MatLogger2.Logger.Tracked

/-! What becomes of the samples and the containers of a logger that two threads share, in every
interleaving of their steps: at any moment of the run, and when the destructor has ended. -/

namespace XBot

open VariableBuffer MatLogger2 Transition Ledger

variable {α : Type}

namespace Shared

variable {tr es : List (LoggerEvent α)} {s s' : Shared α}

theorem inv_start (opt : Options) (callback : Bool) : Inv [] (start opt callback : Shared α) :=
  ⟨rfl, .nil, nofun, fun _ _ => ⟨rfl, rfl⟩, rfl⟩

theorem Inv.callAdd (inv : Inv tr s) (hu : s.user = .outside) {mem : Allocator α}
    {varName : StdString} {data : Eigen.MatrixXd α}
    (h : s.callAdd mem varName data = some (s', es)) : Inv (tr ++ es) s' := by
  rw [Shared.callAdd] at h
  cases hf : s.logger.find varName with
  | some vb =>
    simp only [hf] at h
    cases h
    rw [List.append_nil]
    exact inv.addElem hu hf data
  | none =>
    simp only [hf] at h
    obtain ⟨⟨l, ok⟩, hc, he⟩ := Option.map_eq_some_iff.mp h
    have hinv := inv.create hu hc
    cases ok with
    | true =>
      cases he
      obtain ⟨-, hc⟩ := create_true hc
      obtain ⟨-, -, -, -, rfl⟩ := MatLogger2.create_true hc
      obtain ⟨vb, hvb⟩ := Option.isSome_iff_exists.mp (find_emplace _ _ _ _ _ _)
      rw [List.append_nil]
      exact hinv.addElem hu hvb data
    | false =>
      cases he
      exact hinv.frame rfl rfl (fun _ => ⟨rfl, rfl⟩) (fun _ => rfl) (List.append_nil _).symm
        (fun _ => rfl) (List.append_nil _).symm

theorem Inv.userStep (inv : Inv tr s) (h : s.userStep = some (s', es)) : Inv (tr ++ es) s' := by
  rw [Shared.userStep] at h
  cases hu : s.user with
  | outside =>
    rw [hu] at h
    cases h
  | add name p =>
    simp only [hu] at h
    obtain ⟨⟨t, evs⟩, hv, he⟩ := Option.map_eq_some_iff.mp h
    cases he
    obtain ⟨hself, hout⟩ := inside_afterAdd name t.producer
    refine inv.userAt _ rfl hv hself fun other hne => ?_
    rw [hout other hne, hu]
    exact (if_neg hne.symm).symm
  | flushToQueueAll todo ret p =>
    cases todo with
    | nil =>
      simp only [hu] at h
      cases h
      refine inv.frame rfl rfl (fun n => ⟨?_, rfl⟩) (fun _ => rfl) (List.append_nil _).symm
        (fun _ => rfl) (List.append_nil _).symm
      rw [hu]
      rfl
    | cons name todo =>
      simp only [hu] at h
      obtain ⟨⟨t, evs⟩, hv, he⟩ := Option.map_eq_some_iff.mp h
      cases he
      obtain ⟨hself, hout⟩ := inside_afterFlushToQueue name t.producer todo ret (flushedTrue evs)
      refine inv.userAt _ ?_ hv hself fun other hne => ?_
      · cases p <;> rfl
      · rw [hout other hne, hu]
        exact (if_neg hne.symm).symm

theorem Inv.flusherStep {order : List StdString} (inv : Inv tr s)
    (h : s.flusherStep order = some (s', es)) : Inv (tr ++ es) s' := by
  rw [Shared.flusherStep] at h
  cases hfl : s.flusher with
  | outside =>
    rw [hfl] at h
    cases h
  | containers =>
    cases hq : s.logger.matdataQueue with
    | nil =>
      simp only [hfl, hq] at h
      cases h
      refine inv.frame rfl rfl (fun n => ⟨rfl, ?_⟩) (fun _ => rfl) (List.append_nil _).symm
        (fun _ => rfl) (List.append_nil _).symm
      rw [hfl]
      rfl
    | cons p rest =>
      simp only [hfl, hq] at h
      cases h
      refine inv.frame rfl rfl (fun _ => ⟨rfl, by rw [hfl]⟩) (fun _ => rfl) rfl (fun _ => rfl) ?_
      rw [hq]
      exact (List.append_nil _).symm
  | lockVars =>
    simp only [hfl] at h
    split_ifs at h
    cases h
    refine inv.frame rfl rfl (fun n => ⟨rfl, ?_⟩) (fun _ => rfl) (List.append_nil _).symm
      (fun _ => rfl) (List.append_nil _).symm
    rw [hfl]
    exact flusher_inside_idle n order 0
  | vars todo bytes c =>
    cases todo with
    | nil =>
      simp only [hfl] at h
      cases h
      refine inv.frame rfl rfl (fun n => ⟨rfl, ?_⟩) (fun _ => rfl) (List.append_nil _).symm
        (fun _ => rfl) (List.append_nil _).symm
      rw [hfl]
      rfl
    | cons name todo =>
      simp only [hfl] at h
      obtain ⟨⟨t, evs⟩, hv, he⟩ := Option.map_eq_some_iff.mp h
      cases he
      refine inv.flusherAt hfl ?_ hv
      cases c <;> rfl

theorem Inv.step {a : Act α} (inv : Inv tr s) (h : s.step a = some (s', es)) : Inv (tr ++ es) s' := by
  cases a with
  | create mem varName rows cols bufferSize =>
    cases hu : s.user with
    | outside =>
      simp only [Shared.step, hu] at h
      obtain ⟨⟨l, ok⟩, hc, he⟩ := Option.map_eq_some_iff.mp h
      cases he
      exact (inv.create hu hc).frame rfl rfl (fun n => ⟨by rw [hu], rfl⟩) (fun _ => rfl)
        (List.append_nil _).symm (fun _ => rfl) (List.append_nil _).symm
    | _ => simp [Shared.step, hu] at h
  | callAdd mem varName data =>
    cases hu : s.user with
    | outside =>
      simp only [Shared.step, hu] at h
      exact inv.callAdd hu h
    | _ => simp [Shared.step, hu] at h
  | save varName varData =>
    simp only [Shared.step] at h
    split at h
    · cases h
    · cases h
      exact inv.frame rfl rfl (fun _ => ⟨rfl, rfl⟩) (fun _ => rfl) (List.append_nil _).symm
        (fun _ => rfl) rfl
    · cases h
  | callFlushToQueueAll order =>
    cases hu : s.user with
    | outside =>
      simp only [Shared.step, hu] at h
      split_ifs at h
      cases h
      refine inv.frame rfl rfl (fun n => ⟨?_, rfl⟩) (fun _ => rfl) (List.append_nil _).symm
        (fun _ => rfl) (List.append_nil _).symm
      rw [hu]
      exact user_inside_idle n order true
    | _ => simp [Shared.step, hu] at h
  | user => exact inv.userStep h
  | callFlushAvailableData =>
    cases hfl : s.flusher with
    | outside =>
      simp only [Shared.step, hfl] at h
      cases h
      refine inv.frame rfl rfl (fun n => ⟨rfl, ?_⟩) (fun _ => rfl) (List.append_nil _).symm
        (fun _ => rfl) (List.append_nil _).symm
      rw [hfl]
      rfl
    | _ => simp [Shared.step, hfl] at h
  | flusher order => exact inv.flusherStep h

theorem Inv.run {opt : Options} {hist : List (Shared α)} (h : (shared α opt).Run hist tr s) :
    Inv tr s := by
  refine h.inv (fun s hs => ?_) fun tr s es s' inv hstep => ?_
  · obtain ⟨callback, rfl⟩ := hs
    exact inv_start opt callback
  · obtain ⟨a, ha⟩ := hstep
    exact inv.step ha

end Shared

namespace Tracked

variable {name : StdString} {es : List (Event α)} {calls : List (BackendCall α)} {t : Threads α}

theorem lengths (h : Tracked name es calls t) :
    ∀ run ∈ discarded es, run.length = t.vb.current.getSize := by
  obtain ⟨rows, cols, b, hist, hr⟩ := h.run
  have k := (sharing_run hr).kept
  intro run hrun
  rw [k.lengths run hrun]
  exact (k.ordered.size _).symm

/-- What has been read, and then what is still there. -/
theorem lossy (h : Tracked name es calls t) :
    Lossy (discarded es) (accepted es) (delivered es ++ (t.queued ++ t.filling)) := by
  obtain ⟨rows, cols, b, hist, hr⟩ := h.run
  rw [← List.append_assoc]
  exact (sharing_run hr).kept.ordered.ledger.lossy

theorem content (h : Tracked name es calls t) (hp : t.producer = .idle) (hc : t.consumer = .idle) :
    t.queued ++ t.filling = t.vb.log.content := by
  have hm := h.mode
  have hq : t.queued = samplesOf t.vb.block t.vb.queue.readQueue.content := by
    simp only [Threads.queued, Threads.rqLive, Threads.rqPop, hm, hc]
    rfl
  have hf : t.filling = t.vb.current.valid := by
    simp only [Threads.filling, hp]
    rfl
  rw [hq, hf, BlockLog.content, samplesOf, List.flatMap]
  rfl

end Tracked

namespace Shared

variable {tr : List (LoggerEvent α)} {s : Shared α}

/-- With both threads outside, one thread may use the logger again. -/
theorem Inv.tidy (inv : Inv tr s) (hu : s.user = .outside) (hf : s.flusher = .outside) :
    Tidy s.logger.bufferMode s.logger.vars := by
  rw [inv.mode]
  refine ⟨inv.nodup, fun p hp => (inv.each p.1 p.2 hp).named, fun p hp => (inv.each p.1 p.2 hp).mode,
    fun p hp => (inv.each p.1 p.2 hp).shaped, fun p hp => ?_⟩
  obtain ⟨rows, cols, b, hist, hr⟩ := (inv.each p.1 p.2 hp).run
  refine ⟨b, whole_of_quiescent hr ?_ ?_⟩
  · rw [threads, hu]
    rfl
  · rw [threads, hf]
    rfl

/-- All blocks of a variable, those that were read before and those that the destructor reads. -/
theorem Inv.blocks (inv : Inv tr s) (hu : s.user = .outside) (hf : s.flusher = .outside)
    {name : StdString} {vb : VariableBuffer α} (hm : (name, vb) ∈ s.logger.vars) :
    (∀ block ∈ readBlocks (eventsAt name tr) ++ vb.log.blocks, block ≠ []) ∧
      Lossy (discarded (eventsAt name tr)) (accepted (eventsAt name tr))
        (readBlocks (eventsAt name tr) ++ vb.log.blocks).flatten := by
  have htracked := inv.each name vb hm
  obtain ⟨b, -, w⟩ := (inv.tidy hu hf).whole _ hm
  have hcontent := htracked.content (by rw [threads, hu]; rfl) (by rw [threads, hf]; rfl)
  have hlog : (s.threads name vb).vb.log.content = vb.log.content := rfl
  refine ⟨List.forall_mem_append.mpr ⟨htracked.ne_nil, w.fits.ne_nil⟩, ?_⟩
  have hlossy := htracked.lossy
  rw [hcontent, hlog] at hlossy
  rwa [List.flatten_append, flatten_readBlocks, BlockLog.flatten_blocks]

/-- What the destructor leaves behind: the blocks that were read before are written before those
that are left. -/
theorem Inv.destroy (inv : Inv tr s) (hu : s.user = .outside) (hf : s.flusher = .outside) :
    ∃ s', (∀ fuel, s.logger.destroy (fuel + 2) = some (s', none)) ∧
      XBot.containers s'.backend = savedBefore tr ∧
      (∀ name, name ∉ s.logger.vars.map Prod.fst → callsFor name s'.backend = []) ∧
      ∀ name vb, (name, vb) ∈ s.logger.vars → List.Forall₂ (IsWrite vb)
        (readBlocks (eventsAt name tr) ++ vb.log.blocks) (callsFor name s'.backend) := by
  obtain ⟨s', calls, hd, hb, hc, -, -, -, hother, hw⟩ := destroy_spec (inv.tidy hu hf)
  refine ⟨s', hd, ?_, fun name hn => ?_, fun name vb hm => ?_⟩
  · rw [hb, containers_append, hc]
    exact inv.containers
  · rw [hb, callsFor_append, hother name hn, (inv.others name hn).2]
    rfl
  · rw [hb, callsFor_append]
    exact List.rel_append (inv.each name vb hm).written (hw name vb hm)

end Shared

/-- A scalar is read and written while the next one is being added. -/
def crossing : List (Shared.Act ℕ) :=
  [.create zeroed [120] 1 1 20, .save [121] (.number 9), .callAdd zeroed [120] (scalar 5), .user,
    .callAdd zeroed [120] (scalar 6)] ++ List.replicate 12 .user ++ .callFlushAvailableData ::
    (List.replicate 3 [Shared.Act.flusher [[120]], .user]).flatten ++
    List.replicate 16 (.flusher [[120]])

/-- Neither thread is in a call. -/
def Shared.outside (s : Shared α) : Bool :=
  match s.user, s.flusher with
  | .outside, .outside => true
  | _, _ => false

theorem Shared.outside_iff {s : Shared α} :
    s.outside = true ↔ s.user = .outside ∧ s.flusher = .outside := by
  obtain ⟨l, u, f⟩ := s
  cases u <;> cases f <;> simp [outside]

/-- The number that a value is, if it is one. -/
def MatData.number? : MatData α → Option α
  | .number x => some x
  | _ => none

theorem exec_crossing : ∃ hist tr s, (shared ℕ ⟨20, 20⟩).Run hist tr s ∧ s.user = .outside ∧
    s.flusher = .outside ∧ (∃ vb, s.logger.vars = [([120], vb)] ∧ vb.rows = 1 ∧ vb.cols = 1) ∧
    savedBefore tr = [([121], .number 9)] ∧ accepted (eventsAt [120] tr) = [[5], [6]] ∧
    discarded (eventsAt [120] tr) = [] := by
  have hex : ((exec Shared.step (Shared.start ⟨20, 20⟩ false) crossing).map fun p =>
      decide (p.1.outside = true ∧
        p.1.logger.vars.map (fun q => (q.1, q.2.rows, q.2.cols)) = [([120], 1, 1)] ∧
        (savedBefore p.2).map (fun q => (q.1, q.2.number?)) = [([121], some 9)] ∧
        accepted (eventsAt [120] p.2) = [[5], [6]] ∧ discarded (eventsAt [120] p.2) = [])) = some true := by
    decide +kernel
  obtain ⟨⟨s, tr⟩, h, hs⟩ := Option.map_eq_some_iff.mp hex
  obtain ⟨hout, hvars, hsaved, hevents⟩ := of_decide_eq_true hs
  obtain ⟨hu, hf⟩ := Shared.outside_iff.mp hout
  obtain ⟨⟨name, vb⟩, hl, he⟩ := List.map_eq_singleton_iff.mp hvars
  obtain ⟨⟨name', data⟩, hl', he'⟩ := List.map_eq_singleton_iff.mp hsaved
  simp only [Prod.mk.injEq] at he he'
  obtain ⟨rfl, hdims⟩ := he
  obtain ⟨rfl, hdata⟩ := he'
  have hnumber : data = .number 9 := by
    cases data with
    | number x => exact congrArg MatData.number (Option.some.inj hdata)
    | _ => cases hdata
  have hstep : ∀ s a s' es, Shared.step s a = some (s', es) →
      (shared ℕ ⟨20, 20⟩).step s es s' := fun _ a _ _ ha => ⟨a, ha⟩
  obtain ⟨hist, hr⟩ := System.Run.exec hstep (.start ⟨false, rfl⟩) h
  exact ⟨_, tr, s, hr, hu, hf, ⟨vb, hl, hdims⟩, hnumber ▸ hl', hevents⟩

section Results

variable {opt : Options} {hist : List (Shared α)} {tr : List (LoggerEvent α)} {s : Shared α}

/-- At any moment the backend has been called for a beginning of what has been saved, and for each
variable for a beginning of the accepted samples, but for some full blocks. -/
theorem written_in_order (h : (shared α opt).Run hist tr s) :
    containers s.logger.backend <+: savedBefore tr ∧
    (∀ name, name ∉ s.logger.vars.map Prod.fst → callsFor name s.logger.backend = []) ∧
    ∀ name vb, (name, vb) ∈ s.logger.vars → ∃ written pending payloads,
      (callsFor name s.logger.backend).mapM BackendCall.payload = some payloads ∧
      payloads.flatten = written.flatten ∧
      Lossy (discarded (eventsAt name tr)) (accepted (eventsAt name tr)) (written ++ pending) ∧
      ∀ run ∈ discarded (eventsAt name tr), run.length = vb.current.getSize := by
  have inv := Shared.Inv.run h
  refine ⟨⟨_, inv.containers⟩, fun name hn => (inv.others name hn).2, fun name vb hm => ?_⟩
  have htracked := inv.each name vb hm
  refine ⟨_, _, _, payloads_isWrite htracked.written, ?_, htracked.lossy, htracked.lengths⟩
  rw [← List.flatten_flatten, flatten_readBlocks]

theorem written_in_order_crossing : ∃ hist tr s, (shared ℕ ⟨20, 20⟩).Run hist tr s ∧
    (savedBefore tr).map Prod.fst = [[121]] ∧ containers s.logger.backend <+: savedBefore tr := by
  obtain ⟨hist, tr, s, hr, -, -, -, hsaved, -⟩ := exec_crossing
  exact ⟨hist, tr, s, hr, by rw [hsaved]; rfl, (written_in_order hr).1⟩

/-- When neither thread is in a call, the destructor ends and hands over all that is left. -/
theorem shared_saved (h : (shared α opt).Run hist tr s) (hu : s.user = .outside)
    (hf : s.flusher = .outside) : ∃ s', (∀ fuel, s.logger.destroy (fuel + 2) = some (s', none)) ∧
      containers s'.backend = savedBefore tr ∧
      (∀ name, name ∉ s.logger.vars.map Prod.fst → callsFor name s'.backend = []) ∧
      ∀ name vb, (name, vb) ∈ s.logger.vars → ∃ kept payloads,
        (callsFor name s'.backend).mapM BackendCall.payload = some payloads ∧
        payloads.flatten = kept.flatten ∧
        Lossy (discarded (eventsAt name tr)) (accepted (eventsAt name tr)) kept ∧
        ∀ run ∈ discarded (eventsAt name tr), run.length = vb.current.getSize := by
  have inv := Shared.Inv.run h
  obtain ⟨s', hd, hcont, hother, hall⟩ := inv.destroy hu hf
  refine ⟨s', hd, hcont, hother, fun name vb hm => ?_⟩
  refine ⟨_, _, payloads_isWrite (hall name vb hm), ?_, (inv.blocks hu hf hm).2,
    (inv.each name vb hm).lengths⟩
  rw [← List.flatten_flatten]

theorem shared_saved_crossing : ∃ hist tr s s', (shared ℕ ⟨20, 20⟩).Run hist tr s ∧
    s.logger.destroy 2 = some (s', none) ∧ (containers s'.backend).map Prod.fst = [[121]] ∧
    ∃ payloads, (callsFor [120] s'.backend).mapM BackendCall.payload = some payloads ∧
      payloads.flatten = [5, 6] := by
  obtain ⟨hist, tr, s, hr, hu, hf, ⟨vb, hvars, -⟩, hsaved, hacc, hdis⟩ := exec_crossing
  obtain ⟨s', hd, hcont, -, hall⟩ := shared_saved hr hu hf
  have hm : ([120], vb) ∈ s.logger.vars := by simp [hvars]
  obtain ⟨kept, payloads, hpay, hflat, hlossy, -⟩ := hall [120] vb hm
  rw [hdis, hacc] at hlossy
  rw [hlossy.eq_of_nil] at hflat
  exact ⟨hist, tr, s, s', hr, hd 0, by rw [hcont, hsaved]; rfl, payloads, hpay, hflat⟩

end Results

end XBot
