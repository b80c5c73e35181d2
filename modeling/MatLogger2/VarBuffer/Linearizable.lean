import MatLogger2.VarBuffer.ProducerEffects

/-! The variable shared by two threads is linearizable: every history of its calls and
returns is one of the same code, each call run without interruption. -/

namespace XBot

open Spsc Transition

variable {α : Type}

namespace Matches

variable {b dim : ℕ} {tr : List (Event α)} {s s' : Threads α} {a : AtomicLog α}
variable {vb : VariableBuffer α} {p : Producer α}

section Consumer

variable {c c' : Consumer α}

/-- A step of the consumer leaves alone what the producer has seen. -/
theorem consumerStep {a' : AtomicLog α} (h : Matches b dim s a) (own : Owned s)
    (hf : ConsumerFrame s s') (hrows : s'.vb.rows = s.vb.rows) (hcols : s'.vb.cols = s.vb.cols)
    (hfits : a'.state.Fits NUM_BLOCKS b) (hq : a'.state.queue = s'.blocks)
    (hcur : a'.state.current = a.state.current)
    (hp : a'.status .producer = a.status .producer)
    (hc : a'.status .consumer = s'.consumer.status s'.vb.queue.readQueue.read)
    (hcounted : s'.consumer.Counted) : Matches b dim s' a' := by
  refine ⟨?_, hfits, hq, ?_, hc, hcounted⟩
  · rw [hrows, hcols]
    exact h.dims
  rw [hcur, hp, hf.producer, hf.pool, hf.writeQueue]
  by_cases hpub : s.producer.published = true
  · -- the published block may have been read already; the log does not look at it
    have hstage := h.producer
    obtain ⟨vb, p, c⟩ := s
    cases p with
    | flushing caller pc =>
      obtain ⟨hs, hstage⟩ := hstage
      cases pc with
      | setCurrent info i =>
        cases hstage with
        | undecided hund => exact hund.elim
        | refusing href => exact href.elim
        | published hpub hlog hst => exact ⟨hs, .published hpub hlog hst⟩
      | _ => exact absurd hpub (by simp [Producer.published])
    | _ => exact absurd hpub (by simp [Producer.published])
  · have hmem : some s.vb.currentBlock ∈ s.owns .producer :=
      Producer.current_mem_holds (by simpa using hpub) _
    have hhold := own.apart .consumer (by decide) hmem
    have hvalid : s'.vb.current.valid = s.vb.current.valid := by
      rw [VariableBuffer.current, hf.currentBlock, hf.block _ hhold]
      rfl
    rw [hvalid]
    exact h.producer

/-- One that does not take effect. -/
theorem consumerQuiet (h : Matches b dim ⟨vb, p, c⟩ a) (own : Owned ⟨vb, p, c⟩)
    {vb' : VariableBuffer α} (hf : ConsumerFrame ⟨vb, p, c⟩ ⟨vb', p, c'⟩)
    (hrows : vb'.rows = vb.rows) (hcols : vb'.cols = vb.cols)
    (hq : Threads.blocks ⟨vb', p, c'⟩ = Threads.blocks ⟨vb, p, c⟩)
    (hst : c'.status vb'.queue.readQueue.read = c.status vb.queue.readQueue.read)
    (hcounted : c'.Counted) : Matches b dim ⟨vb', p, c'⟩ a :=
  h.consumerStep own hf hrows hcols h.fits (h.queue.trans hq.symm) rfl rfl
    (h.consumer.trans hst.symm) hcounted

/-- The index loaded decides the call if the read queue is empty. -/
theorem readWrite (h : Matches b dim ⟨vb, p, .popWrite⟩ a) (own : Owned ⟨vb, p, .popWrite⟩)
    (hm : vb.bufferMode = .producerConsumer) :
    Follows b dim a [] ⟨vb, p, .popRead vb.queue.readQueue.write⟩ := by
  have hf : ConsumerFrame ⟨vb, p, .popWrite⟩ ⟨vb, p, .popRead vb.queue.readQueue.write⟩ :=
    consumerStep_frame rfl
  have hq : Threads.blocks ⟨vb, p, .popRead vb.queue.readQueue.write⟩ =
      Threads.blocks ⟨vb, p, .popWrite⟩ := by
    rw [Threads.blocks_eq hm, Threads.blocks_eq hm]
    rfl
  by_cases he : vb.queue.readQueue.write = vb.queue.readQueue.read
  · have hnil : a.state.queue = [] := by
      have hcontent : vb.queue.readQueue.content = [] := (Ring.content_eq_nil _).mpr he
      have hidle : (Consumer.popWrite : Consumer α).rqPop = .idle := rfl
      rw [h.queue, Threads.blocks_eq hm, hidle, PopView.live_idle, hcontent]
      rfl
    have hop : logOp b dim a.state .readBlock = (a.state, .block [] 0) := by
      simp only [logOp, BlockLog.read_nil hnil, List.length_nil]
    refine .commit h.consumer hop fun a' hs hi hj => ?_
    refine h.consumerStep own hf rfl rfl (hs ▸ h.fits) (by rw [hs, hq]; exact h.queue) (by rw [hs])
      (hj _ (by decide)) ?_ trivial
    rw [hi]
    simp only [Consumer.status, he, if_true]
  · refine .quiet (h.consumerQuiet own hf rfl rfl hq ?_ trivial)
    simp only [Consumer.status, he, if_false]

/-- Giving the block back decides a call that has found one. -/
theorem readPushStore {i : BlockId} {data : List (List α)} {valid : ℕ} {w : Index}
    (h : Matches b dim ⟨vb, p, .pushStore i data valid w⟩ a)
    (own : Owned ⟨vb, p, .pushStore i data valid w⟩) (hb : 0 < b)
    (hm : vb.bufferMode = .producerConsumer) :
    Follows b dim a [.ret .consumer (.block (data.take valid) valid)]
      ⟨{ vb with queue := { vb.queue with
        writeQueue := { vb.queue.writeQueue with write := Boost.nextIndex w } } }, p, .idle⟩ := by
  have hq : a.state.queue = data.take valid ::
      (PopView.live vb.queue.readQueue .idle).map (validOf vb.block) := by
    rw [h.queue, Threads.blocks_eq hm]
    rfl
  have hlen : (data.take valid).length = valid := List.length_take_of_le h.counted
  have hop : logOp b dim a.state .readBlock =
      (⟨(PopView.live vb.queue.readQueue .idle).map (validOf vb.block), a.state.current,
        a.state.free + 1⟩, .block (data.take valid) valid) := by
    simp only [logOp, BlockLog.read_cons hq, hlen]
  have hfits := fits_logOp dim h.fits hb .readBlock
  rw [hop] at hfits
  refine .commitRet h.consumer hop fun a' hs hi hj => ?_
  refine h.consumerStep own (consumerStep_frame rfl) rfl rfl (hs ▸ hfits) ?_ (by rw [hs])
    (hj _ (by decide)) hi trivial
  rw [hs]
  refine (Eq.trans (Threads.blocks_eq ?_) ?_).symm
  · exact hm
  · rfl

theorem followConsumer (h : Matches b dim s a) (own : Owned s) (ord : Ordered b tr s) (hb : 0 < b)
    {es : List (Event α)} (hstep : s.consumerStep = some (s', es)) :
    Follows b dim a (es.filterMap Event.returns) s' := by
  have hf := consumerStep_frame hstep
  obtain ⟨vb, p, c⟩ := s
  have hmode : c ≠ .idle → vb.bufferMode = .producerConsumer := own.consumer_mode
  cases c with
  | idle => cases hstep
  | crashed => cases hstep
  | popWrite =>
    cases hstep
    exact h.readWrite own (hmode (by simp))
  | popRead w =>
    have hm := hmode (by simp)
    simp only [Threads.consumerStep] at hstep
    split_ifs at hstep with he
    · cases hstep
      have hst : a.status .consumer = .done (.block [] 0) := by
        rw [h.consumer, he]
        simp only [Consumer.status, if_true]
      refine .ret hst fun a' hs hi hj => ?_
      refine h.consumerStep own hf rfl rfl (hs ▸ h.fits) ?_ (by rw [hs]) (hj _ (by decide)) hi trivial
      rw [hs, h.queue, Threads.blocks_eq hm, Threads.blocks_eq hm]
      rfl
    · cases hstep
      refine .quiet (h.consumerQuiet own hf rfl rfl ?_ ?_ trivial)
      · rw [Threads.blocks_eq hm, Threads.blocks_eq hm]
        rfl
      · simp only [Consumer.status, he, if_false]
  | popCopy r =>
    have hm := hmode (by simp)
    have hok : (PopView.ready r : PopView Ptr _).Ok vb.queue.readQueue := by
      have := own.rqPop
      rwa [Owned.rqPop_consumer hm] at this
    have hready := PopView.live_ready hok
    simp only [Threads.consumerStep] at hstep
    cases hi : vb.queue.readQueue.cell r with
    | none => exact absurd hi (own.not_null_ready (Owned.rqPop_consumer hm))
    | some i =>
      rw [hi] at hstep hready
      cases hstep
      refine .quiet (h.consumerQuiet own hf rfl rfl ?_ rfl trivial)
      rw [Threads.blocks_eq hm, Threads.blocks_eq hm, Consumer.rqPop, Consumer.rqPop, hready]
      rfl
  | popStore r i =>
    have hm := hmode (by simp)
    have hcopied : (PopView.copied r (some i) : PopView Ptr _).Ok vb.queue.readQueue := by
      have := own.rqPop
      rwa [Owned.rqPop_consumer hm] at this
    have hadv := PopView.live_advance_one hcopied
    obtain ⟨rfl, -⟩ := hcopied
    cases hstep
    refine .quiet (h.consumerQuiet own hf rfl rfl ?_ rfl trivial)
    rw [Threads.blocks_eq hm, Consumer.rqPop, ← hadv]
    exact Threads.blocks_eq hm
  | copyData i =>
    cases hstep
    have hm := hmode (by simp)
    refine .quiet (h.consumerQuiet own hf rfl rfl ?_ rfl trivial)
    rw [Threads.blocks_eq hm, Threads.blocks_eq hm]
    rfl
  | copyValid i data =>
    cases hstep
    have hm := hmode (by simp)
    refine .quiet (h.consumerQuiet own hf rfl rfl ?_ rfl trivial)
    rw [Threads.blocks_eq hm, Threads.blocks_eq hm]
    rfl
  | reset i data valid =>
    have hm := hmode (by simp)
    obtain ⟨hdata, hvalid⟩ : data = (vb.block i).buf ∧ valid = (vb.block i).writeIdx := ord.copied
    have hmem : some i ∈ Threads.owns ⟨vb, p, .reset i data valid⟩ .consumer :=
      List.mem_singleton.mpr rfl
    have hrq := own.apart .readQueue (by decide) hmem
    cases hstep
    refine .quiet (h.consumerQuiet own hf rfl rfl ?_ rfl ?_)
    · have hmap := map_validOf_update vb.block (vb.block i).reset hrq
      simp only [Threads.owns, Threads.rqLive_eq hm] at hmap
      have hvb : Threads.blocks ⟨vb.setBlock i (vb.block i).reset, p, .pushWrite i data valid⟩ = _ :=
        Threads.blocks_eq hm
      rw [Threads.blocks_eq hm]
      refine hvb.trans (congrArg₂ _ ?_ hmap)
      simp only [Consumer.taken, Consumer.holds, Consumer.samples, hdata, hvalid]
      rfl
    · rw [Consumer.Counted, hdata, hvalid]
      exact (vb.block i).writeIdx_le
  | pushWrite i data valid =>
    cases hstep
    have hm := hmode (by simp)
    refine .quiet (h.consumerQuiet own hf rfl rfl ?_ rfl h.counted)
    rw [Threads.blocks_eq hm, Threads.blocks_eq hm]
    rfl
  | pushRead i data valid w =>
    have hm := hmode (by simp)
    simp only [Threads.consumerStep, if_neg own.readPushRead_ne] at hstep
    cases hstep
    refine .quiet (h.consumerQuiet own hf rfl rfl ?_ rfl h.counted)
    rw [Threads.blocks_eq hm, Threads.blocks_eq hm]
    rfl
  | pushCopy i data valid w =>
    cases hstep
    have hm := hmode (by simp)
    refine .quiet (h.consumerQuiet own hf rfl rfl ?_ rfl h.counted)
    rw [Threads.blocks_eq hm]
    exact Threads.blocks_eq hm
  | pushStore i data valid w =>
    cases hstep
    exact h.readPushStore own hb (hmode (by simp))

end Consumer

theorem follow {act : Act α} {es : List (Event α)} (h : Matches b dim s a) (own : Owned s)
    (ord : Ordered b tr s) (hb : 0 < b) (hm : s.vb.bufferMode = .producerConsumer)
    (hstep : s.step act = some (s', es)) :
    Follows b dim a (act.calls ++ es.filterMap Event.returns) s' := by
  cases act with
  | producer => exact h.followProducer own ord hb hm hstep
  | consumer => exact h.followConsumer own ord hb hstep
  | callAddElem data =>
    obtain ⟨vb, p, c⟩ := s
    cases p <;> cases hstep
    obtain ⟨hcur, hst⟩ := h.producer
    refine .call hst fun a' hs hi hj => ?_
    exact h.producerStep rfl rfl rfl (hs ▸ h.fits) (by rw [hs]; exact h.queue)
      (.inl ⟨by rw [hs, hcur], hi⟩) (hj _ (by decide))
  | callFlushToQueue =>
    obtain ⟨vb, p, c⟩ := s
    cases p <;> cases hstep
    obtain ⟨hcur, hst⟩ := h.producer
    refine .call hst fun a' hs hi hj => ?_
    exact h.producerStep rfl rfl rfl (hs ▸ h.fits) (by rw [hs]; exact h.queue)
      ⟨nofun, .undecided trivial (fun hne => absurd rfl hne) (by rw [hs, hcur]) hi⟩ (hj _ (by decide))
  | callReadBlock =>
    obtain ⟨vb, p, c⟩ := s
    cases c with
    | idle =>
      have hm : vb.bufferMode = .producerConsumer := hm
      have hf : ConsumerFrame ⟨vb, p, .idle⟩ ⟨vb, p, .popWrite⟩ :=
        ⟨rfl, rfl, rfl, ⟨rfl, rfl⟩, rfl, rfl, fun _ _ => rfl⟩
      simp only [Threads.step, hm] at hstep
      cases hstep
      refine .call h.consumer fun a' hs hi hj => ?_
      refine h.consumerStep own hf rfl rfl (hs ▸ h.fits) ?_ (by rw [hs]) (hj _ (by decide)) hi trivial
      rw [hs, h.queue, Threads.blocks_eq hm, Threads.blocks_eq hm]
      rfl
    | _ => cases hstep

/-- Outside all calls the log is that of the variable. -/
theorem quiescent (h : Matches b dim s a) (own : Owned s) (hm : s.vb.bufferMode = .producerConsumer)
    (hp : s.producer = .idle) (hc : s.consumer = .idle) :
    a.state = s.vb.log ∧ ∀ i, a.status i = .idle := by
  have hfree := h.free own
  obtain ⟨vb, p, c⟩ := s
  simp only at hp hc hm
  subst hp hc
  obtain ⟨hcur, hst⟩ := h.producer
  have hq := h.queue
  rw [Threads.blocks_eq hm] at hq
  refine ⟨?_, fun i => ?_⟩
  · have hfree : a.state.free = vb.log.free := by
      simp only [Threads.producerHolds, Producer.holds, Threads.wqLive, Producer.wqPop,
        PopView.live_idle, List.length_nil, List.length_cons] at hfree
      simp only [VariableBuffer.log]
      omega
    obtain ⟨⟨queue, current, free⟩, status⟩ := a
    simp only at hfree hq hcur
    rw [hfree, hq, hcur]
    rfl
  · cases i with
    | producer => exact hst
    | consumer => exact h.consumer

theorem init {rows cols : ℕ} (hs : (threads α rows cols b .producerConsumer).init s) :
    Matches b (rows * cols) s ⟨.empty (NUM_BLOCKS - 1), fun _ => .idle⟩ := by
  obtain ⟨name, hb, storage, callback, rfl⟩ := hs
  obtain ⟨w, hlog⟩ := VariableBuffer.whole_make name rows cols b hb storage
  obtain ⟨-, hrows, hcols⟩ := VariableBuffer.make_dims name rows cols b hb storage
  unfold Threads.start
  generalize VariableBuffer.make name rows cols b hb storage = vb at *
  refine ⟨by rw [← hrows, ← hcols]; rfl, hlog ▸ w.fits, ?_, ⟨?_, rfl⟩, rfl, trivial⟩
  · rw [Threads.blocks_eq rfl]
    exact (congrArg BlockLog.queue hlog).symm
  · exact (congrArg BlockLog.current hlog).symm

end Matches

section Run

variable {rows cols b : ℕ} {hist : List (Threads α)} {tr : List (CallEvent α)} {s : Threads α}

theorem histories_inv (h : (histories α rows cols b).Reachable s) :
    0 < b ∧ s.vb.bufferMode = .producerConsumer ∧ Owned s ∧ ∃ tr, Ordered b tr s := by
  obtain ⟨hist, tr, hr⟩ := histories_reachable h
  have k := Kept.run hr
  refine ⟨?_, k.mode, k.owned, tr, k.ordered⟩
  rw [← k.ordered.size 0]
  exact (s.vb.block 0).getSize_pos

/-- Every history of the two threads is one of the atomic log. -/
theorem Matches.run (h : (histories α rows cols b).Run hist tr s) :
    ∃ hist' a, ((logObject α b (rows * cols)).atomic Thread).Run hist' tr a ∧
      Matches b (rows * cols) s a := by
  refine h.simulate (fun s hs => ?_) ?_
  · exact ⟨⟨.empty (NUM_BLOCKS - 1), fun _ => .idle⟩, ⟨rfl, fun _ => rfl⟩, Matches.init hs⟩
  · rintro s es s' a hs hM ⟨act, evs, hstep, rfl⟩
    obtain ⟨hb, hm, own, tr, ord⟩ := histories_inv hs
    exact hM.follow own ord hb hm hstep

/-- Each history of the two threads is one in which the code of every call is run at one
moment between the call and its return, and after which the same samples are buffered. -/
theorem linearizable (h : (histories α rows cols b).Run hist tr s) :
    ∃ hist' a, ((VariableBuffer.object α rows cols b).atomic Thread).Run hist' tr a ∧
      (s.producer = .idle → s.consumer = .idle →
        a.state.log = s.vb.log ∧ ∀ i, a.status i = .idle) := by
  obtain ⟨hb, hm, own, -⟩ := histories_inv ⟨hist, tr, h⟩
  obtain ⟨storage⟩ : Nonempty (BlockId → Memory α (rows * cols) b) := by
    refine h.inv (I := fun _ _ => Nonempty (BlockId → Memory α (rows * cols) b)) ?_ ?_
    · rintro s ⟨name, hb, storage, callback, rfl⟩
      exact ⟨storage⟩
    · intro _ _ _ _ hi _
      exact hi
  obtain ⟨hist', a, hr, hM⟩ := Matches.run h
  obtain ⟨hist'', a', hr', hsame, hstatus⟩ := (object_sim hb storage).run hr
  refine ⟨hist'', a', hr', fun hp hc => ?_⟩
  obtain ⟨hlog, hidle⟩ := hM.quiescent own hm hp hc
  exact ⟨hsame.log.trans hlog, fun i => by rw [hstatus]; exact hidle i⟩

end Run

/-- A flush is on its way when `read_block` is entered, and `read_block` when the flush
publishes its block. -/
def overlap : List (Act ℕ) :=
  .callAddElem (scalar 0) :: .producer :: .callAddElem (scalar 1) ::
    List.replicate 7 .producer ++ .callReadBlock :: List.replicate 8 .producer ++
    List.replicate 11 .consumer

/-- One step, with what the callers see. -/
def Threads.callStep (s : Threads α) (act : Act α) : Option (Threads α × List (CallEvent α)) :=
  (s.step act).map fun r => (r.1, act.calls ++ r.2.filterMap Event.returns)

/-- What a call of `read_block` has returned. -/
def blockRead : CallEvent α → Option (List (List α) × ℕ)
  | .ret _ (.block samples valid) => some (samples, valid)
  | _ => none

theorem exec_overlap : ∃ s es, exec Threads.callStep scalarThreads overlap = some (s, es) ∧
    es.filterMap blockRead = [([[0]], 1)] ∧ s.producer = .idle ∧ s.consumer = .idle := by
  have hex : ((exec Threads.callStep scalarThreads overlap).map fun p =>
      (p.2.filterMap blockRead, p.1.outside)) = some ([([[0]], 1)], true) := by
    decide +kernel
  obtain ⟨⟨s, es⟩, h, hs⟩ := Option.map_eq_some_iff.mp hex
  simp only [Prod.mk.injEq] at hs
  obtain ⟨hread, hidle⟩ := hs
  obtain ⟨hp, hc⟩ := Threads.outside_iff.mp hidle
  exact ⟨s, es, h, hread, hp, hc⟩

theorem linearizable_overlap : ∃ hist tr s hist' a, (histories ℕ 1 1 1).Run hist tr s ∧
    tr.filterMap blockRead = [([[0]], 1)] ∧
    ((VariableBuffer.object ℕ 1 1 1).atomic Thread).Run hist' tr a ∧ a.state.log = s.vb.log := by
  obtain ⟨s, es, h, hread, hp, hc⟩ := exec_overlap
  have hstep : ∀ s act s' es, Threads.callStep s act = some (s', es) →
      (histories ℕ 1 1 1).step s es s' := by
    intro s act s' es ha
    obtain ⟨⟨t, evs⟩, ht, he⟩ := Option.map_eq_some_iff.mp ha
    cases he
    exact ⟨act, evs, ht, rfl⟩
  obtain ⟨hist, hr⟩ := System.Run.exec hstep (.start scalarThreads_init) h
  obtain ⟨hist', a, ha, hend⟩ := linearizable hr
  exact ⟨_, _, s, hist', a, hr, hread, ha, (hend hp hc).1⟩

end XBot
