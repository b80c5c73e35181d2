import MatLogger2.VarBuffer.Samples

/-! Samples keep their order in `producer_consumer` mode. What has been accepted
is what has been delivered, then what is queued, then what is in the current
block, less the full blocks that `add_elem` has dropped. -/

namespace XBot

open Spsc Transition Ledger

variable {α : Type}

structure Ordered (b : ℕ) (tr : List (Event α)) (s : Threads α) : Prop where
  size : ∀ i, (s.vb.block i).getSize = b
  ledger : Open (discarded tr) (accepted tr) (delivered tr ++ s.queued) s.filling
  fills : s.producer.Fills b s.vb.currentBlock s.vb.block
  copied : s.consumer.Copied s.vb.block

namespace Ordered

variable {b : ℕ} {tr es : List (Event α)} {s s' : Threads α}

/-- A step that shows nothing and leaves every sample where it is. -/
theorem quiet (inv : Ordered b tr s) (hes : Silent es) (hsize : ∀ i, (s'.vb.block i).getSize = b)
    (hq : s'.queued = s.queued) (hf : s'.filling = s.filling)
    (hp : s'.producer.Fills b s'.vb.currentBlock s'.vb.block)
    (hc : s'.consumer.Copied s'.vb.block) : Ordered b (tr ++ es) s' := by
  obtain ⟨h₁, h₂, h₃⟩ := hes
  refine ⟨hsize, ?_, hp, hc⟩
  simpa [h₁, h₂, h₃, hq, hf] using inv.ledger

/-- The same, for a step of the producer that touches no block. -/
theorem producerQuiet {vb vb' : VariableBuffer α} {p p' : Producer α} {c : Consumer α}
    (inv : Ordered b tr ⟨vb, p, c⟩) (hes : Silent es) (hb : vb'.block = vb.block)
    (hcur : vb'.currentBlock = vb.currentBlock)
    (hrq : Threads.rqLive ⟨vb', p', c⟩ = Threads.rqLive ⟨vb, p, c⟩)
    (hpub : p'.published = p.published) (hp : p'.Fills b vb.currentBlock vb.block) :
    Ordered b (tr ++ es) ⟨vb', p', c⟩ := by
  refine inv.quiet hes (fun i => ?_) ?_ ?_ ?_ ?_
  · simp only [hb]
    exact inv.size i
  · simp only [Threads.queued, hb, hrq]
  · simp only [Threads.filling, hpub, VariableBuffer.current, hb, hcur]
  · simp only [hb, hcur]
    exact hp
  · simp only [hb]
    exact inv.copied

theorem owned_current {s : Threads α} (hp : s.producer.holds s.vb.currentBlock =
    [some s.vb.currentBlock]) : some s.vb.currentBlock ∈ s.owns .producer := by
  simp [Threads.owns, Threads.producerHolds, hp]

section Flush

variable {vb : VariableBuffer α} {c : Consumer α} {caller : Option (Eigen.MatrixXd α)}

/-- A flush that returns without having looked for a block, or without having
found one, or after the callback. -/
theorem flushReturn {pc : FlushPc} {ok : Bool} (inv : Ordered b tr ⟨vb, .flushing caller pc, c⟩)
    (hrq : ∀ p : Producer α, p.rqPop = .idle →
      Threads.rqLive ⟨vb, p, c⟩ = Threads.rqLive ⟨vb, .flushing caller pc, c⟩)
    (hpub : (Producer.flushing caller pc : Producer α).published = false)
    (hok : ∀ data, caller = some data →
      (Producer.resetting data ok : Producer α).Fills b vb.currentBlock vb.block)
    (hes : Silent es) :
    Ordered b (tr ++ (es ++ (Threads.afterFlush caller (.ret ok)).2))
      ⟨vb, (Threads.afterFlush caller (.ret ok)).1, c⟩ := by
  cases caller with
  | none =>
    exact inv.producerQuiet (hes.append ⟨rfl, rfl, rfl⟩) rfl rfl (hrq _ rfl) hpub.symm trivial
  | some data =>
    exact inv.producerQuiet (hes.append silent_nil) rfl rfl (hrq _ rfl) hpub.symm (hok data rfl)

theorem takeBlock {info : BufferInfo} {i : BlockId}
    (inv : Ordered b tr ⟨vb, .flushing caller (.takeBlock info), c⟩)
    (own : Owned ⟨vb, .flushing caller (.takeBlock info), c⟩) (pool : List Ptr)
    (hi : vb.queue.blockPool.getLast? = some (some i)) (hes : Silent es) :
    Ordered b (tr ++ es) ⟨{ vb.setBlock i (vb.block i).reset with
      queue := { vb.queue with blockPool := pool } }, .flushing caller (.pushWrite info i), c⟩ := by
  have hmem : some i ∈ Threads.owns ⟨vb, .flushing caller (.takeBlock info), c⟩ .pool :=
    List.mem_of_getLast? hi
  have hrq := own.apart .readQueue (by decide) hmem
  have hc := own.apart .consumer (by decide) hmem
  have hcur : vb.currentBlock ≠ i := by
    rintro rfl
    exact own.apart .producer (by decide) hmem (owned_current rfl)
  have hsize := VariableBuffer.forall_setBlock (P := fun x => x.getSize = b) inv.size i
    (vb.block i).reset (inv.size i)
  have hvalid : (Function.update vb.block i (vb.block i).reset) vb.currentBlock =
      vb.block vb.currentBlock := Function.update_of_ne hcur _ _
  have hcopied := inv.copied.update (vb.block i).reset hc
  refine inv.quiet hes hsize ?_ ?_ ?_ hcopied
  · simp only [Threads.queued, VariableBuffer.setBlock, Consumer.samples_update _ _ hc]
    congr 1
    exact samplesOf_update _ _ hrq
  · simp only [Threads.filling, Producer.published, VariableBuffer.current,
      VariableBuffer.setBlock, hvalid, Bool.false_eq_true, ↓reduceIte]
  · refine ⟨fun h => ?_, by simp [VariableBuffer.setBlock]⟩
    simp only [VariableBuffer.setBlock, hvalid]
    exact inv.fills h

/-- Publishing the current block settles its samples. -/
theorem pushStore {info : BufferInfo} {i : BlockId} {w : Index}
    (inv : Ordered b tr ⟨vb, .flushing caller (.pushStore info i w), c⟩)
    (own : Owned ⟨vb, .flushing caller (.pushStore info i w), c⟩) (hes : Silent es) :
    Ordered b (tr ++ es) ⟨{ vb with queue := { vb.queue with
        readQueue := { vb.queue.readQueue with write := Boost.nextIndex w } } },
      .flushing caller (.setCurrent info i), c⟩ := by
  obtain ⟨hw, hcell⟩ : w = vb.queue.readQueue.write ∧
      vb.queue.readQueue.cell vb.queue.readQueue.write = some vb.currentBlock := own.rqPush
  subst hw
  have hlive := PopView.live_publish own.rqPop (own.rq_room rfl rfl)
  have hq : Threads.queued ⟨{ vb with queue := { vb.queue with
      readQueue := { vb.queue.readQueue with write := Boost.nextIndex vb.queue.readQueue.write } } },
      .flushing caller (.setCurrent info i), c⟩ =
      Threads.queued ⟨vb, .flushing caller (.pushStore info i vb.queue.readQueue.write), c⟩ ++
        vb.current.valid := by
    have hsamples := congrArg (samplesOf vb.block) hlive
    rw [samplesOf_append, hcell, samplesOf_cons, samplesOf_nil, List.append_nil] at hsamples
    simp only [Threads.queued, List.append_assoc]
    congr 1
  refine ⟨inv.size, ?_, inv.fills.2, inv.copied⟩
  obtain ⟨h₁, h₂, h₃⟩ := hes
  have := inv.ledger.keep
  simp only [accepted_append, delivered_append, discarded_append, h₁, h₂, h₃, List.append_nil, hq,
    ← List.append_assoc]
  exact this

theorem setCurrent {info : BufferInfo} {i : BlockId}
    (inv : Ordered b tr ⟨vb, .flushing caller (.setCurrent info i), c⟩) (hes : Silent es) :
    Ordered b (tr ++ es) ⟨{ vb with currentBlock := i }, .flushing caller (.callback info), c⟩ := by
  have hi : (vb.block i).valid = [] := inv.fills
  refine inv.quiet hes inv.size rfl ?_ hi inv.copied
  simp [Threads.filling, Producer.published, VariableBuffer.current, hi]

theorem flushStep {pc : FlushPc} (inv : Ordered b tr ⟨vb, .flushing caller pc, c⟩)
    (own : Owned ⟨vb, .flushing caller pc, c⟩) (hm : vb.bufferMode = .producerConsumer) :
    Ordered b (tr ++ ((vb.flushStep pc).2.2 ++ (Threads.afterFlush caller (vb.flushStep pc : _ × _ ×
        List (Event α)).2.1).2))
      ⟨(vb.flushStep pc : _ × _ × List (Event α)).1,
        (Threads.afterFlush caller (vb.flushStep pc : _ × _ × List (Event α)).2.1).1, c⟩ := by
  have hnp := own.not_popping hm
  cases pc with
  | check =>
    simp only [VariableBuffer.flushStep]
    split_ifs with h
    · refine inv.flushReturn (fun _ _ => ?_) rfl (fun data _ => ?_) silent_nil
      · simp only [Threads.rqLive, Threads.rqPop, hm]
      · exact (BufferBlock.valid_eq_nil _).mpr h
    · exact inv.producerQuiet silent_nil rfl rfl rfl rfl inv.fills
  | infoWrite => exact inv.producerQuiet silent_nil rfl rfl rfl rfl inv.fills
  | infoRead w => exact inv.producerQuiet silent_nil rfl rfl rfl rfl inv.fills
  | allWrite info => exact inv.producerQuiet silent_nil rfl rfl rfl rfl inv.fills
  | allRead info w =>
    simp only [VariableBuffer.flushStep]
    split_ifs with h
    · exact inv.producerQuiet silent_nil rfl rfl rfl rfl inv.fills
    · exact inv.producerQuiet silent_nil rfl rfl rfl rfl inv.fills
  | allCopy info r count todo =>
    cases todo with
    | nil => exact inv.producerQuiet silent_nil rfl rfl rfl rfl inv.fills
    | cons i todo => exact inv.producerQuiet silent_nil rfl rfl rfl rfl inv.fills
  | takeBlock info =>
    simp only [VariableBuffer.flushStep]
    cases hp : vb.queue.blockPool.getLast? with
    | none =>
      simp only [hm]
      refine inv.flushReturn (fun _ _ => ?_) rfl (fun data hd => ?_) silent_nil
      · simp only [Threads.rqLive, Threads.rqPop, hm]
      · exact inv.fills (by simp [hd])
    | some h =>
      cases h with
      | none => exact absurd hp own.not_null_pool
      | some i => exact inv.takeBlock own vb.queue.blockPool.dropLast hp silent_nil
  | popWrite info => exact absurd hnp (by simp [Producer.popping])
  | popRead info w => exact absurd hnp (by simp [Producer.popping])
  | popCopy info r => exact absurd hnp (by simp [Producer.popping])
  | popStore info r i => exact absurd hnp (by simp [Producer.popping])
  | pushWrite info i => exact inv.producerQuiet silent_nil rfl rfl rfl rfl inv.fills
  | pushRead info i w =>
    simp only [VariableBuffer.flushStep, if_neg own.pushRead_ne]
    exact inv.producerQuiet silent_nil rfl rfl rfl rfl inv.fills
  | pushCopy info i w =>
    have hw : w = vb.queue.readQueue.write := own.rqPush
    subst hw
    refine inv.producerQuiet silent_nil rfl rfl ?_ rfl inv.fills
    exact PopView.live_setCell vb.queue.readQueue _ _
  | pushStore info i w => exact inv.pushStore own ⟨rfl, rfl, rfl⟩
  | setCurrent info i => exact inv.setCurrent silent_nil
  | callback info =>
    refine inv.flushReturn (fun _ _ => ?_) rfl (fun data _ => inv.fills) ?_
    · simp only [Threads.rqLive, Threads.rqPop, hm]
    · simp only [VariableBuffer.flushStep]
      split_ifs <;> exact ⟨rfl, rfl, rfl⟩

end Flush

/-- Changing the samples of the current block disturbs nobody else. -/
theorem current_apart {vb : VariableBuffer α} {p : Producer α} {c : Consumer α}
    (own : Owned ⟨vb, p, c⟩) (hp : p.holds vb.currentBlock = [some vb.currentBlock])
    (x : BufferBlock α) :
    c.samples (vb.setCurrent x).block ++ samplesOf (vb.setCurrent x).block (Threads.rqLive ⟨vb, p, c⟩)
      = Threads.queued ⟨vb, p, c⟩ ∧
    (c.Copied vb.block → c.Copied (vb.setCurrent x).block) := by
  have hmem := owned_current (s := ⟨vb, p, c⟩) hp
  have hrq := own.apart .readQueue (by decide) hmem
  have hc := own.apart .consumer (by decide) hmem
  refine ⟨?_, fun h => h.update x hc⟩
  simp only [Threads.queued, VariableBuffer.setCurrent, VariableBuffer.setBlock,
    Consumer.samples_update _ _ hc]
  congr 1
  exact samplesOf_update _ _ hrq

theorem producerStep (inv : Ordered b tr s) (own : Owned s)
    (hm : s.vb.bufferMode = .producerConsumer) (h : s.producerStep = some (s', es)) :
    Ordered b (tr ++ es) s' := by
  obtain ⟨vb, p, c⟩ := s
  cases p with
  | idle => cases h
  | thrown what => cases h
  | crashed => cases h
  | adding data =>
    simp only [Threads.producerStep] at h
    split_ifs at h with hsize
    · cases h
      exact inv.producerQuiet ⟨rfl, rfl, rfl⟩ rfl rfl rfl rfl trivial
    · cases hadd : vb.current.add data with
      | none =>
        rw [hadd] at h
        cases h
        refine inv.producerQuiet silent_nil rfl rfl rfl rfl fun _ => ?_
        exact (BufferBlock.valid_length_of_add_none hadd).trans (inv.size _)
      | some x =>
        rw [hadd] at h
        cases h
        obtain ⟨hvalid, hxsize, -⟩ := BufferBlock.add_eq_some hadd
        obtain ⟨hq, hc⟩ := current_apart own rfl x
        have hsizes := VariableBuffer.forall_setBlock (P := fun x => x.getSize = b) inv.size
          vb.currentBlock x (hxsize.trans (inv.size _))
        refine ⟨hsizes, ?_, trivial, hc inv.copied⟩
        have hl := inv.ledger.send data.data
        have hq' : Threads.queued ⟨vb.setCurrent x, .idle, c⟩ =
            Threads.queued ⟨vb, .adding data, c⟩ := hq
        have hf' : Threads.filling ⟨vb.setCurrent x, .idle, c⟩ =
            Threads.filling ⟨vb, .adding data, c⟩ ++ [data.data] := by
          simp [Threads.filling, Producer.published, hvalid]
        have hdel : delivered [Event.added data true] = [] := rfl
        have hdis : discarded [Event.added data true] = [] := rfl
        rw [accepted_append, delivered_append, discarded_append, hq', hf', hdel, hdis,
          List.append_nil, List.append_nil]
        exact hl
  | flushing caller pc =>
    cases h
    exact inv.flushStep own hm
  | resetting data ok =>
    cases h
    obtain ⟨hq, hc⟩ := current_apart own rfl vb.current.reset
    have hq' : Threads.queued ⟨vb.setCurrent vb.current.reset, .adding data, c⟩ =
        Threads.queued ⟨vb, .resetting data ok, c⟩ := hq
    have hf' : Threads.filling ⟨vb.setCurrent vb.current.reset, .adding data, c⟩ = [] := by
      simp [Threads.filling, Producer.published]
    have hsizes := VariableBuffer.forall_setBlock (P := fun x => x.getSize = b) inv.size
      vb.currentBlock vb.current.reset (inv.size _)
    refine ⟨hsizes, ?_, trivial, hc inv.copied⟩
    have hl := inv.ledger
    have hfill : Threads.filling ⟨vb, .resetting data ok, c⟩ = vb.current.valid := rfl
    rw [hfill] at hl
    have hacc : accepted [Event.discarded vb.current.valid] = [] := rfl
    have hdel : delivered [Event.discarded vb.current.valid] = [] := rfl
    rw [accepted_append, delivered_append, discarded_append, hq', hf', hacc, hdel,
      List.append_nil, List.append_nil]
    -- an empty current block means that the flush has succeeded
    cases hv : vb.current.valid with
    | nil =>
      rw [hv] at hl
      simpa only [discarded_nil, List.append_nil] using hl
    | cons y l =>
      rw [hv] at hl
      exact hl.drop

theorem flush_discarded (vb : VariableBuffer α) (caller : Option (Eigen.MatrixXd α)) (pc : FlushPc)
    (next : FlushNext) :
    discarded ((vb.flushStep pc).2.2 ++ (Threads.afterFlush caller next).2) = [] := by
  rw [discarded_append, List.append_eq_nil_iff]
  constructor
  · refine List.filterMap_eq_nil_iff.mpr fun e he => ?_
    rcases Owned.flushStep_events vb pc he with ⟨i, rfl⟩ | ⟨info, rfl⟩ <;> rfl
  · cases next with
    | ret ok => cases caller <;> rfl
    | _ => rfl

/-- Samples are discarded only by an `add_elem` whose flush has failed, and they
are a full block. -/
theorem of_discarded (inv : Ordered b tr s) (h : s.producerStep = some (s', es))
    {run : List (List α)} (hrun : run ∈ discarded es) :
    run.length = b ∧ run = s.vb.current.valid ∧ ∃ data, s.producer = .resetting data false := by
  obtain ⟨vb, p, c⟩ := s
  cases p with
  | idle => cases h
  | thrown what => cases h
  | crashed => cases h
  | adding data =>
    simp only [Threads.producerStep] at h
    split_ifs at h with hsize
    · cases h
      cases hrun
    · cases hadd : vb.current.add data <;> rw [hadd] at h <;> cases h <;> cases hrun
  | flushing caller pc =>
    cases h
    exact absurd hrun (List.eq_nil_iff_forall_not_mem.mp (flush_discarded vb caller pc _) run)
  | resetting data ok =>
    cases h
    cases hv : vb.current.valid with
    | nil =>
      rw [hv] at hrun
      cases hrun
    | cons y l =>
      rw [hv] at hrun
      have hrun : run = y :: l := List.mem_singleton.mp hrun
      cases ok with
      | true =>
        have hnil : vb.current.valid = [] := inv.fills
        simp [hnil] at hv
      | false =>
        have hb : vb.current.valid.length = b := inv.fills
        exact ⟨by rw [hrun, ← hv, hb], by rw [hrun, ← hv], data, rfl⟩

end Ordered
end XBot
