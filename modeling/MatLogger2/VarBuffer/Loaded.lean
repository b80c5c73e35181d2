import MatLogger2.VarBuffer.Room

/-! No empty block is pushed, so that `read_block` returns no samples only when it has found the
read queue empty. -/

namespace XBot

open Spsc Transition

variable {α : Type}

/-- The current block has been found not to be empty, and has not been replaced. -/
def FlushPc.carrying : FlushPc → Bool
  | .check | .setCurrent _ _ | .callback _ => false
  | _ => true

def Producer.carrying : Producer α → Bool
  | .flushing _ pc => pc.carrying
  | _ => false

theorem Producer.carrying_published {p : Producer α} (h : p.carrying = true) : p.published = false := by
  cases p with
  | flushing caller pc => cases pc <;> first | rfl | cases h
  | _ => rfl

namespace Consumer

/-- The block that the consumer has taken was not empty. -/
def Loaded (block : BlockId → BufferBlock α) : Consumer α → Prop
  | .popStore _ i | .copyData i | .copyValid i _ => 0 < (block i).getValidElements
  | .reset _ _ valid | .pushWrite _ _ valid | .pushRead _ _ valid _ => 0 < valid
  | .pushCopy _ _ valid _ | .pushStore _ _ valid _ => 0 < valid
  | .idle | .popWrite | .popRead _ | .popCopy _ | .crashed => True

theorem Loaded.congr {block block' : BlockId → BufferBlock α} {c : Consumer α} (h : c.Loaded block)
    (hb : ∀ i, some i ∈ c.holds → block' i = block i) : c.Loaded block' := by
  cases c <;> simp_all [Loaded, holds]

end Consumer

structure Loaded (s : Threads α) : Prop where
  waiting : ∀ i, some i ∈ s.rqLive → 0 < (s.vb.block i).getValidElements
  current : s.producer.carrying = true → 0 < s.vb.current.getValidElements
  taken : s.consumer.Loaded s.vb.block

namespace Loaded

variable {s s' : Threads α} {es : List (Event α)}

/-- A step that changes no block that waits or has been taken, nor one that is about to be pushed. -/
theorem frame (inv : Loaded s) (hrq : s'.rqLive = s.rqLive) (hc : s'.consumer = s.consumer)
    (hb : ∀ i, some i ∈ s.rqLive ∨ some i ∈ s.consumer.holds → s'.vb.block i = s.vb.block i)
    (hcur : s'.producer.carrying = true →
      s.producer.carrying = true ∧ s'.vb.current = s.vb.current) : Loaded s' := by
  refine ⟨fun i hi => ?_, fun h => ?_, ?_⟩
  · rw [hrq] at hi
    rw [hb i (.inl hi)]
    exact inv.waiting i hi
  · obtain ⟨h', he⟩ := hcur h
    rw [he]
    exact inv.current h'
  · rw [hc]
    exact inv.taken.congr fun i hi => hb i (.inr hi)

section Flush

variable {vb : VariableBuffer α} {c : Consumer α} {caller : Option (Eigen.MatrixXd α)}

theorem flushStep {pc : FlushPc} (inv : Loaded ⟨vb, .flushing caller pc, c⟩)
    (own : Owned ⟨vb, .flushing caller pc, c⟩) (hm : vb.bufferMode = .producerConsumer) :
    Loaded ⟨(vb.flushStep pc : _ × _ × List (Event α)).1,
      (Threads.afterFlush caller (vb.flushStep pc : _ × _ × List (Event α)).2.1).1, c⟩ := by
  have hnp := own.not_popping hm
  have hlive : ∀ p : Producer α, Threads.rqLive ⟨vb, p, c⟩ =
      Threads.rqLive ⟨vb, .flushing caller pc, c⟩ := by
    intro p
    simp only [Threads.rqLive, Owned.rqPop_consumer hm]
  cases pc with
  | check =>
    by_cases hv : vb.current.getValidElements = 0
    · simp only [VariableBuffer.flushStep, if_pos hv]
      cases caller <;> exact inv.frame (hlive _) rfl (fun _ _ => rfl) fun h => by cases h
    · simp only [VariableBuffer.flushStep, if_neg hv]
      exact ⟨inv.waiting, fun _ => Nat.pos_of_ne_zero hv, inv.taken⟩
  | infoWrite => exact inv.frame rfl rfl (fun _ _ => rfl) fun _ => ⟨rfl, rfl⟩
  | infoRead w => exact inv.frame rfl rfl (fun _ _ => rfl) fun _ => ⟨rfl, rfl⟩
  | allWrite info => exact inv.frame rfl rfl (fun _ _ => rfl) fun _ => ⟨rfl, rfl⟩
  | allRead info w =>
    simp only [VariableBuffer.flushStep]
    split_ifs <;> exact inv.frame rfl rfl (fun _ _ => rfl) fun _ => ⟨rfl, rfl⟩
  | allCopy info r count todo =>
    cases todo <;> exact inv.frame rfl rfl (fun _ _ => rfl) fun _ => ⟨rfl, rfl⟩
  | takeBlock info =>
    cases hp : vb.queue.blockPool.getLast? with
    | none =>
      simp only [VariableBuffer.flushStep, hp, hm]
      cases caller <;> exact inv.frame (hlive _) rfl (fun _ _ => rfl) fun h => by cases h
    | some h =>
      cases h with
      | none => exact absurd hp own.not_null_pool
      | some i =>
        simp only [VariableBuffer.flushStep, hp]
        -- a block of the pool neither waits, nor is taken, nor is the current one
        have hmem : some i ∈ Threads.owns ⟨vb, .flushing caller (.takeBlock info), c⟩ .pool :=
          List.mem_of_getLast? hp
        refine inv.frame rfl rfl (fun j hj => VariableBuffer.setBlock_of_ne vb ?_ _) fun _ =>
          ⟨rfl, VariableBuffer.setBlock_of_ne vb ?_ _⟩
        · rintro rfl
          rcases hj with hj | hj
          · exact own.apart .readQueue (by decide) hmem hj
          · exact own.apart .consumer (by decide) hmem hj
        · intro he
          have he : vb.currentBlock = i := he
          subst he
          exact own.apart .producer (by decide) hmem (Ordered.owned_current rfl)
  | popWrite info => exact absurd hnp (by simp [Producer.popping])
  | popRead info w => exact absurd hnp (by simp [Producer.popping])
  | popCopy info r => exact absurd hnp (by simp [Producer.popping])
  | popStore info r i => exact absurd hnp (by simp [Producer.popping])
  | pushWrite info i => exact inv.frame rfl rfl (fun _ _ => rfl) fun _ => ⟨rfl, rfl⟩
  | pushRead info i w =>
    simp only [VariableBuffer.flushStep, if_neg own.pushRead_ne]
    exact inv.frame rfl rfl (fun _ _ => rfl) fun _ => ⟨rfl, rfl⟩
  | pushCopy info i w =>
    obtain rfl : w = vb.queue.readQueue.write := own.rqPush
    refine inv.frame ?_ rfl (fun _ _ => rfl) fun _ => ⟨rfl, rfl⟩
    exact PopView.live_setCell vb.queue.readQueue _ _
  | pushStore info i w =>
    obtain ⟨rfl, hcell⟩ : w = vb.queue.readQueue.write ∧
        vb.queue.readQueue.cell vb.queue.readQueue.write = some vb.currentBlock := own.rqPush
    have hpub := PopView.live_publish own.rqPop (own.rq_room rfl rfl)
    refine ⟨fun j hj => ?_, (fun h => by cases h), inv.taken⟩
    rcases List.mem_append.mp ((List.Perm.of_eq hpub).subset hj) with hj | hj
    · exact inv.waiting j hj
    · have hj : some j = some vb.currentBlock := (List.mem_singleton.mp hj).trans hcell
      obtain rfl := Option.some.inj hj
      exact inv.current rfl
  | setCurrent info i => exact ⟨inv.waiting, (fun h => by cases h), inv.taken⟩
  | callback info => cases caller <;> exact inv.frame (hlive _) rfl (fun _ _ => rfl) fun h => by cases h

end Flush

/-- The samples of the current block are nobody else's. -/
theorem setCurrent {vb : VariableBuffer α} {p q : Producer α} {c : Consumer α}
    (inv : Loaded ⟨vb, p, c⟩) (own : Owned ⟨vb, p, c⟩)
    (hp : p.holds vb.currentBlock = [some vb.currentBlock]) (hrq : p.rqPop = q.rqPop)
    (x : BufferBlock α) (hq : q.carrying = false) : Loaded ⟨vb.setCurrent x, q, c⟩ := by
  have hmem := Ordered.owned_current (s := ⟨vb, p, c⟩) hp
  refine inv.frame ?_ rfl (fun j hj => VariableBuffer.setBlock_of_ne vb ?_ _) fun h => ?_
  · exact congrArg (PopView.live vb.queue.readQueue) (Owned.rqPop_congr rfl hrq)
  · rintro rfl
    rcases hj with hj | hj
    · exact own.apart .readQueue (by decide) hmem hj
    · exact own.apart .consumer (by decide) hmem hj
  · rw [hq] at h
    cases h

theorem producerStep (inv : Loaded s) (own : Owned s) (hm : s.vb.bufferMode = .producerConsumer)
    (h : s.producerStep = some (s', es)) : Loaded s' := by
  obtain ⟨vb, p, c⟩ := s
  cases p with
  | idle => cases h
  | thrown what => cases h
  | crashed => cases h
  | adding data =>
    simp only [Threads.producerStep] at h
    split_ifs at h with hsize
    · cases h
      exact inv.frame rfl rfl (fun _ _ => rfl) fun h => by cases h
    · cases hadd : vb.current.add data with
      | none =>
        rw [hadd] at h
        cases h
        exact inv.frame rfl rfl (fun _ _ => rfl) fun h => by cases h
      | some x =>
        rw [hadd] at h
        cases h
        exact inv.setCurrent (q := .idle) own rfl rfl x rfl
  | resetting data ok =>
    cases h
    exact inv.setCurrent (q := .adding data) own rfl rfl _ rfl
  | flushing caller pc =>
    cases h
    exact inv.flushStep own hm

/-- A step of the consumer that changes no block, and leaves no more waiting than before. -/
theorem readQuiet {vb : VariableBuffer α} {p : Producer α} {c c' : Consumer α}
    (inv : Loaded ⟨vb, p, c⟩) (hm : vb.bufferMode = .producerConsumer) (q : QueueImpl)
    (hsub : PopView.live q.readQueue c'.rqPop ⊆ PopView.live vb.queue.readQueue c.rqPop)
    (hc : c'.Loaded vb.block) : Loaded ⟨{ vb with queue := q }, p, c'⟩ := by
  refine ⟨fun i hi => inv.waiting i ?_, inv.current, hc⟩
  simp only [Threads.rqLive, Threads.rqPop, hm] at hi ⊢
  exact hsub hi

theorem consumerStep (inv : Loaded s) (own : Owned s) (h : s.consumerStep = some (s', es)) :
    Loaded s' := by
  obtain ⟨vb, p, c⟩ := s
  have hmode : c ≠ .idle → vb.bufferMode = .producerConsumer := own.consumer_mode
  cases c with
  | idle => cases h
  | crashed => cases h
  | popRead w =>
    simp only [Threads.consumerStep] at h
    split_ifs at h <;> cases h <;>
      exact inv.readQuiet (hmode (by simp)) vb.queue (List.Subset.refl _) trivial
  | popCopy r =>
    have hm := hmode (by simp)
    have hok : (PopView.ready r : PopView Ptr _).Ok vb.queue.readQueue := by
      have := own.rqPop
      rwa [Owned.rqPop_consumer hm] at this
    have hready := PopView.live_ready hok
    simp only [Threads.consumerStep] at h
    cases hb : vb.queue.readQueue.cell r with
    | none => exact absurd hb (own.not_null_ready (Owned.rqPop_consumer hm))
    | some i =>
      rw [hb] at h hready
      cases h
      refine inv.readQuiet hm vb.queue ?_ (inv.waiting i ?_)
      · rw [Consumer.rqPop, Consumer.rqPop, hready]
        exact List.subset_cons_self _ _
      · rw [Threads.rqLive, Owned.rqPop_consumer hm, Consumer.rqPop, hready]
        exact List.mem_cons_self
  | popStore r i =>
    have hm := hmode (by simp)
    have hcopied : (PopView.copied r (some i) : PopView Ptr _).Ok vb.queue.readQueue := by
      have := own.rqPop
      rwa [Owned.rqPop_consumer hm] at this
    have hadv := PopView.live_advance_one hcopied
    obtain ⟨rfl, -⟩ := hcopied
    cases h
    exact inv.readQuiet hm _ (List.Perm.of_eq hadv).subset inv.taken
  | reset i data valid =>
    have hmem : some i ∈ Threads.owns ⟨vb, p, .reset i data valid⟩ .consumer :=
      List.mem_singleton.mpr rfl
    have hm := hmode (by simp)
    cases h
    refine ⟨fun j hj => ?_, fun hcar => ?_, inv.taken⟩
    · have hj : some j ∈ Threads.rqLive ⟨vb, p, .reset i data valid⟩ := by
        simp only [Threads.rqLive, Threads.rqPop, VariableBuffer.setBlock, hm] at hj ⊢
        exact hj
      have hne : j ≠ i := by
        rintro rfl
        exact own.apart .readQueue (by decide) hmem hj
      exact (inv.waiting j hj).trans_eq
        (congrArg _ (VariableBuffer.setBlock_of_ne vb hne _).symm)
    · have hpub := Producer.carrying_published hcar
      have hne : vb.currentBlock ≠ i := by
        rintro rfl
        exact own.apart .producer (by decide) hmem (Producer.current_mem_holds hpub _)
      exact (inv.current hcar).trans_eq
        (congrArg _ (VariableBuffer.setBlock_of_ne vb hne _).symm)
  | pushRead i data valid w =>
    simp only [Threads.consumerStep, if_neg own.readPushRead_ne] at h
    cases h
    exact inv.readQuiet (hmode (by simp)) vb.queue (List.Subset.refl _) inv.taken
  | popWrite =>
    cases h
    exact inv.readQuiet (hmode (by simp)) vb.queue (List.Subset.refl _) trivial
  | pushCopy i data valid w =>
    cases h
    exact inv.readQuiet (hmode (by simp)) _ (List.Subset.refl _) inv.taken
  | pushStore i data valid w =>
    cases h
    exact inv.readQuiet (hmode (by simp)) _ (List.Subset.refl _) trivial
  | _ =>
    cases h
    exact inv.readQuiet (hmode (by simp)) vb.queue (List.Subset.refl _) inv.taken

/-- The consumer has loaded equal indices of the read queue. -/
def FoundEmpty (s : Threads α) : Prop := s.consumer = .popRead s.vb.queue.readQueue.read

/-- Equal indices have been loaded while nothing waits. -/
theorem foundEmpty_step (h : s.consumerStep = some (s', es)) (he : FoundEmpty s') : s'.waiting = 0 := by
  obtain ⟨vb, p, c⟩ := s
  cases c with
  | popWrite =>
    cases h
    have hw : vb.queue.readQueue.write = vb.queue.readQueue.read := Consumer.popRead.inj he
    exact List.length_eq_zero_iff.mpr ((Ring.content_eq_nil _).mpr hw)
  | popRead w =>
    simp only [Threads.consumerStep] at h
    split_ifs at h <;> cases h <;> cases he
  | popCopy r =>
    simp only [Threads.consumerStep] at h
    cases hb : vb.queue.readQueue.cell r <;> rw [hb] at h <;> cases h <;> cases he
  | pushRead i data valid w =>
    simp only [Threads.consumerStep] at h
    split_ifs at h <;> cases h <;> cases he
  | _ => cases h <;> cases he

/-- `read_block` returns false. -/
def readsNothing : Event α → Bool
  | .read result => !result.ret
  | _ => false

/-- `read_block` returns false only for an empty queue. -/
theorem read_false (inv : Loaded s) (h : s.consumerStep = some (s', es))
    (hread : es.any readsNothing = true) : FoundEmpty s ∧ s'.consumer = .idle := by
  obtain ⟨vb, p, c⟩ := s
  have hvalid : ∀ (data : List (List α)) valid, 0 < valid →
      readsNothing (.read ⟨some data, valid⟩ : Event α) = false := by
    intro data valid hpos
    simp [readsNothing, VariableBuffer.ReadResult.ret, hpos]
  cases c with
  | idle => cases h
  | crashed => cases h
  | popRead w =>
    simp only [Threads.consumerStep] at h
    split_ifs at h with hw
    · cases h
      exact ⟨congrArg Consumer.popRead hw, rfl⟩
    · cases h
      cases hread
  | popCopy r =>
    simp only [Threads.consumerStep] at h
    cases hb : vb.queue.readQueue.cell r <;> rw [hb] at h <;> cases h <;> cases hread
  | pushRead i data valid w =>
    simp only [Threads.consumerStep] at h
    split_ifs at h
    · cases h
      have hv := hvalid data valid inv.taken
      have hl : readsNothing (.lost i : Event α) = false := rfl
      simp only [List.any_cons, List.any_nil, hv, hl, Bool.or_false] at hread
      cases hread
    · cases h
      cases hread
  | pushStore i data valid w =>
    cases h
    have hv := hvalid data valid inv.taken
    simp only [List.any_cons, List.any_nil, hv, Bool.or_false] at hread
    cases hread
  | _ => cases h; cases hread

end Loaded
end XBot
