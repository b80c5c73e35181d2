import MatLogger2.VarBuffer.Order

/-! The consumer's side of the order, and both sides along a run. -/

namespace XBot

open Spsc Transition Ledger

variable {α : Type}

/-- What a step of the consumer leaves alone. -/
structure ConsumerFrame (s s' : Threads α) : Prop where
  producer : s'.producer = s.producer
  mode : s'.vb.bufferMode = s.vb.bufferMode
  pool : s'.vb.queue.blockPool = s.vb.queue.blockPool
  readQueue : s'.vb.queue.readQueue.write = s.vb.queue.readQueue.write ∧
    s'.vb.queue.readQueue.cell = s.vb.queue.readQueue.cell
  writeQueue : s'.vb.queue.writeQueue.read = s.vb.queue.writeQueue.read
  currentBlock : s'.vb.currentBlock = s.vb.currentBlock
  block : ∀ i, some i ∉ s.consumer.holds → s'.vb.block i = s.vb.block i

theorem consumerStep_frame {s s' : Threads α} {es : List (Event α)}
    (h : s.consumerStep = some (s', es)) : ConsumerFrame s s' := by
  obtain ⟨vb, p, c⟩ := s
  cases c with
  | idle => cases h
  | crashed => cases h
  | popRead w =>
    simp only [Threads.consumerStep] at h
    split_ifs at h <;> cases h <;> exact ⟨rfl, rfl, rfl, ⟨rfl, rfl⟩, rfl, rfl, fun _ _ => rfl⟩
  | popCopy r =>
    simp only [Threads.consumerStep] at h
    cases hb : vb.queue.readQueue.cell r <;> rw [hb] at h <;> cases h <;>
      exact ⟨rfl, rfl, rfl, ⟨rfl, rfl⟩, rfl, rfl, fun _ _ => rfl⟩
  | pushRead i data valid w =>
    simp only [Threads.consumerStep] at h
    split_ifs at h <;> cases h <;> exact ⟨rfl, rfl, rfl, ⟨rfl, rfl⟩, rfl, rfl, fun _ _ => rfl⟩
  | reset i data valid =>
    cases h
    refine ⟨rfl, rfl, rfl, ⟨rfl, rfl⟩, rfl, rfl, fun j hj => Function.update_of_ne ?_ _ _⟩
    rintro rfl
    exact hj (List.mem_singleton.mpr rfl)
  | _ => cases h; exact ⟨rfl, rfl, rfl, ⟨rfl, rfl⟩, rfl, rfl, fun _ _ => rfl⟩

namespace Ordered

variable {b : ℕ} {tr es : List (Event α)} {s s' : Threads α}
variable {vb : VariableBuffer α} {p : Producer α} {c c' : Consumer α}

/-- A step of the consumer that returns nothing and touches no block. -/
theorem consumerQuiet (inv : Ordered b tr ⟨vb, p, c⟩) {q : QueueImpl} (hes : Silent es)
    (hq : c'.samples vb.block ++ samplesOf vb.block (Threads.rqLive ⟨{ vb with queue := q }, p, c'⟩) =
      c.samples vb.block ++ samplesOf vb.block (Threads.rqLive ⟨vb, p, c⟩))
    (hc : c'.Copied vb.block) : Ordered b (tr ++ es) ⟨{ vb with queue := q }, p, c'⟩ :=
  inv.quiet hes inv.size hq rfl inv.fills hc

theorem consumerStep (inv : Ordered b tr s) (own : Owned s)
    (h : s.consumerStep = some (s', es)) : Ordered b (tr ++ es) s' := by
  obtain ⟨vb, p, c⟩ := s
  have hmode : c ≠ .idle → vb.bufferMode = .producerConsumer := own.consumer_mode
  have hlive : vb.bufferMode = .producerConsumer → ∀ c : Consumer α,
      Threads.rqLive ⟨vb, p, c⟩ = PopView.live vb.queue.readQueue c.rqPop := by
    intro hm c
    simp only [Threads.rqLive, Owned.rqPop_consumer hm]
  cases c with
  | idle => cases h
  | crashed => cases h
  | popWrite =>
    cases h
    have hm := hmode (by simp)
    refine inv.consumerQuiet silent_nil ?_ trivial
    rw [hlive hm, hlive hm]
    rfl
  | popRead w =>
    have hm := hmode (by simp)
    simp only [Threads.consumerStep] at h
    split_ifs at h with he
    · cases h
      refine inv.consumerQuiet ⟨rfl, rfl, rfl⟩ ?_ trivial
      rw [hlive hm, hlive hm]
      rfl
    · cases h
      refine inv.consumerQuiet silent_nil ?_ trivial
      rw [hlive hm, hlive hm]
      rfl
  | popCopy r =>
    have hm := hmode (by simp)
    have hok : (PopView.ready r : PopView Ptr _).Ok vb.queue.readQueue := by
      have := own.rqPop
      rwa [Owned.rqPop_consumer hm] at this
    have hready := PopView.live_ready hok
    simp only [Threads.consumerStep] at h
    cases hb : vb.queue.readQueue.cell r with
    | none => exact absurd hb (own.not_null_ready (Owned.rqPop_consumer hm))
    | some i =>
      rw [hb] at h hready
      cases h
      refine inv.consumerQuiet silent_nil ?_ trivial
      rw [hlive hm, hlive hm, Consumer.rqPop, Consumer.rqPop, hready]
      rfl
  | popStore r i =>
    have hm := hmode (by simp)
    have hcopied : (PopView.copied r (some i) : PopView Ptr _).Ok vb.queue.readQueue := by
      have := own.rqPop
      rwa [Owned.rqPop_consumer hm] at this
    have hadv := PopView.live_advance_one hcopied
    obtain ⟨rfl, -⟩ := hcopied
    cases h
    refine inv.consumerQuiet silent_nil ?_ trivial
    have hl : Threads.rqLive ⟨{ vb with queue := { vb.queue with readQueue :=
        { vb.queue.readQueue with read := Boost.nextIndex vb.queue.readQueue.read } } }, p,
        .copyData i⟩ = PopView.live (vb.queue.readQueue.advance 1) .idle := by
      simp only [Threads.rqLive, Threads.rqPop, hm]
      rfl
    rw [hl, hadv, hlive hm]
    rfl
  | copyData i =>
    cases h
    have hm := hmode (by simp)
    refine inv.consumerQuiet silent_nil ?_ rfl
    rw [hlive hm, hlive hm]
    rfl
  | copyValid i data =>
    cases h
    have hm := hmode (by simp)
    refine inv.consumerQuiet silent_nil ?_ ⟨inv.copied, rfl⟩
    rw [hlive hm, hlive hm]
    rfl
  | reset i data valid =>
    have hm := hmode (by simp)
    obtain ⟨hdata, hvalid⟩ : data = (vb.block i).buf ∧ valid = (vb.block i).writeIdx := inv.copied
    have hmem : some i ∈ Threads.owns ⟨vb, p, .reset i data valid⟩ .consumer :=
      List.mem_singleton.mpr rfl
    have hrq := own.apart .readQueue (by decide) hmem
    have hp := own.apart .producer (by decide) hmem
    cases h
    have hsize := VariableBuffer.forall_setBlock (P := fun x => x.getSize = b) inv.size i
      (vb.block i).reset (inv.size i)
    refine inv.quiet silent_nil hsize ?_ ?_ (inv.fills.update _ hp) trivial
    · have hl : Threads.rqLive ⟨vb.setBlock i (vb.block i).reset, p, .pushWrite i data valid⟩ =
          Threads.rqLive ⟨vb, p, .reset i data valid⟩ := by
        simp only [Threads.rqLive, Threads.rqPop, VariableBuffer.setBlock, hm]
        rfl
      rw [Threads.queued, Threads.queued, hl, hdata, hvalid]
      congr 1
      exact samplesOf_update _ _ hrq
    · -- the producer's current block is not the consumer's, unless already published
      by_cases hpub : p.published
      · simp [Threads.filling, hpub]
      · have hne : vb.currentBlock ≠ i := by
          rintro rfl
          exact hp (Producer.current_mem_holds (by simpa using hpub) _)
        simp [Threads.filling, hpub, VariableBuffer.current, VariableBuffer.setBlock,
          Function.update_of_ne hne]
  | pushWrite i data valid =>
    cases h
    have hm := hmode (by simp)
    refine inv.consumerQuiet silent_nil ?_ trivial
    rw [hlive hm, hlive hm]
    rfl
  | pushRead i data valid w =>
    have hm := hmode (by simp)
    simp only [Threads.consumerStep, if_neg own.readPushRead_ne] at h
    cases h
    refine inv.consumerQuiet silent_nil ?_ trivial
    rw [hlive hm, hlive hm]
    rfl
  | pushCopy i data valid w =>
    cases h
    have hm := hmode (by simp)
    refine inv.consumerQuiet silent_nil ?_ trivial
    simp only [Threads.rqLive, Threads.rqPop, hm]
    rfl
  | pushStore i data valid w =>
    cases h
    have hm := hmode (by simp)
    refine ⟨inv.size, ?_, inv.fills, trivial⟩
    have hl := inv.ledger
    have hq : Threads.queued ⟨vb, p, .pushStore i data valid w⟩ = data.take valid ++
        samplesOf vb.block (PopView.live vb.queue.readQueue .idle) := by
      rw [Threads.queued, hlive hm]
      rfl
    have hq' : Threads.queued ⟨{ vb with queue := { vb.queue with writeQueue :=
        { vb.queue.writeQueue with write := Boost.nextIndex w } } }, p, .idle⟩ =
        samplesOf vb.block (PopView.live vb.queue.readQueue .idle) := by
      simp only [Threads.queued, Threads.rqLive, Threads.rqPop, hm]
      rfl
    have hdel : delivered [(Event.read ⟨some data, valid⟩ : Event α)] = data.take valid := by
      simp [delivered, Event.delivered, VariableBuffer.ReadResult.samples]
    have hacc : accepted [(Event.read ⟨some data, valid⟩ : Event α)] = [] := rfl
    have hdis : discarded [(Event.read ⟨some data, valid⟩ : Event α)] = [] := rfl
    rw [hq] at hl
    rw [accepted_append, delivered_append, discarded_append, hq', hacc, hdel, hdis,
      List.append_nil, List.append_nil, List.append_assoc]
    exact hl

theorem step {a : Act α} (inv : Ordered b tr s) (own : Owned s)
    (hm : s.vb.bufferMode = .producerConsumer) (h : s.step a = some (s', es)) :
    Ordered b (tr ++ es) s' := by
  obtain ⟨vb, p, c⟩ := s
  cases a with
  | callAddElem data =>
    cases p <;> cases h
    exact inv.producerQuiet silent_nil rfl rfl rfl rfl trivial
  | callFlushToQueue =>
    cases p <;> cases h
    exact inv.producerQuiet silent_nil rfl rfl rfl rfl nofun
  | producer => exact inv.producerStep own hm h
  | callReadBlock =>
    cases c with
    | idle =>
      have hm : vb.bufferMode = .producerConsumer := hm
      simp only [Threads.step, hm] at h
      cases h
      refine inv.consumerQuiet silent_nil ?_ trivial
      simp only [Threads.rqLive, Threads.rqPop, hm]
      rfl
    | _ => cases h
  | consumer => exact inv.consumerStep own h

end Ordered

theorem Ordered.init {rows cols b : ℕ} {s : Threads α}
    (h : (threads α rows cols b .producerConsumer).init s) : Ordered b [] s := by
  obtain ⟨name, hb, storage, callback, rfl⟩ := h
  have hblock := VariableBuffer.make_block name rows cols b hb storage
  obtain ⟨hr, -, -⟩ := VariableBuffer.make_queue name rows cols b hb storage
  unfold Threads.start
  generalize VariableBuffer.make name rows cols b hb storage = vb at hblock hr
  refine ⟨fun i => (hblock i).1, ?_, trivial, trivial⟩
  have hq : Threads.queued ⟨(vb.setOnBlockAvailable callback).setBufferMode .producerConsumer,
      .idle, .idle⟩ = [] := by
    have hlive : Threads.rqLive ⟨(vb.setOnBlockAvailable callback).setBufferMode .producerConsumer,
      .idle, .idle⟩ = vb.queue.readQueue.content := rfl
    rw [Threads.queued, hlive, hr]
    rfl
  have hf : Threads.filling ⟨(vb.setOnBlockAvailable callback).setBufferMode .producerConsumer,
      .idle, .idle⟩ = [] := (hblock _).2
  rw [hq, hf]
  exact Open.nil

end XBot
