import MatLogger2.VarBuffer.Loss
import MatLogger2.VarBuffer.CallSpecs

/-! How many blocks wait in the read queue. The producer looks at the room in the queue before it
pushes, and reports what it has seen after it has pushed. -/

namespace XBot

open Spsc Transition

variable {α : Type}

/-- What the flush is going to report, once it has looked. -/
def FlushPc.info : FlushPc → Option BufferInfo
  | .check | .infoWrite | .infoRead _ => none
  | .allWrite info | .allRead info _ | .allCopy info _ _ _ | .takeBlock info => some info
  | .popWrite info | .popRead info _ | .popCopy info _ | .popStore info _ _ => some info
  | .pushWrite info _ | .pushRead info _ _ | .pushCopy info _ _ | .pushStore info _ _ => some info
  | .setCurrent info _ | .callback info => some info

namespace Producer

def info : Producer α → Option BufferInfo
  | .flushing _ pc => pc.info
  | _ => none

/-- A block has been pushed, and the callback has not been called for it. -/
def announcing : Producer α → Bool
  | .flushing _ (.setCurrent _ _) | .flushing _ (.callback _) => true
  | _ => false

end Producer

def Event.report : Event α → Option BufferInfo
  | .notified info => some info
  | _ => none

/-- What the callback has been told in a step, if it has been called. -/
def reported (es : List (Event α)) : Option BufferInfo := es.findSome? Event.report

namespace Threads

variable (s : Threads α)

/-- The blocks that wait to be read. -/
def waiting : ℕ := s.vb.queue.readQueue.content.length

/-- The blocks that the next `flush_to_queue` can find. -/
def free : ℕ := s.vb.queue.blockPool.length + s.wqLive.length

end Threads

/-- A variable has a free block when nobody reads and not all of its blocks wait or are held by its
producer. -/
theorem Owned.free_pos {s : Threads α} (inv : Owned s) (hc : s.consumer = .idle)
    (h : s.waiting + s.producerHolds.length < NUM_BLOCKS) : 0 < s.free := by
  have hl := inv.length_handles
  have hle : s.rqLive.length ≤ s.waiting := by
    simp [Threads.rqLive, PopView.live, Threads.waiting]
  rw [hc] at hl
  simp only [Consumer.holds, List.length_nil, Threads.free] at hl ⊢
  omega

theorem Owned.push_waiting {vb : VariableBuffer α} {c : Consumer α}
    {caller : Option (Eigen.MatrixXd α)} {info : BufferInfo} {b : BlockId} {w : Index}
    (inv : Owned ⟨vb, .flushing caller (.pushStore info b w), c⟩) :
    ({ vb.queue.readQueue with write := Boost.nextIndex w } : LockfreeQueue).content.length =
      vb.queue.readQueue.content.length + 1 := by
  obtain ⟨rfl, -⟩ : w = vb.queue.readQueue.write ∧ _ := inv.rqPush
  have hpub := Ring.content_publish vb.queue.readQueue (inv.rq_room rfl rfl)
  refine (congrArg List.length hpub).trans ?_
  rw [List.length_append, List.length_singleton]

/-- A call of the producer finds the free block, and drops nothing. -/
theorem Owned.calls_succeed {s : Threads α} (inv : Owned s) (hp : s.producer = .idle)
    (hc : s.consumer = .idle) (hf : 0 < s.free) : s.vb.flushToQueue.ret = .ok true ∧
      ∀ data, (s.vb.addElem data).discarded = [] := by
  obtain ⟨vb, p, c⟩ := s
  simp only at hp hc
  subst hp hc
  have hlive : Threads.rqLive ⟨vb, .idle, .idle⟩ = vb.queue.readQueue.content := by
    unfold Threads.rqLive Threads.rqPop
    cases vb.bufferMode <;> rfl
  have hflush : vb.flushToQueue.ret = .ok true ∧ vb.flushToQueue.vb.current.valid = [] := by
    by_cases hv : vb.current.valid = []
    · rw [VariableBuffer.flushToQueue_nil hv]
      exact ⟨rfl, hv⟩
    have hvalid : ¬ vb.current.getValidElements = 0 := by rwa [← BufferBlock.valid_eq_nil]
    have hne : vb.queue.blockPool ++ vb.queue.writeQueue.content ≠ [] := by
      rw [← List.length_pos_iff, List.length_append]
      exact hf
    obtain ⟨pool, x, hpx⟩ := (List.eq_nil_or_concat _).resolve_left hne
    rw [List.concat_eq_append] at hpx
    have hmem : x ∈ Threads.handles ⟨vb, .idle, .idle⟩ := by
      have hx : x ∈ vb.queue.blockPool ++ vb.queue.writeQueue.content := by simp [hpx]
      rcases List.mem_append.mp hx with hx | hx
      · simp [Threads.handles, hx]
      · have hx : x ∈ Threads.wqLive ⟨vb, .idle, .idle⟩ := hx
        simp [Threads.handles, hx]
    obtain ⟨i, rfl⟩ := Option.ne_none_iff_exists'.mp fun he => inv.none_notMem (he ▸ hmem)
    obtain ⟨wq, -, hnew⟩ := VariableBuffer.getNewBlock_some vb hpx
    have hroom : vb.queue.readQueue.content.length < NUM_BLOCKS := by
      have hl := inv.length_handles
      rw [hlive] at hl
      simp only [Threads.producerHolds, Producer.holds, Consumer.holds, List.length_cons,
        List.length_nil] at hl
      omega
    obtain ⟨rq, -, hpush⟩ := VariableBuffer.pushCurrent_eq { vb.setBlock i (vb.block i).reset with
      queue := { vb.queue with writeQueue := wq, blockPool := pool } } i vb.bufferInfo hroom
    have he : vb.flushToQueue =
        ⟨{ vb.setBlock i (vb.block i).reset with
          queue := { blockPool := pool, readQueue := rq, writeQueue := wq }, currentBlock := i },
          .ok true, if vb.onBlockAvailable then [vb.bufferInfo] else [], []⟩ := by
      rw [VariableBuffer.flushToQueue, if_neg hvalid]
      simp only [hnew]
      exact hpush
    rw [he]
    exact ⟨rfl, by simp [VariableBuffer.current, VariableBuffer.setBlock]⟩
  refine ⟨hflush.1, fun data => ?_⟩
  rw [VariableBuffer.addElem]
  split_ifs
  · rfl
  · split
    · rfl
    · simp only [hflush.1]
      exact hflush.2

/-- What a step of the producer may do to the read queue: nothing, a push, or the call of the
callback. -/
def Announces (s s' : Threads α) (es : List (Event α)) : Prop :=
  (s'.waiting = s.waiting ∧ s'.producer.announcing = s.producer.announcing ∧ reported es = none) ∨
    (s'.waiting = s.waiting + 1 ∧ s.producer.announcing = false ∧
      s'.producer.announcing = true ∧ reported es = none) ∨
    (s'.waiting = s.waiting ∧ s.producer.announcing = true ∧ s'.producer.announcing = false ∧
      s'.producer.info = none ∧ s'.producerHolds.length = 1 ∧
      reported es = if s.vb.onBlockAvailable then s.producer.info else none)

theorem flushStep_announces {vb : VariableBuffer α} {c : Consumer α}
    {caller : Option (Eigen.MatrixXd α)} {pc : FlushPc} (own : Owned ⟨vb, .flushing caller pc, c⟩)
    (hm : vb.bufferMode = .producerConsumer) :
    Announces ⟨vb, .flushing caller pc, c⟩ ⟨(vb.flushStep pc : _ × _ × List (Event α)).1,
        (Threads.afterFlush caller (vb.flushStep pc : _ × _ × List (Event α)).2.1).1, c⟩
      ((vb.flushStep pc).2.2 ++ (Threads.afterFlush caller (vb.flushStep pc : _ × _ ×
        List (Event α)).2.1).2) := by
  have hnp := own.not_popping hm
  cases pc with
  | check =>
    by_cases hv : vb.current.getValidElements = 0
    · simp only [VariableBuffer.flushStep, if_pos hv]
      cases caller <;> exact .inl ⟨rfl, rfl, rfl⟩
    · simp only [VariableBuffer.flushStep, if_neg hv]
      exact .inl ⟨rfl, rfl, rfl⟩
  | allRead info w =>
    by_cases hw : Boost.readAvailable w vb.queue.writeQueue.read = 0
    · simp only [VariableBuffer.flushStep, if_pos hw]
      exact .inl ⟨rfl, rfl, rfl⟩
    · simp only [VariableBuffer.flushStep, if_neg hw]
      exact .inl ⟨rfl, rfl, rfl⟩
  | allCopy info r count todo => cases todo <;> exact .inl ⟨rfl, rfl, rfl⟩
  | takeBlock info =>
    cases hp : vb.queue.blockPool.getLast? with
    | none =>
      simp only [VariableBuffer.flushStep, hp, hm]
      cases caller <;> exact .inl ⟨rfl, rfl, rfl⟩
    | some h =>
      cases h with
      | none => exact absurd hp own.not_null_pool
      | some i =>
        simp only [VariableBuffer.flushStep, hp]
        exact .inl ⟨rfl, rfl, rfl⟩
  | popWrite info => exact absurd hnp (by simp [Producer.popping])
  | popRead info w => exact absurd hnp (by simp [Producer.popping])
  | popCopy info r => exact absurd hnp (by simp [Producer.popping])
  | popStore info r i => exact absurd hnp (by simp [Producer.popping])
  | pushRead info i w =>
    simp only [VariableBuffer.flushStep, if_neg own.pushRead_ne]
    exact .inl ⟨rfl, rfl, rfl⟩
  | pushCopy info i w =>
    obtain rfl : w = vb.queue.readQueue.write := own.rqPush
    refine .inl ⟨?_, rfl, rfl⟩
    exact congrArg List.length (Ring.content_setCell vb.queue.readQueue (some vb.currentBlock))
  | pushStore info i w => exact .inr (.inl ⟨own.push_waiting, rfl, rfl, rfl⟩)
  | callback info =>
    refine .inr (.inr ⟨rfl, rfl, ?_⟩)
    cases caller <;> cases hcb : vb.onBlockAvailable <;>
      simp only [VariableBuffer.flushStep, hcb] <;> exact ⟨rfl, rfl, rfl, rfl⟩
  | _ => exact .inl ⟨rfl, rfl, rfl⟩

theorem producerStep_announces {s s' : Threads α} {es : List (Event α)} (own : Owned s)
    (hm : s.vb.bufferMode = .producerConsumer) (h : s.producerStep = some (s', es)) :
    Announces s s' es := by
  obtain ⟨vb, p, c⟩ := s
  cases p with
  | idle => cases h
  | thrown what => cases h
  | crashed => cases h
  | adding data =>
    simp only [Threads.producerStep] at h
    split_ifs at h with hsize
    · cases h
      exact .inl ⟨rfl, rfl, rfl⟩
    · cases hadd : vb.current.add data <;> rw [hadd] at h <;> cases h <;> exact .inl ⟨rfl, rfl, rfl⟩
  | resetting data ok =>
    cases h
    exact .inl ⟨rfl, rfl, rfl⟩
  | flushing caller pc =>
    cases h
    exact flushStep_announces own hm

/-- The report is made from the two indices of the read queue, and kept. -/
theorem flushStep_info (vb : VariableBuffer α) {pc pc' : FlushPc}
    (h : (vb.flushStep pc : _ × _ × List (Event α)).2.1 = .goto pc') {info : BufferInfo}
    (hi : pc'.info = some info) :
    pc.info = some info ∨ ∃ w, pc = .infoRead w ∧
      info.writeAvailable = Boost.writeAvailable w vb.queue.readQueue.read := by
  revert h
  fun_cases VariableBuffer.flushStep vb pc <;> rintro ⟨⟩
  case case4 w info' =>
    exact .inr ⟨w, rfl, (congrArg BufferInfo.writeAvailable (Option.some.inj hi)).symm⟩
  all_goals exact .inl hi

/-- The write index that the report is made from is the last one stored. -/
theorem flushStep_infoRead (vb : VariableBuffer α) {pc : FlushPc} {w : Index}
    (h : (vb.flushStep pc : _ × _ × List (Event α)).2.1 = .goto (.infoRead w)) :
    w = (vb.flushStep pc : _ × _ × List (Event α)).1.queue.readQueue.write := by
  revert h
  fun_cases VariableBuffer.flushStep vb pc <;> rintro ⟨⟩
  rfl

/-- The producer leaves the consumer's side of the read queue alone, and the callback. -/
theorem producerStep_frame {s s' : Threads α} {es : List (Event α)} (own : Owned s)
    (hm : s.vb.bufferMode = .producerConsumer) (h : s.producerStep = some (s', es)) :
    s'.consumer = s.consumer ∧ s'.vb.queue.readQueue.read = s.vb.queue.readQueue.read ∧
      s'.vb.onBlockAvailable = s.vb.onBlockAvailable := by
  obtain ⟨vb, p, c⟩ := s
  cases p with
  | idle => cases h
  | thrown what => cases h
  | crashed => cases h
  | adding data =>
    simp only [Threads.producerStep] at h
    split_ifs at h with hsize
    · cases h
      exact ⟨rfl, rfl, rfl⟩
    · cases hadd : vb.current.add data <;> rw [hadd] at h <;> cases h <;> exact ⟨rfl, rfl, rfl⟩
  | resetting data ok =>
    cases h
    exact ⟨rfl, rfl, rfl⟩
  | flushing caller pc =>
    have hnp := own.not_popping hm
    have hflush : (vb.flushStep pc : _ × _ × List (Event α)).1.queue.readQueue.read =
        vb.queue.readQueue.read ∧
        (vb.flushStep pc : _ × _ × List (Event α)).1.onBlockAvailable = vb.onBlockAvailable := by
      fun_cases VariableBuffer.flushStep vb pc <;> first | exact ⟨rfl, rfl⟩ | cases hnp
    cases h
    exact ⟨rfl, hflush⟩

/-- A producer inside a flush has just begun it, or made a step of it. -/
theorem producerStep_goto {s s' : Threads α} {es : List (Event α)}
    (h : s.producerStep = some (s', es)) {caller : Option (Eigen.MatrixXd α)} {pc' : FlushPc}
    (hp : s'.producer = .flushing caller pc') :
    pc' = .check ∨ ∃ pc, s.producer = .flushing caller pc ∧
      (s.vb.flushStep pc : _ × _ × List (Event α)).2.1 = .goto pc' ∧
      s'.vb = (s.vb.flushStep pc : _ × _ × List (Event α)).1 := by
  obtain ⟨vb, p, c⟩ := s
  cases p with
  | idle => cases h
  | thrown what => cases h
  | crashed => cases h
  | adding data =>
    simp only [Threads.producerStep] at h
    split_ifs at h with hsize
    · cases h
      cases hp
    · cases hadd : vb.current.add data <;> rw [hadd] at h <;> cases h <;> cases hp
      exact .inl rfl
  | resetting data ok =>
    cases h
    cases hp
  | flushing caller' pc =>
    cases h
    have hafter : ∀ next, (Threads.afterFlush caller' next : _ × List (Event α)).1 =
        .flushing caller pc' → caller' = caller ∧ next = .goto pc' := by
      intro next hn
      cases next with
      | goto pc =>
        cases hn
        exact ⟨rfl, rfl⟩
      | ret ok => cases caller' <;> cases hn
      | throw what => cases hn
      | crash => cases hn
    obtain ⟨rfl, hnext⟩ := hafter _ hp
    exact .inr ⟨pc, rfl, hnext, rfl⟩

/-- The consumer only takes blocks out of the read queue. -/
theorem consumerStep_waiting {s s' : Threads α} {es : List (Event α)} (own : Owned s)
    (h : s.consumerStep = some (s', es)) : s'.waiting ≤ s.waiting := by
  obtain ⟨vb, p, c⟩ := s
  cases c with
  | idle => cases h
  | crashed => cases h
  | popRead w =>
    simp only [Threads.consumerStep] at h
    split_ifs at h <;> cases h <;> exact le_refl _
  | popCopy r =>
    simp only [Threads.consumerStep] at h
    cases hb : vb.queue.readQueue.cell r <;> rw [hb] at h <;> cases h <;> exact le_refl _
  | popStore r b =>
    have hcopied : (PopView.copied r (some b) : PopView Ptr _).Ok vb.queue.readQueue := by
      have := own.rqPop
      rwa [Owned.rqPop_consumer (own.consumer_mode (by simp))] at this
    have hlen := congrArg List.length (Ring.content_advance _ (PopView.taken_le hcopied))
    obtain ⟨rfl, -⟩ := hcopied
    cases h
    rw [List.length_drop] at hlen
    exact hlen.trans_le (Nat.sub_le _ _)
  | pushRead i data valid w =>
    simp only [Threads.consumerStep] at h
    split_ifs at h <;> cases h <;> exact le_refl _
  | _ => cases h; exact le_refl _

theorem consumerStep_callback {s s' : Threads α} {es : List (Event α)}
    (h : s.consumerStep = some (s', es)) : s'.vb.onBlockAvailable = s.vb.onBlockAvailable := by
  obtain ⟨vb, p, c⟩ := s
  cases c with
  | idle => cases h
  | crashed => cases h
  | popRead w =>
    simp only [Threads.consumerStep] at h
    split_ifs at h <;> cases h <;> rfl
  | popCopy r =>
    simp only [Threads.consumerStep] at h
    cases hb : vb.queue.readQueue.cell r <;> rw [hb] at h <;> cases h <;> rfl
  | pushRead i data valid w =>
    simp only [Threads.consumerStep] at h
    split_ifs at h <;> cases h <;> rfl
  | _ => cases h; rfl

end XBot
