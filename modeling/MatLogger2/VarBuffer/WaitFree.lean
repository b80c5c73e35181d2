import MatLogger2.VarBuffer.Settled

/-! No call of a variable waits for the other thread. Whatever that does, a call returns after a
bounded number of steps of its own thread. -/

namespace XBot

open Spsc Transition

variable {α : Type}

/-- How many steps a flush has left, at most. The loop of `consume_all` visits each cell once. -/
def FlushPc.left : FlushPc → ℕ
  | .check => NUM_BLOCKS + 17
  | .infoWrite => NUM_BLOCKS + 16
  | .infoRead _ => NUM_BLOCKS + 15
  | .allWrite _ => NUM_BLOCKS + 14
  | .allRead _ _ => NUM_BLOCKS + 13
  | .allCopy _ _ _ todo => todo.length + 12
  | .takeBlock _ => 11
  | .popWrite _ => 10
  | .popRead _ _ => 9
  | .popCopy _ _ => 8
  | .popStore _ _ _ => 7
  | .pushWrite _ _ => 6
  | .pushRead _ _ _ => 5
  | .pushCopy _ _ _ => 4
  | .pushStore _ _ _ => 3
  | .setCurrent _ _ => 2
  | .callback _ => 1

/-- The same for a call of the producer, which comes back to `adding` with an empty block. -/
def Producer.left (full : Bool) : Producer α → ℕ
  | .adding _ => if full then NUM_BLOCKS + 20 else 1
  | .flushing none pc => pc.left
  | .flushing (some _) pc => pc.left + 2
  | .resetting _ _ => 2
  | .idle | .thrown _ | .crashed => 0

def Consumer.left : Consumer α → ℕ
  | .popWrite => 11
  | .popRead _ => 10
  | .popCopy _ => 9
  | .popStore _ _ => 8
  | .copyData _ => 7
  | .copyValid _ _ => 6
  | .reset _ _ _ => 5
  | .pushWrite _ _ _ => 4
  | .pushRead _ _ _ _ => 3
  | .pushCopy _ _ _ _ => 2
  | .pushStore _ _ _ _ => 1
  | .idle | .crashed => 0

def BufferBlock.full (b : BufferBlock α) : Bool := b.writeIdx == b.getSize

def Threads.producerLeft (s : Threads α) : ℕ := s.producer.left s.vb.current.full

def Act.ofProducer : Act α → Bool
  | .producer => true
  | _ => false

def Act.ofConsumer : Act α → Bool
  | .consumer => true
  | _ => false

theorem length_consumeCells_le (w r : Index) :
    (Boost.consumeCells r (Boost.readAvailable w r)).length ≤ NUM_BLOCKS := by
  rw [Boost.consumeCells_eq, List.length_map, List.length_range, Boost.readAvailable_eq]
  exact Nat.le_of_lt_succ (gap_lt r w)

/-- Each step of a flush comes nearer to its end. -/
theorem flushStep_left {vb : VariableBuffer α} {pc pc' : FlushPc}
    (h : (vb.flushStep pc : _ × _ × List (Event α)).2.1 = .goto pc') : pc'.left < pc.left := by
  cases pc with
  | check =>
    simp only [VariableBuffer.flushStep] at h
    split_ifs at h
    cases h
    exact Nat.lt_succ_self _
  | allRead info w =>
    have hcells := length_consumeCells_le w vb.queue.writeQueue.read
    simp only [VariableBuffer.flushStep] at h
    split_ifs at h <;> cases h <;> simp only [FlushPc.left] <;> omega
  | allCopy info r count todo =>
    cases todo with
    | nil =>
      cases h
      simp only [FlushPc.left, List.length_nil]
      omega
    | cons i todo =>
      cases h
      simp only [FlushPc.left, List.length_cons]
      omega
  | takeBlock info =>
    simp only [VariableBuffer.flushStep] at h
    split at h
    · split at h <;> cases h
      exact Nat.lt_succ_self _
    · cases h
    · cases h
      exact Nat.lt_of_sub_eq_succ rfl
  | popRead info w =>
    simp only [VariableBuffer.flushStep] at h
    split_ifs at h
    cases h
    exact Nat.lt_succ_self _
  | popCopy info r =>
    simp only [VariableBuffer.flushStep] at h
    split at h <;> cases h
    exact Nat.lt_succ_self _
  | pushRead info b w =>
    simp only [VariableBuffer.flushStep] at h
    split_ifs at h
    cases h
    exact Nat.lt_succ_self _
  | callback info => cases h
  | _ =>
    cases h
    simp only [FlushPc.left]
    omega

theorem FlushPc.left_pos (pc : FlushPc) : 0 < pc.left := by
  cases pc <;> simp only [FlushPc.left] <;> omega

theorem full_reset (b : BufferBlock α) : b.reset.full = false := by
  have := b.size_pos
  simp only [BufferBlock.full, BufferBlock.reset, BufferBlock.getSize, beq_eq_false_iff_ne]
  omega

theorem full_of_add {b : BufferBlock α} {data : Eigen.MatrixXd α} (h : b.add data = none) :
    b.full = true := by
  rw [BufferBlock.add] at h
  split_ifs at h with hfull
  exact beq_iff_eq.mpr hfull

section Steps

variable {s s' : Threads α} {es : List (Event α)}

theorem left_afterFlush {vb : VariableBuffer α} {pc : FlushPc} {next : FlushNext}
    (h : (vb.flushStep pc : _ × _ × List (Event α)).2.1 = next) (caller : Option (Eigen.MatrixXd α))
    (full : Bool) :
    (Threads.afterFlush caller next).1.left full < (Producer.flushing caller pc).left full := by
  have hpos := pc.left_pos
  cases next with
  | goto pc' =>
    have hlt := flushStep_left h
    cases caller with
    | none => exact hlt
    | some data => exact Nat.add_lt_add_right hlt 2
  | ret ok =>
    cases caller with
    | none => exact hpos
    | some data => exact Nat.lt_add_of_pos_left hpos
  | throw what =>
    cases caller with
    | none => exact hpos
    | some data => exact Nat.lt_add_left _ Nat.two_pos
  | crash =>
    cases caller with
    | none => exact hpos
    | some data => exact Nat.lt_add_left _ Nat.two_pos

theorem producerStep_left (h : s.producerStep = some (s', es)) :
    s'.producerLeft < s.producerLeft := by
  obtain ⟨vb, p, c⟩ := s
  cases p with
  | idle => cases h
  | thrown what => cases h
  | crashed => cases h
  | adding data =>
    have hpos : 0 < (Producer.adding data : Producer α).left vb.current.full := by
      rw [Producer.left]
      split <;> omega
    simp only [Threads.producerStep] at h
    split_ifs at h
    · cases h
      exact hpos
    · cases hadd : vb.current.add data with
      | some b =>
        rw [hadd] at h
        cases h
        exact hpos
      | none =>
        rw [hadd] at h
        cases h
        simp only [Threads.producerLeft, Producer.left, full_of_add hadd, FlushPc.left, if_true]
        omega
  | flushing caller pc =>
    have hnext : (vb.flushStep pc : _ × _ × List (Event α)).2.1 = _ := rfl
    have hlt := left_afterFlush hnext caller
    cases h
    cases caller <;> exact hlt _
  | resetting data ok =>
    cases h
    simp only [Threads.producerLeft, Producer.left, VariableBuffer.current_setCurrent, full_reset]
    exact Nat.one_lt_two

theorem consumerStep_left (h : s.consumerStep = some (s', es)) : s'.consumer.left < s.consumer.left := by
  obtain ⟨vb, p, c⟩ := s
  cases c with
  | idle => cases h
  | crashed => cases h
  | popRead w =>
    simp only [Threads.consumerStep] at h
    split_ifs at h <;> cases h
    · exact Nat.succ_pos 9
    · exact Nat.lt_succ_self 9
  | popCopy r =>
    simp only [Threads.consumerStep] at h
    split at h <;> cases h
    · exact Nat.succ_pos 8
    · exact Nat.lt_succ_self 8
  | pushRead b data valid w =>
    simp only [Threads.consumerStep] at h
    split_ifs at h <;> cases h
    · exact Nat.succ_pos 2
    · exact Nat.lt_succ_self 2
  | _ =>
    cases h
    exact Nat.lt_succ_self _

/-- The consumer sets a call of the producer back by nothing. -/
theorem producerLeft_consumer (own : Owned s) (h : s.consumerStep = some (s', es)) :
    s'.producerLeft = s.producerLeft := by
  have hf := consumerStep_frame h
  rw [Threads.producerLeft, Threads.producerLeft, hf.producer]
  cases hp : s.producer with
  | adding data =>
    -- the block that it fills is its own
    have hmem : some s.vb.currentBlock ∈ s.owns .producer := by
      simp only [Threads.owns, Threads.producerHolds, hp]
      exact Producer.current_mem_holds rfl _
    rw [VariableBuffer.current, VariableBuffer.current, hf.currentBlock,
      hf.block _ (own.apart .consumer (by decide) hmem)]
  | flushing caller pc => cases caller <;> rfl
  | _ => rfl

theorem producerStep_consumer (h : s.producerStep = some (s', es)) : s'.consumer = s.consumer := by
  obtain ⟨vb, p, c⟩ := s
  cases p with
  | adding data =>
    simp only [Threads.producerStep] at h
    split_ifs at h
    · cases h
      rfl
    · split at h <;> cases h <;> rfl
  | flushing caller pc =>
    cases h
    rfl
  | resetting data ok =>
    cases h
    rfl
  | _ => cases h

/-- A thread in a call can take its next step. -/
theorem producer_goes_on (own : Owned s) (hp : s.producer ≠ .idle) : s.producerStep.isSome = true := by
  have hsound := own.sound.1
  rw [Threads.producerStep]
  cases hs : s.producer with
  | idle => exact absurd hs hp
  | adding data =>
    simp only
    split_ifs
    · rfl
    · split <;> rfl
  | flushing caller pc => rfl
  | resetting data ok => rfl
  | thrown what => simp [hs, Producer.sound] at hsound
  | crashed => simp [hs, Producer.sound] at hsound

theorem consumer_goes_on (own : Owned s) (hc : s.consumer ≠ .idle) : s.consumerStep.isSome = true := by
  have hsound := own.sound.2
  rw [Threads.consumerStep]
  cases hs : s.consumer with
  | idle => exact absurd hs hc
  | crashed => simp [hs, Consumer.sound] at hsound
  | popRead w =>
    simp only
    split_ifs <;> rfl
  | popCopy r =>
    simp only
    split <;> rfl
  | pushRead b data valid w =>
    simp only
    split_ifs <;> rfl
  | _ => rfl

theorem producer_idle (own : Owned s) (h : s.producerLeft = 0) : s.producer = .idle := by
  have hsound := own.sound.1
  rw [Threads.producerLeft] at h
  cases hp : s.producer with
  | idle => rfl
  | adding data =>
    rw [hp, Producer.left] at h
    split at h <;> omega
  | flushing caller pc =>
    have := pc.left_pos
    rw [hp] at h
    cases caller <;> simp only [Producer.left] at h <;> omega
  | resetting data ok =>
    rw [hp] at h
    cases h
  | thrown what => simp [hp, Producer.sound] at hsound
  | crashed => simp [hp, Producer.sound] at hsound

theorem consumer_idle (own : Owned s) (h : s.consumer.left = 0) : s.consumer = .idle := by
  have hsound := own.sound.2
  cases hc : s.consumer with
  | idle => rfl
  | crashed => simp [hc, Consumer.sound] at hsound
  | _ =>
    rw [hc] at h
    cases h

/-- What is left of a call of the producer is not made more but by the call itself. -/
theorem producerLeft_other (own : Owned s) {a : Act α} (ha : a.ofProducer = false)
    (hp : s.producer ≠ .idle) (h : s.step a = some (s', es)) : s'.producerLeft = s.producerLeft := by
  cases a with
  | callAddElem data =>
    simp only [Threads.step] at h
    cases h
  | callFlushToQueue =>
    simp only [Threads.step] at h
    cases h
  | producer => cases ha
  | callReadBlock =>
    simp only [Threads.step] at h
    split at h
    · split at h <;> cases h <;> rfl
    · cases h
  | consumer => exact producerLeft_consumer own h

theorem consumerLeft_other {a : Act α} (ha : a.ofConsumer = false) (hc : s.consumer ≠ .idle)
    (h : s.step a = some (s', es)) : s'.consumer = s.consumer := by
  cases a with
  | callAddElem data =>
    simp only [Threads.step] at h
    split at h <;> cases h
    rfl
  | callFlushToQueue =>
    simp only [Threads.step] at h
    split at h <;> cases h
    rfl
  | producer => exact producerStep_consumer h
  | callReadBlock =>
    simp only [Threads.step] at h
    cases h
  | consumer => cases ha

end Steps

section Results

variable {rows cols blockSize : ℕ} {mode : Mode} {hist : List (Threads α)} {tr : List (Event α)}
variable {s : Threads α}

theorem producerLeft_le (h : (threads α rows cols blockSize mode).Run hist tr s) :
    s.producerLeft ≤ NUM_BLOCKS + 20 := by
  refine h.inv_hist (I := fun _ _ s => s.producerLeft ≤ NUM_BLOCKS + 20) ?_ ?_
  · rintro s ⟨name, hb, storage, callback, rfl⟩
    exact Nat.zero_le _
  · intro hist tr s es s' hr hle hstep
    obtain ⟨a, ha⟩ := hstep
    obtain ⟨own, -⟩ := Owned.run hr
    by_cases hp : s.producer = .idle
    · cases a with
      | callAddElem data =>
        simp only [Threads.step, hp] at ha
        cases ha
        simp only [Threads.producerLeft, Producer.left]
        split <;> omega
      | callFlushToQueue =>
        simp only [Threads.step, hp] at ha
        cases ha
        simp only [Threads.producerLeft, Producer.left, FlushPc.left]
        omega
      | producer =>
        simp only [Threads.step, Threads.producerStep, hp] at ha
        cases ha
      | callReadBlock =>
        simp only [Threads.step] at ha
        split at ha
        · split at ha <;> cases ha <;> exact hle
        · cases ha
      | consumer =>
        rw [producerLeft_consumer own ha]
        exact hle
    · cases ho : a.ofProducer with
      | false =>
        rw [producerLeft_other own ho hp ha]
        exact hle
      | true =>
        cases a with
        | producer => exact (Nat.le_of_lt (producerStep_left ha)).trans hle
        | _ => cases ho

theorem consumerLeft_le (s : Threads α) : s.consumer.left ≤ 11 := by
  cases s.consumer <;> simp only [Consumer.left] <;> omega

/-- A thread in a call can always go on, and its call has returned after so many steps of its own,
whatever the other thread does in between. -/
theorem wait_free (h : (threads α rows cols blockSize mode).Run hist tr s) :
    (s.producer ≠ .idle → ∃ s' es, s.step .producer = some (s', es)) ∧
    (s.consumer ≠ .idle → ∃ s' es, s.step .consumer = some (s', es)) ∧
    ∀ acts s' es, exec Threads.step s acts = some (s', es) →
      (NUM_BLOCKS + 20 ≤ acts.countP Act.ofProducer → ∃ pre post t es', acts = pre ++ post ∧
        exec Threads.step s pre = some (t, es') ∧ t.producer = .idle) ∧
      (11 ≤ acts.countP Act.ofConsumer → ∃ pre post t es', acts = pre ++ post ∧
        exec Threads.step s pre = some (t, es') ∧ t.consumer = .idle) := by
  obtain ⟨own, -⟩ := Owned.run h
  have hkept : ∀ (s : Threads α) a s' es, Owned s → s.step a = some (s', es) → Owned s' :=
    fun _ _ _ _ own h => (own.step h).1
  refine ⟨fun hp => ?_, fun hc => ?_, fun acts s' es hexec => ⟨fun hcount => ?_, fun hcount => ?_⟩⟩
  · obtain ⟨⟨s', es⟩, hstep⟩ := Option.isSome_iff_exists.mp (producer_goes_on own hp)
    exact ⟨s', es, hstep⟩
  · obtain ⟨⟨s', es⟩, hstep⟩ := Option.isSome_iff_exists.mp (consumer_goes_on own hc)
    exact ⟨s', es, hstep⟩
  · refine exec_reaches hkept (fun s => producer_idle) (fun s a s' es _ ho ha => ?_)
      (fun s a s' es own hp ho ha => ?_) own hexec ((producerLeft_le h).trans hcount)
    · cases a with
      | producer => exact producerStep_left ha
      | _ => cases ho
    · exact Nat.le_of_eq (producerLeft_other own ho hp ha)
  · refine exec_reaches hkept (fun s => consumer_idle)
      (fun s a s' es _ ho ha => ?_) (fun s a s' es _ hc ho ha => ?_) own hexec
      ((consumerLeft_le s).trans hcount)
    · cases a with
      | consumer => exact consumerStep_left ha
      | _ => cases ho
    · exact Nat.le_of_eq (congrArg Consumer.left (consumerLeft_other ho hc ha))

/-- From the middle of a `read_block`, through two more that find nothing. -/
def readingOn : List (Act ℕ) :=
  List.replicate 7 .consumer ++ (List.replicate 2 [.callReadBlock, .consumer, .consumer]).flatten

theorem wait_free_readingOn : ∃ hist tr s, (threads ℕ 1 1 1 .producerConsumer).Run hist tr s ∧
    s.consumer ≠ .idle ∧ ∃ pre post t es, readingOn = pre ++ post ∧
      exec Threads.step s pre = some (t, es) ∧ t.consumer = .idle := by
  have hex : ((exec Threads.step (Threads.start [] 1 1 1 one_pos (fun _ => ⟨[[0]], by decide⟩)
      .producerConsumer false) readOneBlock).map fun p =>
        (p.1.consumer.left, (exec Threads.step p.1 readingOn).isSome)) = some (7, true) := by
    decide +kernel
  obtain ⟨⟨s, es⟩, h, hs⟩ := Option.map_eq_some_iff.mp hex
  obtain ⟨hleft, hsome⟩ := Prod.mk.inj hs
  obtain ⟨⟨t, es'⟩, ht⟩ := Option.isSome_iff_exists.mp hsome
  obtain ⟨hist, hr⟩ := threads_run_exec ⟨[], one_pos, _, false, rfl⟩ h
  refine ⟨hist, es, s, hr, fun hc => ?_, ((wait_free hr).2.2 readingOn t es' ht).2 (by decide)⟩
  rw [hc] at hleft
  cases hleft

end Results

end XBot
