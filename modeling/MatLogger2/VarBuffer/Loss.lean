import MatLogger2.VarBuffer.Delivery

/-! When samples are dropped: by an `add_elem` whose flush saw no free block
anywhere, at a moment when every other block was in the read queue or in the
consumer's hand. -/

namespace XBot

open Spsc Transition Ledger

variable {α : Type}

/-- `add_elem` is about to look at the write queue, with nothing there and
nothing in the pool. -/
structure Starved (b : ℕ) (run : List (List α)) (data : Eigen.MatrixXd α) (s : Threads α) :
    Prop where
  producer : ∃ info, s.producer = .flushing (some data) (.allWrite info)
  full : s.vb.current.valid = run ∧ run.length = b
  pool : s.vb.queue.blockPool = []
  writeQueue : s.wqLive = []
  others : ∀ i, i ≠ s.vb.currentBlock → some i ∈ s.rqLive ∨ some i ∈ s.consumer.holds

/-- The same `add_elem`, from there until it drops the samples. -/
def Dropping (run : List (List α)) (data : Eigen.MatrixXd α) (s : Threads α) : Prop :=
  ((∃ info w, s.producer = .flushing (some data) (.allRead info w)) ∨
    (∃ info, s.producer = .flushing (some data) (.takeBlock info)) ∨
    s.producer = .resetting data false) ∧ s.vb.current.valid = run

/-- Some visited state was starved, and the same `add_elem` has not ended since. -/
def SinceStarved (b : ℕ) (hist : List (Threads α)) (s : Threads α) (data : Eigen.MatrixXd α) : Prop :=
  Since (Starved b s.vb.current.valid data) (Dropping s.vb.current.valid data) hist

/-- A flush for a sample that is going to fail has been starved. -/
def Warned (b : ℕ) (hist : List (Threads α)) (s : Threads α) : Prop :=
  match s.producer with
  | .flushing caller (.allRead _ w) => ∀ data, caller = some data →
      w = s.vb.queue.writeQueue.read → s.vb.queue.blockPool = [] → SinceStarved b hist s data
  | .flushing _ (.allCopy _ _ count _) => 0 < count
  | .flushing caller (.takeBlock _) => ∀ data, caller = some data →
      s.vb.queue.blockPool = [] → SinceStarved b hist s data
  | .resetting data false => SinceStarved b hist s data
  | _ => True

namespace Warned

variable {b : ℕ} {tr es : List (Event α)} {hist : List (Threads α)} {s s' : Threads α}
variable {vb : VariableBuffer α} {p : Producer α} {c c' : Consumer α}
variable {caller : Option (Eigen.MatrixXd α)}

theorem starved {info : BufferInfo} {data : Eigen.MatrixXd α}
    (own : Owned ⟨vb, .flushing (some data) (.allWrite info), c⟩)
    (ord : Ordered b tr ⟨vb, .flushing (some data) (.allWrite info), c⟩)
    (hw : vb.queue.writeQueue.write = vb.queue.writeQueue.read) (hp : vb.queue.blockPool = []) :
    Starved b vb.current.valid data ⟨vb, .flushing (some data) (.allWrite info), c⟩ := by
  have hwq : Threads.wqLive ⟨vb, .flushing (some data) (.allWrite info), c⟩ = [] :=
    (Ring.content_eq_nil _).mpr hw
  refine ⟨⟨info, rfl⟩, ⟨rfl, ord.fills rfl⟩, hp, hwq, fun i hi => ?_⟩
  have hmem := own.owned.mem_iff.mpr (mem_allBlocks.mpr (Option.some_ne_none i))
  simp only [Threads.handles, hp, hwq, Threads.producerHolds, Producer.holds, List.mem_append,
    List.not_mem_nil, List.mem_singleton, Option.some.injEq, hi, or_false, false_or] at hmem
  exact hmem

theorem flushStep {pc : FlushPc} {s' : Threads α}
    (inv : Warned b hist ⟨vb, .flushing caller pc, c⟩) (own : Owned ⟨vb, .flushing caller pc, c⟩)
    (ord : Ordered b tr ⟨vb, .flushing caller pc, c⟩)
    (hlast : ∃ pre, hist = pre ++ [⟨vb, .flushing caller pc, c⟩])
    (hm : vb.bufferMode = .producerConsumer)
    (hs : s' = ⟨(vb.flushStep pc : _ × _ × List (Event α)).1,
      (Threads.afterFlush caller (vb.flushStep pc : _ × _ × List (Event α)).2.1).1, c⟩) :
    Warned b (hist ++ [s']) s' := by
  have hnp := own.not_popping hm
  cases pc with
  | check =>
    simp only [VariableBuffer.flushStep] at hs
    split_ifs at hs
    · cases caller <;> subst hs <;> trivial
    · subst hs
      trivial
  | infoWrite => subst hs; trivial
  | infoRead w => subst hs; trivial
  | allWrite info =>
    subst hs
    rintro data rfl hw hp
    obtain ⟨pre, rfl⟩ := hlast
    exact (since_now pre (starved own ord hw hp)).snoc ⟨.inl ⟨_, _, rfl⟩, rfl⟩
  | allRead info w =>
    simp only [VariableBuffer.flushStep] at hs
    split_ifs at hs with h
    · subst hs
      rintro data rfl hp
      have hw : w = vb.queue.writeQueue.read := by
        rwa [Boost.readAvailable_eq, gap_eq_zero] at h
      exact (inv data rfl hw hp).snoc ⟨.inr (.inl ⟨_, rfl⟩), rfl⟩
    · subst hs
      exact Nat.pos_of_ne_zero h
  | allCopy info r count todo =>
    have hcount : 0 < count := inv
    cases todo with
    | cons i todo => subst hs; exact hcount
    | nil =>
      subst hs
      intro data _ hp
      have hp : vb.queue.blockPool = [] := hp
      have hlen : count ≤ vb.queue.blockPool.length := own.pooled
      rw [hp, List.length_nil] at hlen
      omega
  | takeBlock info =>
    simp only [VariableBuffer.flushStep] at hs
    cases hp : vb.queue.blockPool.getLast? with
    | none =>
      simp only [hp, hm] at hs
      cases caller with
      | none => subst hs; trivial
      | some data =>
        subst hs
        exact (inv data rfl (List.getLast?_eq_none_iff.mp hp)).snoc ⟨.inr (.inr rfl), rfl⟩
    | some h =>
      cases h with
      | none => exact absurd hp own.not_null_pool
      | some i =>
        simp only [hp] at hs
        subst hs
        trivial
  | popWrite info => exact absurd hnp (by simp [Producer.popping])
  | popRead info w => exact absurd hnp (by simp [Producer.popping])
  | popCopy info r => exact absurd hnp (by simp [Producer.popping])
  | popStore info r i => exact absurd hnp (by simp [Producer.popping])
  | pushWrite info i => subst hs; trivial
  | pushRead info i w =>
    simp only [VariableBuffer.flushStep, if_neg own.pushRead_ne] at hs
    subst hs
    trivial
  | pushCopy info i w => subst hs; trivial
  | pushStore info i w => subst hs; trivial
  | setCurrent info i => subst hs; trivial
  | callback info => cases caller <;> subst hs <;> trivial

/-- A step that leaves the producer and what it looks at alone. -/
theorem frame (inv : Warned b hist s) (hp : s'.producer = s.producer)
    (hpool : s'.vb.queue.blockPool = s.vb.queue.blockPool)
    (hread : s'.vb.queue.writeQueue.read = s.vb.queue.writeQueue.read)
    (hcur : s.producer.published = false → s'.vb.current.valid = s.vb.current.valid) :
    Warned b (hist ++ [s']) s' := by
  obtain ⟨vb, p, c⟩ := s
  obtain ⟨vb', p', c'⟩ := s'
  simp only at hp hpool hread hcur
  subst hp
  cases p' with
  | flushing caller pc =>
    cases pc with
    | allRead info w =>
      have hv := hcur rfl
      intro data hd hw hnil
      simp only [SinceStarved, hv]
      exact (inv data hd (hread ▸ hw) (hpool ▸ hnil)).snoc ⟨.inl ⟨info, w, by rw [hd]⟩, hv⟩
    | allCopy info r count todo => exact inv
    | takeBlock info =>
      have hv := hcur rfl
      intro data hd hnil
      simp only [SinceStarved, hv]
      exact (inv data hd (hpool ▸ hnil)).snoc ⟨.inr (.inl ⟨info, by rw [hd]⟩), hv⟩
    | _ => trivial
  | resetting data ok =>
    cases ok with
    | true => trivial
    | false =>
      have hv := hcur rfl
      simp only [Warned, SinceStarved, hv]
      exact Since.snoc inv ⟨.inr (.inr rfl), hv⟩
  | _ => trivial

theorem producerStep (inv : Warned b hist s) (own : Owned s) (ord : Ordered b tr s)
    (hlast : ∃ pre, hist = pre ++ [s]) (hm : s.vb.bufferMode = .producerConsumer)
    (h : s.producerStep = some (s', es)) : Warned b (hist ++ [s']) s' := by
  obtain ⟨vb, p, c⟩ := s
  cases p with
  | idle => cases h
  | thrown what => cases h
  | crashed => cases h
  | adding data =>
    simp only [Threads.producerStep] at h
    split_ifs at h with hsize
    · cases h
      trivial
    · cases hadd : vb.current.add data <;> rw [hadd] at h <;> cases h <;> trivial
  | flushing caller pc =>
    cases h
    exact inv.flushStep own ord hlast hm rfl
  | resetting data ok =>
    cases h
    trivial

theorem step {a : Act α} (inv : Warned b hist s) (own : Owned s) (ord : Ordered b tr s)
    (hlast : ∃ pre, hist = pre ++ [s]) (hm : s.vb.bufferMode = .producerConsumer)
    (h : s.step a = some (s', es)) : Warned b (hist ++ [s']) s' := by
  obtain ⟨vb, p, c⟩ := s
  cases a with
  | callAddElem data => cases p <;> cases h; trivial
  | callFlushToQueue => cases p <;> cases h; trivial
  | producer => exact inv.producerStep own ord hlast hm h
  | callReadBlock =>
    cases c with
    | idle =>
      have hm : vb.bufferMode = .producerConsumer := hm
      simp only [Threads.step, hm] at h
      cases h
      exact inv.frame rfl rfl rfl fun _ => rfl
    | _ => cases h
  | consumer =>
    have hf := consumerStep_frame h
    refine inv.frame hf.producer hf.pool hf.writeQueue fun hpub => ?_
    have hmem : some vb.currentBlock ∈ Threads.owns ⟨vb, p, c⟩ .producer :=
      Producer.current_mem_holds hpub _
    have hc := own.apart .consumer (by decide) hmem
    rw [VariableBuffer.current, hf.currentBlock, hf.block _ hc]
    rfl

end Warned

/-- What holds along every run in `producer_consumer` mode. -/
structure Kept (b : ℕ) (hist : List (Threads α)) (tr : List (Event α)) (s : Threads α) : Prop where
  mode : s.vb.bufferMode = .producerConsumer
  owned : Owned s
  ordered : Ordered b tr s
  warned : Warned b hist s
  lengths : ∀ run ∈ discarded tr, run.length = b

theorem flushStep_mode (vb : VariableBuffer α) (pc : FlushPc) :
    (vb.flushStep pc : _ × _ × List (Event α)).1.bufferMode = vb.bufferMode := by
  fun_cases VariableBuffer.flushStep vb pc <;> rfl

theorem producerStep_mode {s s' : Threads α} {es : List (Event α)}
    (h : s.producerStep = some (s', es)) : s'.vb.bufferMode = s.vb.bufferMode := by
  obtain ⟨vb, p, c⟩ := s
  cases p with
  | adding data =>
    simp only [Threads.producerStep] at h
    split_ifs at h with hsize
    · cases h
      rfl
    · cases hadd : vb.current.add data <;> rw [hadd] at h <;> cases h <;> rfl
  | flushing caller pc =>
    cases h
    exact flushStep_mode vb pc
  | resetting data ok => cases h; rfl
  | _ => cases h

/-- No call of either thread changes the mode. -/
theorem step_mode {s s' : Threads α} {es : List (Event α)} {a : Act α}
    (h : s.step a = some (s', es)) : s'.vb.bufferMode = s.vb.bufferMode := by
  obtain ⟨vb, p, c⟩ := s
  cases a with
  | callAddElem data => cases p <;> cases h; rfl
  | callFlushToQueue => cases p <;> cases h; rfl
  | producer => exact producerStep_mode h
  | callReadBlock =>
    cases c with
    | idle =>
      cases hm : vb.bufferMode <;> simp only [Threads.step, hm] at h <;> cases h <;> exact hm
    | _ => cases h
  | consumer => exact (consumerStep_frame h).mode

/-- Only a step of the producer drops samples. -/
theorem discarded_step {s s' : Threads α} {es : List (Event α)} {a : Act α}
    (h : s.step a = some (s', es)) {run : List (List α)} (hrun : run ∈ discarded es) :
    s.producerStep = some (s', es) := by
  obtain ⟨vb, p, c⟩ := s
  cases a with
  | callAddElem data => cases p <;> cases h; cases hrun
  | callFlushToQueue => cases p <;> cases h; cases hrun
  | producer => exact h
  | callReadBlock =>
    cases c with
    | idle =>
      cases hm : vb.bufferMode <;> simp only [Threads.step, hm] at h <;> cases h <;> cases hrun
    | _ => cases h
  | consumer =>
    cases c with
    | idle => cases h
    | crashed => cases h
    | popRead w =>
      simp only [Threads.step, Threads.consumerStep] at h
      split_ifs at h <;> cases h <;> cases hrun
    | popCopy r =>
      simp only [Threads.step, Threads.consumerStep] at h
      cases hb : vb.queue.readQueue.cell r <;> rw [hb] at h <;> cases h <;> cases hrun
    | pushRead i data valid w =>
      simp only [Threads.step, Threads.consumerStep] at h
      split_ifs at h <;> cases h <;> cases hrun
    | _ => cases h; cases hrun

theorem Kept.step {b : ℕ} {hist : List (Threads α)} {tr es : List (Event α)} {s s' : Threads α}
    {a : Act α} (k : Kept b hist tr s) (hlast : ∃ pre, hist = pre ++ [s])
    (h : s.step a = some (s', es)) : Kept b (hist ++ [s']) (tr ++ es) s' := by
  refine ⟨(step_mode h).trans k.mode, (k.owned.step h).1, k.ordered.step k.owned k.mode h,
    k.warned.step k.owned k.ordered hlast k.mode h, fun run hrun => ?_⟩
  rw [discarded_append, List.mem_append] at hrun
  rcases hrun with hrun | hrun
  · exact k.lengths run hrun
  · exact (k.ordered.of_discarded (discarded_step h hrun) hrun).1

theorem Kept.run {rows cols b : ℕ} {hist : List (Threads α)} {tr : List (Event α)}
    {s : Threads α} (h : (threads α rows cols b .producerConsumer).Run hist tr s) :
    Kept b hist tr s := by
  refine h.inv_hist (fun s hs => ?_) ?_
  · have ord := Ordered.init hs
    have own := Owned.init hs
    obtain ⟨name, hb, storage, callback, rfl⟩ := hs
    exact ⟨rfl, own, ord, trivial, nofun⟩
  · rintro hist tr s es s' hr k ⟨a, ha⟩
    exact k.step hr.last ha

/-- A block is dropped by an `add_elem` that has been starved. -/
theorem Kept.since_starved {b : ℕ} {hist : List (Threads α)} {tr es : List (Event α)}
    {s s' : Threads α} {a : Act α} (k : Kept b hist tr s) (h : s.step a = some (s', es))
    {run : List (List α)} (hrun : run ∈ discarded es) :
    ∃ data, s.producer = .resetting data false ∧
      Since (Starved b run data) (Dropping run data) hist := by
  obtain ⟨-, hrun, data, hp⟩ := k.ordered.of_discarded (discarded_step h hrun) hrun
  refine ⟨data, hp, ?_⟩
  have := k.warned
  simp only [Warned, hp] at this
  rw [hrun]
  exact this

/-- In a quiescent state the samples that `read_block` has returned, those in the
read queue and those in the current block are the accepted ones, in order, less
some full blocks. A block is dropped by an `add_elem` that has seen neither the
pool nor the write queue hold a block. -/
theorem bounded_loss {rows cols b : ℕ} {hist : List (Threads α)} {tr : List (Event α)}
    {s : Threads α} (h : (threads α rows cols b .producerConsumer).Run hist tr s) :
    (s.producer = .idle → s.consumer = .idle →
      Lossy (discarded tr) (accepted tr)
        (delivered tr ++ samplesOf s.vb.block s.vb.queue.readQueue.content ++
          s.vb.current.valid)) ∧
    (delivered tr).Sublist (accepted tr) ∧
    (∀ run ∈ discarded tr, run.length = b) ∧
    ∀ s' es run, (threads α rows cols b .producerConsumer).step s es s' → run ∈ discarded es →
      ∃ data, s.producer = .resetting data false ∧
        Since (Starved b run data) (Dropping run data) hist := by
  have k := Kept.run h
  have hm := k.mode
  have hl := k.ordered.ledger.lossy
  refine ⟨fun hp hc => ?_, ?_, k.lengths, ?_⟩
  · have hq : s.queued = samplesOf s.vb.block s.vb.queue.readQueue.content := by
      simp only [Threads.queued, Threads.rqLive, Threads.rqPop, hm, hc]
      rfl
    have hf : s.filling = s.vb.current.valid := by
      simp only [Threads.filling, hp]
      rfl
    rwa [hq, hf] at hl
  · refine List.Sublist.trans ?_ hl.sublist
    rw [List.append_assoc]
    exact List.sublist_append_left _ _
  · rintro s' es run ⟨a, ha⟩ hrun
    exact k.since_starved ha hrun

def scalar (x : ℕ) : Eigen.MatrixXd ℕ := ⟨1, 1, [x], List.length_singleton⟩

/-- Fill all blocks with one sample each, add one more, then read one block. -/
def overfill : List (Act ℕ) :=
  let add (k steps : ℕ) : List (Act ℕ) :=
    .callAddElem (scalar k) :: List.replicate steps .producer
  add 0 1 ++ ((List.range 19).flatMap fun k => add (k + 1) 15) ++ add 20 9 ++
    .callReadBlock :: List.replicate 11 .consumer

def scalarMemory : Memory ℕ (1 * 1) 1 := ⟨[[0]], by decide⟩

/-- A new variable for scalars, with blocks of one. -/
def scalarThreads : Threads ℕ :=
  Threads.start [] 1 1 1 Nat.one_pos (fun _ => scalarMemory) .producerConsumer false

theorem scalarThreads_init : (threads ℕ 1 1 1 .producerConsumer).init scalarThreads :=
  ⟨[], Nat.one_pos, _, false, rfl⟩

/-- Neither thread is inside a call. -/
def Threads.outside (s : Threads α) : Bool :=
  match s.producer, s.consumer with
  | .idle, .idle => true
  | _, _ => false

theorem Threads.outside_iff {s : Threads α} :
    s.outside = true ↔ s.producer = .idle ∧ s.consumer = .idle := by
  obtain ⟨vb, p, c⟩ := s
  cases p <;> cases c <;> simp [outside]

theorem exec_overfill : ∃ s es, exec Threads.step scalarThreads overfill = some (s, es) ∧
    discarded es = [[[19]]] ∧ delivered es = [[0]] ∧ s.producer = .idle ∧ s.consumer = .idle := by
  have hex : ((exec Threads.step scalarThreads overfill).map fun p =>
      (discarded p.2, delivered p.2, p.1.outside)) = some ([[[19]]], [[0]], true) := by
    decide +kernel
  obtain ⟨⟨s, es⟩, h, hs⟩ := Option.map_eq_some_iff.mp hex
  simp only [Prod.mk.injEq] at hs
  obtain ⟨hdis, hdel, hidle⟩ := hs
  obtain ⟨hp, hc⟩ := Threads.outside_iff.mp hidle
  exact ⟨s, es, h, hdis, hdel, hp, hc⟩

theorem bounded_loss_overfill : ∃ hist tr s,
    (threads ℕ 1 1 1 .producerConsumer).Run hist tr s ∧ discarded tr = [[[19]]] ∧
      delivered tr = [[0]] ∧ Lossy (discarded tr) (accepted tr)
        (delivered tr ++ samplesOf s.vb.block s.vb.queue.readQueue.content ++ s.vb.current.valid) := by
  obtain ⟨s, es, h, hdis, hdel, hp, hc⟩ := exec_overfill
  obtain ⟨hist, hr⟩ := threads_run_exec scalarThreads_init h
  exact ⟨hist, es, s, hr, hdis, hdel, (bounded_loss hr).1 hp hc⟩

end XBot
