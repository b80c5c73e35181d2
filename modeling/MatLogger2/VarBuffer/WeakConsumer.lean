import MatLogger2.VarBuffer.WeakProducer

/-! Each step of the consumer under release and acquire. -/

namespace XBot

open Spsc Transition RelAcq

variable {α : Type}

namespace Informed

variable {base : Queue → Index} {logs : Loc → Log Thread} {m m' : Mem} {vb vb' : VariableBuffer α}
  {p : Producer α} {c c' : Consumer α} {th : Threads α} {evs : List (Event α)} {ops : List MemOp}
  {n : ℕ}

/-- The consumer goes on, claims no more and holds the same. -/
theorem consumerQuiet (inf : Informed base logs m ⟨vb, p, c⟩) (hq : vb'.queue = vb.queue)
    (hcur : vb'.currentBlock = vb.currentBlock) (hf : c'.wqPush.filled = c.wqPush.filled)
    (ht : c'.rqPop.taken = c.rqPop.taken)
    (hd : c'.rqPop.found vb.queue.readQueue ≤ c.rqPop.found vb.queue.readQueue)
    (hh : c'.holds = c.holds) : Informed base logs m ⟨vb', p, c'⟩ := by
  refine inf.quiet (fun q => ?_) (fun q => ?_) (fun q => ?_) (fun q => ?_) (fun t => ?_) ?_
  · simp only [hq]
  · cases q with
    | readQueue => simp only [Threads.pushView, hcur]
    | writeQueue => exact hf
  · cases q with
    | readQueue => exact ht
    | writeQueue => rfl
  · cases q with
    | readQueue => exact hd
    | writeQueue => exact le_rfl
  · cases t with
    | producer =>
      simp only [Threads.hold, Threads.producerHolds, hq, hcur]
      exact List.Subset.refl _
    | consumer =>
      show c'.holds ⊆ c.holds
      rw [hh]
      exact List.Subset.refl _
  · exact congrArg List.length hh

theorem steppedConsumer (inf : Informed base logs m ⟨vb, p, c⟩) (own : Owned ⟨vb, p, c⟩)
    (hm : vb.bufferMode = .producerConsumer) {a : Act α}
    (hstep : Threads.step ⟨vb, p, c⟩ a = some (th, evs)) (hp : performAll .consumer m [] = some m')
    (hinf : Informed base logs m ⟨vb, p, c⟩ → Informed base logs m th) :
    Stepped base m ⟨vb, p, c⟩ .consumer evs [] m' th := by
  obtain rfl := performAll_nil.mp hp
  exact stepped_of_step own hm hstep ⟨logs, hinf inf⟩ performed_nil

/-- The consumer accesses the block that it holds. -/
theorem steppedBlock {b : BlockId} (inf : Informed base logs m ⟨vb, p, c⟩) (own : Owned ⟨vb, p, c⟩)
    (hm : vb.bufferMode = .producerConsumer)
    (hstep : Threads.step ⟨vb, p, c⟩ .consumer = some (th, evs)) (hb : some b ∈ c.holds)
    (hidle : c.wqPush.filled = 0) (hp : performAll .consumer m [.touch (.block b)] = some m')
    (hinf : Informed base logs m' ⟨vb, p, c⟩ → Informed base logs m' th) :
    Stepped base m ⟨vb, p, c⟩ .consumer evs [.touch (.block b)] m' th := by
  have hp := performAll_singleton.mp hp
  have inf' : Informed base logs m' ⟨vb, p, c⟩ := by
    refine inf.touchBlock own hm hb (fun q hq => ?_) hp
    cases q with
    | readQueue => cases hq
    | writeQueue => exact hidle
  exact stepped_of_step own hm hstep ⟨logs, hinf inf'⟩
    (performed_snoc hp (inf.custody .consumer b hb))

/-- The write index that `consume_one` loads may be old, but shows blocks that are there. -/
theorem popWrite (inf : Informed base logs m ⟨vb, p, .popWrite⟩) (own : Owned ⟨vb, p, .popWrite⟩)
    (hm : vb.bufferMode = .producerConsumer)
    (h : Weak.act ⟨⟨vb, p, .popWrite⟩, m⟩ .consumer n = some ((th, evs), ops))
    (hp : performAll .consumer m ops = some m') :
    Stepped base m ⟨vb, p, .popWrite⟩ .consumer evs ops m' th := by
  obtain ⟨store, hv, hsee, rfl⟩ := Weak.act_load rfl h
  have hp := performAll_singleton.mp hp
  obtain ⟨x, hx, hx', hle, hknown, hgap⟩ := inf.loadWrite (q := .readQueue) hv hp
  obtain ⟨rfl, rfl⟩ : th = ⟨vb, p, .popRead store.value⟩ ∧ evs = [] := by
    cases hsee
    exact ⟨rfl, rfl⟩
  refine ⟨?_, hm, by simp, fun b tr ord => ?_, fun b tr ord => by simp [discarded], ⟨logs, ?_⟩,
    performed_snoc hp trivial⟩
  · exact own.readLoad hm _ (.refl _) hgap trivial rfl
  · refine ord.consumerQuiet silent_nil ?_ trivial
    simp only [Threads.rqLive, Owned.rqPop_consumer hm]
    rfl
  · rw [hx']
    refine (inf.load hp).found hx hle hknown (fun _ => rfl) (fun q => ?_) rfl rfl (fun q hq => ?_)
      (fun t => ?_) rfl
    · cases q <;> rfl
    · cases q with
      | readQueue => exact absurd rfl hq
      | writeQueue => rfl
    · cases t <;> exact List.Subset.refl _

theorem popRead {w : Index} (inf : Informed base logs m ⟨vb, p, .popRead w⟩)
    (own : Owned ⟨vb, p, .popRead w⟩) (hm : vb.bufferMode = .producerConsumer)
    (h : Weak.act ⟨⟨vb, p, .popRead w⟩, m⟩ .consumer n = some ((th, evs), ops))
    (hp : performAll .consumer m ops = some m') :
    Stepped base m ⟨vb, p, .popRead w⟩ .consumer evs ops m' th := by
  obtain ⟨hstep, rfl⟩ := Weak.act_plain rfl h
  refine inf.steppedConsumer own hm hstep hp fun inf => ?_
  simp only [Threads.step, Threads.consumerStep] at hstep
  split_ifs at hstep with he
  · cases hstep
    exact inf.consumerQuiet rfl rfl rfl rfl (Nat.zero_le _) rfl
  · cases hstep
    refine inf.consumerQuiet rfl rfl rfl rfl ?_ rfl
    exact Nat.one_le_iff_ne_zero.mpr fun h0 => he (gap_eq_zero.mp h0)

/-- A block that has been found may be taken, and accessed from then on. -/
theorem popCopy {r : Index} (inf : Informed base logs m ⟨vb, p, .popCopy r⟩)
    (own : Owned ⟨vb, p, .popCopy r⟩) (hm : vb.bufferMode = .producerConsumer)
    (h : Weak.act ⟨⟨vb, p, .popCopy r⟩, m⟩ .consumer n = some ((th, evs), ops))
    (hp : performAll .consumer m ops = some m') :
    Stepped base m ⟨vb, p, .popCopy r⟩ .consumer evs ops m' th := by
  obtain ⟨hstep, rfl⟩ := Weak.act_plain rfl h
  have hp := performAll_singleton.mp hp
  obtain ⟨rfl, hne⟩ : r = vb.queue.readQueue.read ∧ vb.queue.readQueue.content ≠ [] :=
    own.popView_ok hm .readQueue
  have hpos : 0 < vb.queue.readQueue.content.length := List.length_pos_iff.mpr hne
  have hclear := ((inf.rings .readQueue).take_clear Nat.zero_lt_one hpos).1
  have hzero : offset vb.queue.readQueue.read 0 = vb.queue.readQueue.read := offset_zero _
  refine stepped_of_step own hm hstep ⟨logs, ?_⟩ (performed_snoc hp (hzero ▸ hclear))
  simp only [Threads.step, Threads.consumerStep] at hstep
  cases hcell : vb.queue.readQueue.cell vb.queue.readQueue.read with
  | none => exact absurd hcell (own.not_null_ready (Owned.rqPop_consumer hm))
  | some b =>
    rw [hcell] at hstep
    cases hstep
    refine inf.take (q := .readQueue) (x := some b) Nat.zero_lt_one hpos ?_ ?_ (fun _ => rfl)
      (fun q => ?_) rfl le_rfl (fun q hq => ?_) (fun t y hy => ?_) rfl
    · exact hcell.symm.trans (congrArg vb.queue.readQueue.cell hzero.symm)
    · exact (congrArg (fun i => m.perform Loc.writer .consumer (.touch (.cell .readQueue i)))
        hzero).trans hp
    · cases q <;> rfl
    · cases q with
      | readQueue => exact absurd rfl hq
      | writeQueue => rfl
    · cases t with
      | producer => exact .inl hy
      | consumer => exact .inr ⟨rfl, List.mem_singleton.mp hy⟩

theorem popStore {r : Index} {b : BlockId} (inf : Informed base logs m ⟨vb, p, .popStore r b⟩)
    (own : Owned ⟨vb, p, .popStore r b⟩) (hm : vb.bufferMode = .producerConsumer)
    (h : Weak.act ⟨⟨vb, p, .popStore r b⟩, m⟩ .consumer n = some ((th, evs), ops))
    (hp : performAll .consumer m ops = some m') :
    Stepped base m ⟨vb, p, .popStore r b⟩ .consumer evs ops m' th := by
  obtain ⟨hstep, rfl⟩ := Weak.act_plain rfl h
  have hp := performAll_singleton.mp hp
  have hok := own.popView_ok hm .readQueue
  have hle : 1 ≤ vb.queue.readQueue.content.length := PopView.taken_le hok
  obtain ⟨rfl, -⟩ : r = vb.queue.readQueue.read ∧ _ := hok
  cases hstep
  have inf' : Informed base (logStore logs ⟨.readQueue, .read⟩ 1 (m.clock .consumer)) m'
      ⟨{ vb with queue := { vb.queue with readQueue :=
        { vb.queue.readQueue with read := Boost.nextIndex vb.queue.readQueue.read } } }, p,
        .copyData b⟩ := by
    refine inf.advance (q := .readQueue) hle rfl rfl le_rfl rfl hp rfl (fun q hq => ?_) (fun q => ?_)
      (fun q hq => ?_) (fun t => ?_) rfl
    · cases q with
      | readQueue => exact absurd rfl hq
      | writeQueue => rfl
    · cases q <;> rfl
    · cases q with
      | readQueue => exact absurd rfl hq
      | writeQueue => rfl
    · cases t <;> exact List.Subset.refl _
  exact stepped_of_step (a := .consumer) own hm rfl ⟨_, inf'⟩ (performed_snoc hp trivial)

/-- A consumer with a block in its hands has taken one more than it has given back. -/
theorem taken_eq (inf : Informed base logs m ⟨vb, p, c⟩) (hh : c.holds.length = 1)
    (ht : c.rqPop.taken = 0) :
    place (logs ⟨.readQueue, .read⟩) = place (logs ⟨.writeQueue, .write⟩) + 1 := by
  have hcount := inf.count
  simp only [Threads.popView, hh, ht] at hcount
  omega

theorem readPushRead {b : BlockId} {data : List (List α)} {valid : ℕ} {w : Index}
    (inf : Informed base logs m ⟨vb, p, .pushRead b data valid w⟩)
    (own : Owned ⟨vb, p, .pushRead b data valid w⟩) (hm : vb.bufferMode = .producerConsumer)
    (h : Weak.act ⟨⟨vb, p, .pushRead b data valid w⟩, m⟩ .consumer n = some ((th, evs), ops))
    (hp : performAll .consumer m ops = some m') :
    Stepped base m ⟨vb, p, .pushRead b data valid w⟩ .consumer evs ops m' th := by
  obtain ⟨store, hv, hsee, rfl⟩ := Weak.act_load rfl h
  have hp := performAll_singleton.mp hp
  have hplace := inf.taken_eq rfl rfl
  have hw : w = vb.queue.writeQueue.write := own.wqPush
  have hblocks : NUM_BLOCKS = 20 := rfl
  have hne : Boost.nextIndex w ≠ store.value :=
    hw ▸ inf.loadRead (q := .writeQueue) hv inf.consumer_knows (by omega)
  obtain ⟨rfl, rfl⟩ : th = ⟨vb, p, .pushCopy b data valid w⟩ ∧ evs = [] := by
    have hread : Threads.consumerStep
        ⟨{ vb with queue := vb.queue.setIndex ⟨.writeQueue, .read⟩ store.value }, p,
          .pushRead b data valid w⟩ =
        some (⟨{ vb with queue := vb.queue.setIndex ⟨.writeQueue, .read⟩ store.value }, p,
          .pushCopy b data valid w⟩, []) := if_neg hne
    simp only [Threads.stepSeeing, Threads.setIndex, Threads.step, hread] at hsee
    cases hsee
    exact ⟨rfl, rfl⟩
  refine ⟨?_, hm, by simp, fun b tr ord => ?_, fun b tr ord => by simp [discarded], ⟨logs, ?_⟩,
    performed_snoc hp trivial⟩
  · exact own.readLoad hm _ (.refl _) trivial own.wqPush rfl
  · refine ord.consumerQuiet silent_nil ?_ trivial
    simp only [Threads.rqLive, Owned.rqPop_consumer hm]
    rfl
  · exact (inf.load hp).consumerQuiet rfl rfl rfl rfl le_rfl rfl

theorem readPushCopy {b : BlockId} {data : List (List α)} {valid : ℕ} {w : Index}
    (inf : Informed base logs m ⟨vb, p, .pushCopy b data valid w⟩)
    (own : Owned ⟨vb, p, .pushCopy b data valid w⟩) (hm : vb.bufferMode = .producerConsumer)
    (h : Weak.act ⟨⟨vb, p, .pushCopy b data valid w⟩, m⟩ .consumer n = some ((th, evs), ops))
    (hp : performAll .consumer m ops = some m') :
    Stepped base m ⟨vb, p, .pushCopy b data valid w⟩ .consumer evs ops m' th := by
  obtain ⟨hstep, rfl⟩ := Weak.act_plain rfl h
  have hp := performAll_singleton.mp hp
  obtain rfl : w = vb.queue.writeQueue.write := own.wqPush
  have hplace := inf.taken_eq rfl rfl
  have hblocks : NUM_BLOCKS = 20 := rfl
  -- the cell was given back a round ago, which the consumer knows
  have hclear : m.touched (.cell .writeQueue vb.queue.writeQueue.write) ≤ m.clock .consumer :=
    (inf.rings .writeQueue).fill_clear rfl
      (inf.consumer_knows.mono (by simp only [sides]; omega) le_rfl)
  cases hstep
  have hmem : some b ∈ Threads.hold
      ⟨vb, p, .pushCopy b data valid vb.queue.writeQueue.write⟩ .consumer := List.mem_singleton.mpr rfl
  refine stepped_of_step (a := .consumer) own hm rfl ⟨logs, ?_⟩ (performed_snoc hp hclear)
  refine inf.fill own hm (q := .writeQueue) hmem rfl rfl hclear hp rfl (fun q hq => ?_)
    (fun q hq => ?_) (fun q => ?_) (fun t => ?_) rfl
  · cases q with
    | readQueue => rfl
    | writeQueue => exact absurd rfl hq
  · cases q with
    | readQueue => rfl
    | writeQueue => exact absurd rfl hq
  · cases q <;> rfl
  · cases t <;> exact List.Subset.refl _

theorem readPushStore {b : BlockId} {data : List (List α)} {valid : ℕ} {w : Index}
    (inf : Informed base logs m ⟨vb, p, .pushStore b data valid w⟩)
    (own : Owned ⟨vb, p, .pushStore b data valid w⟩) (hm : vb.bufferMode = .producerConsumer)
    (h : Weak.act ⟨⟨vb, p, .pushStore b data valid w⟩, m⟩ .consumer n = some ((th, evs), ops))
    (hp : performAll .consumer m ops = some m') :
    Stepped base m ⟨vb, p, .pushStore b data valid w⟩ .consumer evs ops m' th := by
  obtain ⟨hstep, rfl⟩ := Weak.act_plain rfl h
  have hp := performAll_singleton.mp hp
  obtain ⟨rfl, -⟩ : w = vb.queue.writeQueue.write ∧ _ := own.wqPush
  have hplace := inf.taken_eq rfl rfl
  have hreturned : Reached (logs ⟨.readQueue, .read⟩) (place (logs ⟨.writeQueue, .write⟩) + 1)
      (m.clock .consumer) := (inf.rings .readQueue).read.reached (by simp only [sides]; omega)
  cases hstep
  have inf' : Informed base (logStore logs ⟨.writeQueue, .write⟩ 1 (m.clock .consumer)) m'
      ⟨{ vb with queue := { vb.queue with writeQueue :=
        { vb.queue.writeQueue with write := Boost.nextIndex vb.queue.writeQueue.write } } }, p,
        .idle⟩ := by
    refine inf.publish (q := .writeQueue) (own.wq_room rfl) rfl rfl rfl hp rfl (fun q hq => ?_)
      (fun q hq => ?_) (fun q => ?_) (fun t => ?_) (fun _ => hreturned) (fun h => by cases h) rfl
    · cases q with
      | readQueue => rfl
      | writeQueue => exact absurd rfl hq
    · cases q with
      | readQueue => rfl
      | writeQueue => exact absurd rfl hq
    · cases q <;> rfl
    · cases t with
      | producer => exact List.Subset.refl _
      | consumer => exact List.nil_subset _
  exact stepped_of_step (a := .consumer) own hm rfl ⟨_, inf'⟩ (performed_snoc hp trivial)

/-- Every step of the consumer. -/
theorem consumer {s : Threads α} {a : Act α} (inf : Informed base logs m s) (own : Owned s)
    (hm : s.vb.bufferMode = .producerConsumer) (ha : a.thread = .consumer)
    (h : Weak.act ⟨s, m⟩ a n = some ((th, evs), ops)) (hp : performAll .consumer m ops = some m') :
    Stepped base m s .consumer evs ops m' th := by
  obtain ⟨vb, p, c⟩ := s
  cases a with
  | callAddElem data => cases ha
  | callFlushToQueue => cases ha
  | producer => cases ha
  | callReadBlock =>
    obtain ⟨hstep, rfl⟩ := Weak.act_plain rfl h
    refine inf.steppedConsumer own hm hstep hp fun inf => ?_
    cases c with
    | idle =>
      have hm : vb.bufferMode = .producerConsumer := hm
      simp only [Threads.step, hm] at hstep
      cases hstep
      exact inf.consumerQuiet rfl rfl rfl rfl le_rfl rfl
    | _ => cases hstep
  | consumer =>
    cases c with
    | idle => cases h
    | crashed => cases h
    | popWrite => exact inf.popWrite own hm h hp
    | popRead w => exact inf.popRead own hm h hp
    | popCopy r => exact inf.popCopy own hm h hp
    | popStore r b => exact inf.popStore own hm h hp
    | copyData b =>
      obtain ⟨hstep, rfl⟩ := Weak.act_plain rfl h
      cases hstep
      exact inf.steppedBlock own hm rfl (List.mem_singleton.mpr rfl) rfl hp fun inf =>
        inf.consumerQuiet rfl rfl rfl rfl le_rfl rfl
    | copyValid b data =>
      obtain ⟨hstep, rfl⟩ := Weak.act_plain rfl h
      cases hstep
      exact inf.steppedBlock own hm rfl (List.mem_singleton.mpr rfl) rfl hp fun inf =>
        inf.consumerQuiet rfl rfl rfl rfl le_rfl rfl
    | reset b data valid =>
      obtain ⟨hstep, rfl⟩ := Weak.act_plain rfl h
      cases hstep
      exact inf.steppedBlock own hm rfl (List.mem_singleton.mpr rfl) rfl hp fun inf =>
        inf.consumerQuiet rfl rfl rfl rfl le_rfl rfl
    | pushWrite b data valid =>
      obtain ⟨hstep, rfl⟩ := Weak.act_plain rfl h
      refine inf.steppedConsumer own hm hstep hp fun inf => ?_
      cases hstep
      exact inf.consumerQuiet rfl rfl rfl rfl le_rfl rfl
    | pushRead b data valid w => exact inf.readPushRead own hm h hp
    | pushCopy b data valid w => exact inf.readPushCopy own hm h hp
    | pushStore b data valid w => exact inf.readPushStore own hm h hp

end Informed
end XBot
