import MatLogger2.VarBuffer.Informed
import MatLogger2.VarBuffer.Loss

/-! Each step of the producer under release and acquire: what it touches is its own by then, the
indices it may see are recent enough, and it leaves the samples in order. -/

namespace XBot

open Spsc Transition RelAcq

variable {α : Type}

/-- What a step of thread `t` must do: keep the owners apart and the samples in order, access
nothing that the other thread may be accessing, and keep the threads informed. -/
structure Stepped (base : Queue → Index) (m : Mem) (s : Threads α) (t : Thread)
    (evs : List (Event α)) (ops : List MemOp) (m' : Mem) (s' : Threads α) : Prop where
  owned : Owned s'
  mode : s'.vb.bufferMode = .producerConsumer
  lost : ∀ i, Event.lost i ∉ evs
  ordered : ∀ b tr, Ordered b tr s → Ordered b (tr ++ evs) s'
  full : ∀ b tr, Ordered b tr s → ∀ run ∈ discarded evs, run.length = b
  informed : ∃ logs, Informed base logs m' s'
  performed : ∀ v tr, Performed Loc.writer v tr m →
    Performed Loc.writer v (tr ++ ops.map fun o => (t, o)) m'

namespace Weak

variable {s : Threads α} {m : Mem} {a : Act α} {n : ℕ} {th : Threads α} {evs : List (Event α)}
  {ops : List MemOp}

/-- A step that loads no index of the other thread is a step of the threads. -/
theorem act_plain (hl : s.loads a = none)
    (h : Weak.act ⟨s, m⟩ a n = some ((th, evs), ops)) : s.step a = some (th, evs) ∧
      ops = (s.touches a).toList.map Op.touch ++
        (s.stores a).toList.map fun l => .store l (th.vb.queue.index l) := by
  simp only [Weak.act, hl, Option.map_eq_some_iff] at h
  obtain ⟨p, hp, he⟩ := h
  obtain ⟨rfl, rfl⟩ := Prod.mk.inj he
  exact ⟨hp, rfl⟩

theorem act_load {l : Loc} {acquire : Bool} (hl : s.loads a = some (l, acquire))
    (h : Weak.act ⟨s, m⟩ a n = some ((th, evs), ops)) :
    ∃ store, m.visible Loc.writer a.thread l n = some store ∧
      s.stepSeeing l store.value a = some (th, evs) ∧
      ops = (s.touches a).toList.map Op.touch ++ [.load l n acquire] := by
  simp only [Weak.act, hl, Option.bind_eq_some_iff, Option.map_eq_some_iff] at h
  obtain ⟨store, hv, p, hp, he⟩ := h
  obtain ⟨rfl, rfl⟩ := Prod.mk.inj he
  exact ⟨store, hv, hp, rfl⟩

end Weak

section Performed

variable {m m₁ m' : Mem} {t : Thread} {o o' : MemOp}

/-- The operations of a step, one after the other, each cleared. -/
theorem performed_snoc (hp : m.perform Loc.writer t o = some m') (hc : m.Clear t o)
    (v : Loc → Index) (tr : RelAcq.Trace Thread Loc Datum Index) (h : Performed Loc.writer v tr m) :
    Performed Loc.writer v (tr ++ [o].map fun o => (t, o)) m' := h.next hc hp

theorem performed_snoc_two (hp : m.perform Loc.writer t o = some m₁) (hc : m.Clear t o)
    (hp' : m₁.perform Loc.writer t o' = some m') (hc' : m₁.Clear t o') (v : Loc → Index)
    (tr : RelAcq.Trace Thread Loc Datum Index) (h : Performed Loc.writer v tr m) :
    Performed Loc.writer v (tr ++ [o, o'].map fun o => (t, o)) m' := by
  have := (h.next hc hp).next hc' hp'
  rwa [List.append_assoc] at this

theorem performed_nil (v : Loc → Index) (tr : RelAcq.Trace Thread Loc Datum Index)
    (h : Performed Loc.writer v tr m) :
    Performed Loc.writer v (tr ++ ([] : List MemOp).map fun o => (t, o)) m := by
  simpa using h

end Performed

section Step

variable {base : Queue → Index} {logs : Loc → Log Thread} {m m' : Mem} {s s' : Threads α}

/-- A step that sees no stale index is a step of the threads, of which this is known. -/
theorem stepped_of_step {a : Act α} {t : Thread} {evs : List (Event α)} {ops : List MemOp}
    (own : Owned s) (hm : s.vb.bufferMode = .producerConsumer) (h : s.step a = some (s', evs))
    (hi : ∃ logs, Informed base logs m' s')
    (hp : ∀ v tr, Performed Loc.writer v tr m →
      Performed Loc.writer v (tr ++ ops.map fun o => (t, o)) m') :
    Stepped base m s t evs ops m' s' := by
  obtain ⟨own', hlost⟩ := own.step h
  exact ⟨own', (step_mode h).trans hm, hlost, fun b tr ord => ord.step own hm h,
    fun b tr ord run hrun => (ord.of_discarded (discarded_step h hrun) hrun).1, hi, hp⟩

end Step

namespace Informed

variable {base : Queue → Index} {logs : Loc → Log Thread} {m m' : Mem} {vb vb' : VariableBuffer α}
  {p p' : Producer α} {c : Consumer α}

/-- The producer goes on, claims no more and holds no more. -/
theorem producerQuiet (inf : Informed base logs m ⟨vb, p, c⟩) (hq : vb'.queue = vb.queue)
    (hcur : vb'.currentBlock = vb.currentBlock)
    (hf : (p'.rqPush vb.currentBlock).filled = (p.rqPush vb.currentBlock).filled)
    (ht : p'.wqPop.taken = p.wqPop.taken)
    (hd : p'.wqPop.found vb.queue.writeQueue ≤ p.wqPop.found vb.queue.writeQueue)
    (hh : p'.holds vb.currentBlock ⊆ p.holds vb.currentBlock) :
    Informed base logs m ⟨vb', p', c⟩ := by
  refine inf.quiet (fun q => ?_) (fun q => ?_) (fun q => ?_) (fun q => ?_) (fun t => ?_) rfl
  · simp only [hq]
  · cases q with
    | readQueue => simpa only [Threads.pushView, hcur] using hf
    | writeQueue => rfl
  · cases q with
    | readQueue => rfl
    | writeQueue => exact ht
  · cases q with
    | readQueue => exact le_rfl
    | writeQueue => exact hd
  · cases t with
    | producer =>
      simp only [Threads.hold, Threads.producerHolds, hq, hcur]
      exact List.append_subset.mpr
        ⟨List.subset_append_left _ _, List.subset_append_of_subset_right _ hh⟩
    | consumer => exact List.Subset.refl _

/-- The producer accesses a block that it holds, while it has none waiting to be published. -/
theorem touchProducer (inf : Informed base logs m ⟨vb, p, c⟩) (own : Owned ⟨vb, p, c⟩)
    (hm : vb.bufferMode = .producerConsumer) {b : BlockId}
    (hb : some b ∈ vb.queue.blockPool ++ p.holds vb.currentBlock)
    (hidle : (p.rqPush vb.currentBlock).filled = 0)
    (hp : m.perform Loc.writer .producer (.touch (.block b)) = some m') :
    m.Clear .producer (.touch (.block b)) ∧ Informed base logs m' ⟨vb, p, c⟩ := by
  refine ⟨inf.custody .producer b hb, inf.touchBlock own hm hb (fun q hq => ?_) hp⟩
  cases q with
  | readQueue => exact hidle
  | writeQueue => cases hq

section Flush

variable {caller : Option (Eigen.MatrixXd α)} {th : Threads α} {evs : List (Event α)}
  {ops : List MemOp} {n : ℕ}

theorem flushing_step {pc : FlushPc}
    (h : Threads.step ⟨vb, .flushing caller pc, c⟩ .producer = some (th, evs)) :
    th = ⟨(vb.flushStep pc : _ × _ × List (Event α)).1,
      (Threads.afterFlush caller (vb.flushStep pc : _ × _ × List (Event α)).2.1).1, c⟩ := by
  cases h
  rfl

/-- The step of the flush is one of the threads, and all it does to the memory is to access a
block that the producer holds. -/
theorem steppedTouch {p : Producer α} {b : BlockId} (inf : Informed base logs m ⟨vb, p, c⟩)
    (own : Owned ⟨vb, p, c⟩) (hm : vb.bufferMode = .producerConsumer)
    (hstep : Threads.step ⟨vb, p, c⟩ .producer = some (th, evs))
    (hb : some b ∈ vb.queue.blockPool ++ p.holds vb.currentBlock)
    (hidle : (p.rqPush vb.currentBlock).filled = 0)
    (hp : performAll .producer m [.touch (.block b)] = some m')
    (hinf : ∀ logs m', Informed base logs m' ⟨vb, p, c⟩ → Informed base logs m' th) :
    Stepped base m ⟨vb, p, c⟩ .producer evs [.touch (.block b)] m' th := by
  have hp := performAll_singleton.mp hp
  obtain ⟨hclear, inf'⟩ := inf.touchProducer own hm hb hidle hp
  exact stepped_of_step own hm hstep ⟨logs, hinf _ _ inf'⟩ (performed_snoc hp hclear)

theorem steppedQuiet {p : Producer α} (inf : Informed base logs m ⟨vb, p, c⟩)
    (own : Owned ⟨vb, p, c⟩) (hm : vb.bufferMode = .producerConsumer)
    (hstep : Threads.step ⟨vb, p, c⟩ .producer = some (th, evs))
    (hp : performAll .producer m [] = some m')
    (hinf : Informed base logs m ⟨vb, p, c⟩ → Informed base logs m th) :
    Stepped base m ⟨vb, p, c⟩ .producer evs [] m' th := by
  obtain rfl := performAll_nil.mp hp
  exact stepped_of_step own hm hstep ⟨logs, hinf inf⟩ performed_nil

theorem adding {data : Eigen.MatrixXd α} (inf : Informed base logs m ⟨vb, .adding data, c⟩)
    (own : Owned ⟨vb, .adding data, c⟩) (hm : vb.bufferMode = .producerConsumer)
    (h : Weak.act ⟨⟨vb, .adding data, c⟩, m⟩ .producer n = some ((th, evs), ops))
    (hp : performAll .producer m ops = some m') :
    Stepped base m ⟨vb, .adding data, c⟩ .producer evs ops m' th := by
  obtain ⟨hstep, rfl⟩ := Weak.act_plain rfl h
  have hth : ∀ logs m', Informed base logs m' ⟨vb, .adding data, c⟩ → Informed base logs m' th := by
    intro logs m' inf
    simp only [Threads.step, Threads.producerStep] at hstep
    split_ifs at hstep
    · cases hstep
      exact inf.producerQuiet rfl rfl rfl rfl le_rfl (List.Subset.refl _)
    · cases hadd : vb.current.add data <;> rw [hadd] at hstep <;> cases hstep <;>
        exact inf.producerQuiet rfl rfl rfl rfl le_rfl (List.Subset.refl _)
  by_cases hsize : data.size = vb.rows * vb.cols
  · have hops : (Threads.touches ⟨vb, .adding data, c⟩ .producer).toList.map Op.touch ++
        (Threads.stores ⟨vb, .adding data, c⟩ .producer).toList.map
          (fun l => Op.store l (th.vb.queue.index l)) =
        [(.touch (.block vb.currentBlock) : MemOp)] := by
      simp [Threads.touches, Threads.stores, hsize]
    rw [hops] at hp ⊢
    exact inf.steppedTouch own hm hstep (by simp [Producer.holds]) rfl hp hth
  · have hops : (Threads.touches ⟨vb, .adding data, c⟩ .producer).toList.map Op.touch ++
        (Threads.stores ⟨vb, .adding data, c⟩ .producer).toList.map
          (fun l => Op.store l (th.vb.queue.index l)) = ([] : List MemOp) := by
      simp [Threads.touches, Threads.stores, hsize]
    rw [hops] at hp ⊢
    exact inf.steppedQuiet own hm hstep hp (hth _ _)

theorem resetting {data : Eigen.MatrixXd α} {ok : Bool}
    (inf : Informed base logs m ⟨vb, .resetting data ok, c⟩) (own : Owned ⟨vb, .resetting data ok, c⟩)
    (hm : vb.bufferMode = .producerConsumer)
    (h : Weak.act ⟨⟨vb, .resetting data ok, c⟩, m⟩ .producer n = some ((th, evs), ops))
    (hp : performAll .producer m ops = some m') :
    Stepped base m ⟨vb, .resetting data ok, c⟩ .producer evs ops m' th := by
  obtain ⟨hstep, rfl⟩ := Weak.act_plain rfl h
  refine inf.steppedTouch own hm hstep (by simp [Producer.holds]) rfl hp fun logs m' inf => ?_
  cases hstep
  exact inf.producerQuiet rfl rfl rfl rfl le_rfl (List.Subset.refl _)

/-- The room in the read queue may be read from an old index. -/
theorem infoRead {w : Index} (inf : Informed base logs m ⟨vb, .flushing caller (.infoRead w), c⟩)
    (own : Owned ⟨vb, .flushing caller (.infoRead w), c⟩) (hm : vb.bufferMode = .producerConsumer)
    (h : Weak.act ⟨⟨vb, .flushing caller (.infoRead w), c⟩, m⟩ .producer n = some ((th, evs), ops))
    (hp : performAll .producer m ops = some m') :
    Stepped base m ⟨vb, .flushing caller (.infoRead w), c⟩ .producer evs ops m' th := by
  obtain ⟨store, -, hsee, rfl⟩ := Weak.act_load rfl h
  obtain ⟨⟨info, rfl⟩, rfl⟩ :
      (∃ info, th = ⟨vb, .flushing caller (.allWrite info), c⟩) ∧ evs = [] := by
    cases hsee
    exact ⟨⟨_, rfl⟩, rfl⟩
  obtain ⟨m₁, hp₁, hp₂⟩ := performAll_cons.mp hp
  have hp₂ := performAll_singleton.mp hp₂
  obtain ⟨hclear, inf₁⟩ := inf.touchProducer own hm (by simp [Producer.holds]) rfl hp₁
  refine ⟨own.goto rfl rfl rfl rfl rfl rfl trivial, hm, by simp, fun b tr ord => ?_,
    fun b tr ord => by simp [discarded], ⟨logs, ?_⟩, ?_⟩
  · exact ord.producerQuiet silent_nil rfl rfl rfl rfl ord.fills
  · exact (inf₁.load hp₂).producerQuiet rfl rfl rfl rfl le_rfl (List.Subset.refl _)
  · exact performed_snoc_two hp₁ hclear hp₂ trivial

/-- The write index that `consume_all` loads may be old, but shows blocks that are there. -/
theorem allWrite {info : BufferInfo}
    (inf : Informed base logs m ⟨vb, .flushing caller (.allWrite info), c⟩)
    (own : Owned ⟨vb, .flushing caller (.allWrite info), c⟩) (hm : vb.bufferMode = .producerConsumer)
    (h : Weak.act ⟨⟨vb, .flushing caller (.allWrite info), c⟩, m⟩ .producer n = some ((th, evs), ops))
    (hp : performAll .producer m ops = some m') :
    Stepped base m ⟨vb, .flushing caller (.allWrite info), c⟩ .producer evs ops m' th := by
  obtain ⟨store, hv, hsee, rfl⟩ := Weak.act_load rfl h
  have hp := performAll_singleton.mp hp
  obtain ⟨x, hx, hx', hle, hknown, hgap⟩ := inf.loadWrite (q := .writeQueue) hv hp
  obtain ⟨rfl, rfl⟩ : th = ⟨vb, .flushing caller (.allRead info store.value), c⟩ ∧ evs = [] := by
    cases hsee
    exact ⟨rfl, rfl⟩
  refine ⟨?_, hm, by simp, fun b tr ord => ?_, fun b tr ord => by simp [discarded], ⟨logs, ?_⟩,
    performed_snoc hp trivial⟩
  · exact ⟨own.owned, trivial, own.rqPop, own.wqPush, hgap, Nat.zero_le _, own.sound,
      own.circular, nofun, trivial⟩
  · exact ord.producerQuiet silent_nil rfl rfl rfl rfl ord.fills
  · rw [hx']
    refine (inf.load hp).found hx hle hknown (fun _ => rfl) (fun q => ?_) rfl rfl (fun q hq => ?_)
      (fun t => ?_) rfl
    · cases q <;> rfl
    · cases q with
      | readQueue => rfl
      | writeQueue => exact absurd rfl hq
    · cases t <;> exact List.Subset.refl _

theorem allRead {info : BufferInfo} {w : Index}
    (inf : Informed base logs m ⟨vb, .flushing caller (.allRead info w), c⟩)
    (own : Owned ⟨vb, .flushing caller (.allRead info w), c⟩) (hm : vb.bufferMode = .producerConsumer)
    (h : Weak.act ⟨⟨vb, .flushing caller (.allRead info w), c⟩, m⟩ .producer n =
      some ((th, evs), ops))
    (hp : performAll .producer m ops = some m') :
    Stepped base m ⟨vb, .flushing caller (.allRead info w), c⟩ .producer evs ops m' th := by
  obtain ⟨hstep, rfl⟩ := Weak.act_plain rfl h
  refine inf.steppedQuiet own hm hstep hp fun inf => ?_
  rw [flushing_step hstep, VariableBuffer.flushStep]
  split_ifs
  · exact inf.producerQuiet rfl rfl rfl rfl (Nat.zero_le _) (List.Subset.refl _)
  · refine inf.producerQuiet rfl rfl rfl ?_ le_rfl (List.Subset.refl _)
    simp [Threads.afterFlush, Producer.wqPop, PopView.taken, Boost.consumeCells_eq]

theorem allCopy_cons {info : BufferInfo} {r i : Index} {count : ℕ} {todo : List Index}
    (inf : Informed base logs m ⟨vb, .flushing caller (.allCopy info r count (i :: todo)), c⟩)
    (own : Owned ⟨vb, .flushing caller (.allCopy info r count (i :: todo)), c⟩)
    (hm : vb.bufferMode = .producerConsumer)
    (h : Weak.act ⟨⟨vb, .flushing caller (.allCopy info r count (i :: todo)), c⟩, m⟩ .producer n =
      some ((th, evs), ops))
    (hp : performAll .producer m ops = some m') :
    Stepped base m ⟨vb, .flushing caller (.allCopy info r count (i :: todo)), c⟩ .producer evs ops
      m' th := by
  obtain ⟨hstep, rfl⟩ := Weak.act_plain rfl h
  have hp := performAll_singleton.mp hp
  obtain ⟨hi, hlt, hle, hnext⟩ := PopView.bulk_head own.wqPop
  have hclear := ((inf.rings .writeQueue).take_clear hlt (hlt.trans_le hle)).1
  refine stepped_of_step own hm hstep ⟨logs, ?_⟩ (performed_snoc hp (hi ▸ hclear))
  rw [hi] at hp
  rw [flushing_step hstep]
  refine inf.take (q := .writeQueue) hlt (hlt.trans_le hle) rfl hp (fun q => ?_) (fun q => ?_) hnext
    le_rfl (fun q hq => ?_) (fun t y hy => ?_) rfl
  · cases q <;> rfl
  · cases q <;> rfl
  · cases q with
    | readQueue => rfl
    | writeQueue => exact absurd rfl hq
  · cases t with
    | consumer => exact .inl hy
    | producer =>
      simp only [Threads.hold, VariableBuffer.flushStep, List.append_assoc, List.mem_append,
        List.mem_singleton] at hy ⊢
      rcases hy with hy | hy | hy
      · exact .inl (.inl hy)
      · exact .inr ⟨rfl, hi ▸ hy⟩
      · exact .inl (.inr hy)

theorem allCopy_nil {info : BufferInfo} {r : Index} {count : ℕ}
    (inf : Informed base logs m ⟨vb, .flushing caller (.allCopy info r count []), c⟩)
    (own : Owned ⟨vb, .flushing caller (.allCopy info r count []), c⟩)
    (hm : vb.bufferMode = .producerConsumer)
    (h : Weak.act ⟨⟨vb, .flushing caller (.allCopy info r count []), c⟩, m⟩ .producer n =
      some ((th, evs), ops))
    (hp : performAll .producer m ops = some m') :
    Stepped base m ⟨vb, .flushing caller (.allCopy info r count []), c⟩ .producer evs ops m' th := by
  obtain ⟨hstep, rfl⟩ := Weak.act_plain rfl h
  have hp := performAll_singleton.mp hp
  obtain ⟨hr, hle, -⟩ := own.wqPop
  have hth := flushing_step hstep
  have hindex : Boost.newReadIndex r count = offset vb.queue.writeQueue.read count := by
    rw [Boost.newReadIndex_eq, hr]
  have hv : th.vb.queue.index ⟨.writeQueue, .read⟩ = offset vb.queue.writeQueue.read count := by
    rw [hth]
    exact hindex
  have inf' : Informed base (logStore logs ⟨.writeQueue, .read⟩ count (m.clock .producer)) m' th := by
    refine inf.advance (q := .writeQueue) hle hv rfl le_rfl ?_ hp ?_ (fun q hq => ?_) (fun q => ?_)
      (fun q hq => ?_) (fun t => ?_) ?_
    · rw [hth]
      rfl
    · rw [hth]
      simp only [VariableBuffer.flushStep, hindex]
      rfl
    · rw [hth]
      cases q with
      | readQueue => rfl
      | writeQueue => exact absurd rfl hq
    · rw [hth]
      cases q <;> rfl
    · rw [hth]
      cases q with
      | readQueue => rfl
      | writeQueue => exact absurd rfl hq
    · rw [hth]
      cases t <;> exact List.Subset.refl _
    · rw [hth]
  exact stepped_of_step own hm hstep ⟨_, inf'⟩ (performed_snoc hp trivial)

/-- The new block is the producer's: it is reset before it is used. -/
theorem takeBlock {info : BufferInfo}
    (inf : Informed base logs m ⟨vb, .flushing caller (.takeBlock info), c⟩)
    (own : Owned ⟨vb, .flushing caller (.takeBlock info), c⟩) (hm : vb.bufferMode = .producerConsumer)
    (h : Weak.act ⟨⟨vb, .flushing caller (.takeBlock info), c⟩, m⟩ .producer n = some ((th, evs), ops))
    (hp : performAll .producer m ops = some m') :
    Stepped base m ⟨vb, .flushing caller (.takeBlock info), c⟩ .producer evs ops m' th := by
  obtain ⟨hstep, rfl⟩ := Weak.act_plain rfl h
  have hth := flushing_step hstep
  have hops : ∀ x, vb.queue.blockPool.getLast? = x →
      (Threads.touches ⟨vb, .flushing caller (.takeBlock info), c⟩ .producer).toList.map Op.touch ++
        (Threads.stores ⟨vb, .flushing caller (.takeBlock info), c⟩ .producer).toList.map
          (fun l => Op.store l (th.vb.queue.index l)) =
        ((x.join.map Datum.block).toList.map Op.touch : List MemOp) := by
    rintro _ rfl
    simp [Threads.touches, Threads.stores]
  simp only [VariableBuffer.flushStep] at hth
  cases hpool : vb.queue.blockPool.getLast? with
  | none =>
    rw [hops _ hpool] at hp ⊢
    refine inf.steppedQuiet own hm hstep hp fun inf => ?_
    simp only [hpool, hm] at hth
    rw [hth]
    cases caller <;> exact inf.producerQuiet rfl rfl rfl rfl le_rfl (List.Subset.refl _)
  | some x =>
    cases x with
    | none => exact absurd hpool own.not_null_pool
    | some b =>
      rw [hops _ hpool] at hp ⊢
      have hmem := List.mem_of_getLast? hpool
      refine inf.steppedTouch own hm hstep (List.mem_append_left _ hmem) rfl hp fun logs m' inf => ?_
      simp only [hpool] at hth
      rw [hth]
      refine inf.quiet (fun q => ?_) (fun q => ?_) (fun q => ?_) (fun q => ?_) (fun t => ?_) rfl
      · cases q <;> rfl
      · cases q <;> rfl
      · cases q <;> rfl
      · cases q <;> exact le_rfl
      · cases t with
        | consumer => exact List.Subset.refl _
        | producer =>
          intro y hy
          simp only [Threads.hold, Threads.producerHolds, Threads.afterFlush, Producer.holds,
            List.mem_append, List.mem_cons, List.not_mem_nil, or_false] at hy ⊢
          rcases hy with hy | rfl | rfl
          · exact .inl (List.mem_of_mem_dropLast hy)
          · exact .inr rfl
          · exact .inl hmem

/-- A producer with a new block in its hands has pushed no more than `NUM_BLOCKS - 2` blocks that
it has not got back. -/
theorem pushed_le {p : Producer α} (inf : Informed base logs m ⟨vb, p, c⟩) (own : Owned ⟨vb, p, c⟩)
    (hm : vb.bufferMode = .producerConsumer) (hh : (p.holds vb.currentBlock).length = 2)
    (ht : p.wqPop.taken = 0) :
    place (logs ⟨.readQueue, .write⟩) + 2 ≤ place (logs ⟨.writeQueue, .read⟩) + NUM_BLOCKS := by
  have htotal := inf.total own hm
  simp only [Threads.producerHolds, Threads.popView, hh, ht] at htotal
  omega

theorem pushRead {info : BufferInfo} {i : BlockId} {w : Index}
    (inf : Informed base logs m ⟨vb, .flushing caller (.pushRead info i w), c⟩)
    (own : Owned ⟨vb, .flushing caller (.pushRead info i w), c⟩)
    (hm : vb.bufferMode = .producerConsumer)
    (h : Weak.act ⟨⟨vb, .flushing caller (.pushRead info i w), c⟩, m⟩ .producer n =
      some ((th, evs), ops))
    (hp : performAll .producer m ops = some m') :
    Stepped base m ⟨vb, .flushing caller (.pushRead info i w), c⟩ .producer evs ops m' th := by
  obtain ⟨store, hv, hsee, rfl⟩ := Weak.act_load rfl h
  have hp := performAll_singleton.mp hp
  have hroom := inf.pushed_le own hm rfl rfl
  have hw : w = vb.queue.readQueue.write := own.rqPush
  have hne : Boost.nextIndex w ≠ store.value :=
    hw ▸ inf.loadRead (q := .readQueue) hv inf.producer_knows (by omega)
  obtain ⟨rfl, rfl⟩ : th = ⟨vb, .flushing caller (.pushCopy info i w), c⟩ ∧ evs = [] := by
    have hflush : VariableBuffer.flushStep (α := α)
        { vb with queue := vb.queue.setIndex ⟨.readQueue, .read⟩ store.value } (.pushRead info i w) =
        ({ vb with queue := vb.queue.setIndex ⟨.readQueue, .read⟩ store.value },
          .goto (.pushCopy info i w), []) := if_neg hne
    simp only [Threads.stepSeeing, Threads.setIndex, Threads.step, Threads.producerStep, hflush,
      Threads.afterFlush] at hsee
    cases hsee
    exact ⟨rfl, rfl⟩
  refine ⟨own.pushRead, hm, by simp, fun b tr ord => ?_, fun b tr ord => by simp [discarded],
    ⟨logs, ?_⟩, performed_snoc hp trivial⟩
  · exact ord.producerQuiet silent_nil rfl rfl rfl rfl ord.fills
  · exact (inf.load hp).producerQuiet rfl rfl rfl rfl le_rfl (List.Subset.refl _)

theorem pushCopy {info : BufferInfo} {i : BlockId} {w : Index}
    (inf : Informed base logs m ⟨vb, .flushing caller (.pushCopy info i w), c⟩)
    (own : Owned ⟨vb, .flushing caller (.pushCopy info i w), c⟩)
    (hm : vb.bufferMode = .producerConsumer)
    (h : Weak.act ⟨⟨vb, .flushing caller (.pushCopy info i w), c⟩, m⟩ .producer n =
      some ((th, evs), ops))
    (hp : performAll .producer m ops = some m') :
    Stepped base m ⟨vb, .flushing caller (.pushCopy info i w), c⟩ .producer evs ops m' th := by
  obtain ⟨hstep, rfl⟩ := Weak.act_plain rfl h
  have hp := performAll_singleton.mp hp
  have hth := flushing_step hstep
  have hw : w = vb.queue.readQueue.write := own.rqPush
  subst hw
  have hroom := inf.pushed_le own hm rfl rfl
  -- the cell was given back a round ago, which the producer knows
  have hclear : m.touched (.cell .readQueue vb.queue.readQueue.write) ≤ m.clock .producer :=
    (inf.rings .readQueue).fill_clear rfl (inf.producer_knows.mono (by simp only [sides]; omega) le_rfl)
  refine stepped_of_step own hm hstep ⟨logs, ?_⟩ (performed_snoc hp hclear)
  rw [hth]
  have hmem : some vb.currentBlock ∈ Threads.hold
      ⟨vb, .flushing caller (.pushCopy info i vb.queue.readQueue.write), c⟩ .producer := by
    simp [Threads.hold, Threads.producerHolds, Producer.holds]
  refine inf.fill own hm (q := .readQueue) hmem rfl rfl hclear hp rfl (fun q hq => ?_)
    (fun q hq => ?_) (fun q => ?_) (fun t => ?_) rfl
  · cases q with
    | readQueue => exact absurd rfl hq
    | writeQueue => rfl
  · cases q with
    | readQueue => exact absurd rfl hq
    | writeQueue => rfl
  · cases q <;> rfl
  · cases t <;> exact List.Subset.refl _

theorem pushStore {info : BufferInfo} {i : BlockId} {w : Index}
    (inf : Informed base logs m ⟨vb, .flushing caller (.pushStore info i w), c⟩)
    (own : Owned ⟨vb, .flushing caller (.pushStore info i w), c⟩)
    (hm : vb.bufferMode = .producerConsumer)
    (h : Weak.act ⟨⟨vb, .flushing caller (.pushStore info i w), c⟩, m⟩ .producer n =
      some ((th, evs), ops))
    (hp : performAll .producer m ops = some m') :
    Stepped base m ⟨vb, .flushing caller (.pushStore info i w), c⟩ .producer evs ops m' th := by
  obtain ⟨hstep, rfl⟩ := Weak.act_plain rfl h
  have hp := performAll_singleton.mp hp
  have hth := flushing_step hstep
  obtain ⟨hw, -⟩ : w = vb.queue.readQueue.write ∧ _ := own.rqPush
  subst hw
  have hroom := inf.pushed_le own hm rfl rfl
  have hv : th.vb.queue.index ⟨.readQueue, .write⟩ = offset vb.queue.readQueue.write 1 := by
    rw [hth]
    rfl
  have hrecycled : Reached (logs ⟨.writeQueue, .read⟩)
      (place (logs ⟨.readQueue, .write⟩) + 1 - (NUM_BLOCKS - 1)) (m.clock .producer) :=
    (inf.rings .writeQueue).read.reached (by simp only [sides]; omega)
  have inf' : Informed base (logStore logs ⟨.readQueue, .write⟩ 1 (m.clock .producer)) m' th := by
    refine inf.publish (q := .readQueue) (own.rq_room rfl rfl) hv rfl ?_ hp ?_ (fun q hq => ?_)
      (fun q hq => ?_) (fun q => ?_) (fun t => ?_) (fun h => by cases h) (fun _ => hrecycled) ?_
    · rw [hth]
      rfl
    · rw [hth]
      rfl
    · rw [hth]
      cases q with
      | readQueue => exact absurd rfl hq
      | writeQueue => rfl
    · rw [hth]
      cases q with
      | readQueue => exact absurd rfl hq
      | writeQueue => rfl
    · rw [hth]
      cases q <;> rfl
    · rw [hth]
      cases t with
      | consumer => exact List.Subset.refl _
      | producer =>
        intro y hy
        simp only [Threads.hold, Threads.producerHolds, Threads.afterFlush, Producer.holds,
          VariableBuffer.flushStep, List.mem_append, List.mem_cons, List.not_mem_nil,
          or_false] at hy ⊢
        rcases hy with hy | hy
        · exact .inl hy
        · exact .inr (.inr hy)
    · rw [hth]
      rfl
  exact stepped_of_step own hm hstep ⟨_, inf'⟩ (performed_snoc hp trivial)

/-- In this mode the producer does not pop from the read queue; every other step of the flush is
one of those above, or touches nothing but the current block. -/
theorem flushing {pc : FlushPc} (inf : Informed base logs m ⟨vb, .flushing caller pc, c⟩)
    (own : Owned ⟨vb, .flushing caller pc, c⟩) (hm : vb.bufferMode = .producerConsumer)
    (h : Weak.act ⟨⟨vb, .flushing caller pc, c⟩, m⟩ .producer n = some ((th, evs), ops))
    (hp : performAll .producer m ops = some m') :
    Stepped base m ⟨vb, .flushing caller pc, c⟩ .producer evs ops m' th := by
  have hnp := own.not_popping hm
  cases pc with
  | check =>
    obtain ⟨hstep, rfl⟩ := Weak.act_plain rfl h
    refine inf.steppedTouch own hm hstep (by simp [Producer.holds]) rfl hp fun logs m' inf => ?_
    rw [flushing_step hstep, VariableBuffer.flushStep]
    split_ifs
    · cases caller <;> exact inf.producerQuiet rfl rfl rfl rfl le_rfl (List.Subset.refl _)
    · exact inf.producerQuiet rfl rfl rfl rfl le_rfl (List.Subset.refl _)
  | infoWrite =>
    obtain ⟨hstep, rfl⟩ := Weak.act_plain rfl h
    refine inf.steppedQuiet own hm hstep hp fun inf => ?_
    rw [flushing_step hstep]
    exact inf.producerQuiet rfl rfl rfl rfl le_rfl (List.Subset.refl _)
  | infoRead w => exact inf.infoRead own hm h hp
  | allWrite info => exact inf.allWrite own hm h hp
  | allRead info w => exact inf.allRead own hm h hp
  | allCopy info r count todo =>
    cases todo with
    | nil => exact inf.allCopy_nil own hm h hp
    | cons i todo => exact inf.allCopy_cons own hm h hp
  | takeBlock info => exact inf.takeBlock own hm h hp
  | popWrite info => exact absurd hnp (by simp [Producer.popping])
  | popRead info w => exact absurd hnp (by simp [Producer.popping])
  | popCopy info r => exact absurd hnp (by simp [Producer.popping])
  | popStore info r i => exact absurd hnp (by simp [Producer.popping])
  | pushWrite info i =>
    obtain ⟨hstep, rfl⟩ := Weak.act_plain rfl h
    refine inf.steppedQuiet own hm hstep hp fun inf => ?_
    rw [flushing_step hstep]
    exact inf.producerQuiet rfl rfl rfl rfl le_rfl (List.Subset.refl _)
  | pushRead info i w => exact inf.pushRead own hm h hp
  | pushCopy info i w => exact inf.pushCopy own hm h hp
  | pushStore info i w => exact inf.pushStore own hm h hp
  | setCurrent info i =>
    obtain ⟨hstep, rfl⟩ := Weak.act_plain rfl h
    refine inf.steppedQuiet own hm hstep hp fun inf => ?_
    rw [flushing_step hstep]
    refine inf.quiet (fun q => ?_) (fun q => ?_) (fun q => ?_) (fun q => ?_) (fun t => ?_) rfl
    · cases q <;> rfl
    · cases q <;> rfl
    · cases q <;> rfl
    · cases q <;> exact le_rfl
    · cases t <;> exact List.Subset.refl _
  | callback info =>
    obtain ⟨hstep, rfl⟩ := Weak.act_plain rfl h
    refine inf.steppedQuiet own hm hstep hp fun inf => ?_
    rw [flushing_step hstep]
    cases caller <;> exact inf.producerQuiet rfl rfl rfl rfl le_rfl (List.Subset.refl _)

end Flush

end Informed

/-- Every step of the producer. -/
theorem Informed.producer {base : Queue → Index} {logs : Loc → Log Thread} {m m' : Mem}
    {s th : Threads α} {a : Act α} {n : ℕ} {evs : List (Event α)} {ops : List MemOp}
    (inf : Informed base logs m s) (own : Owned s) (hm : s.vb.bufferMode = .producerConsumer)
    (ha : a.thread = .producer) (h : Weak.act ⟨s, m⟩ a n = some ((th, evs), ops))
    (hp : performAll .producer m ops = some m') : Stepped base m s .producer evs ops m' th := by
  obtain ⟨vb, p, c⟩ := s
  cases a with
  | callAddElem data =>
    obtain ⟨hstep, rfl⟩ := Weak.act_plain rfl h
    obtain rfl := performAll_nil.mp hp
    refine stepped_of_step own hm hstep ⟨logs, ?_⟩ performed_nil
    cases p <;> cases hstep
    exact inf.producerQuiet rfl rfl rfl rfl le_rfl (List.Subset.refl _)
  | callFlushToQueue =>
    obtain ⟨hstep, rfl⟩ := Weak.act_plain rfl h
    obtain rfl := performAll_nil.mp hp
    refine stepped_of_step own hm hstep ⟨logs, ?_⟩ performed_nil
    cases p <;> cases hstep
    exact inf.producerQuiet rfl rfl rfl rfl le_rfl (List.Subset.refl _)
  | producer =>
    cases p with
    | idle => cases h
    | thrown what => cases h
    | crashed => cases h
    | adding data => exact inf.adding own hm h hp
    | flushing caller pc => exact inf.flushing own hm h hp
    | resetting data ok => exact inf.resetting own hm h hp
  | callReadBlock => cases ha
  | consumer => cases ha

end XBot
