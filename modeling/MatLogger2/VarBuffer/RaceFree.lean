import MatLogger2.VarBuffer.WeakConsumer

/-! A variable that two threads share under release and acquire: no ring cell and no block is
accessed by both threads at once, and what is known of the owners and of the order of the samples
does not depend on the threads seeing the newest indices. -/

namespace XBot

open Spsc Transition Ledger RelAcq

variable {α : Type} {rows cols b : ℕ}

structure WeakKept (b : ℕ) (tr : List (WeakEvent α)) (s : Weak α) : Prop where
  owned : Owned s.threads
  mode : s.threads.vb.bufferMode = .producerConsumer
  lost : ∀ i, Event.lost i ∉ shownEvents tr
  ordered : Ordered b (shownEvents tr) s.threads
  full : ∀ run ∈ discarded (shownEvents tr), run.length = b
  informed : ∃ base logs, Informed base logs s.mem s.threads
  performed : ∃ v, Performed Loc.writer v (memOps tr) s.mem

/-- Before the first step the threads know all there is. -/
theorem Informed.start {t : Threads α} (h : (threads α rows cols b .producerConsumer).init t) :
    ∃ base logs, Informed base logs (Weak.start t).mem t := by
  obtain ⟨name, hb, storage, callback, rfl⟩ := h
  obtain ⟨hr, hw, -⟩ := VariableBuffer.make_queue name rows cols b hb storage
  have hnil : ∀ q, ((VariableBuffer.make name rows cols b hb storage).queue.ring q).content = [] := by
    intro q
    cases q with
    | readQueue => exact hr
    | writeQueue => exact hw
  unfold Threads.start
  generalize VariableBuffer.make name rows cols b hb storage = vb at hnil
  refine ⟨fun q => (vb.queue.ring q).read, fun _ => [(0, 0)], fun l => ?_, fun q => ?_, ?_, ?_, rfl,
    fun t b _ => fun u => Nat.zero_le _⟩
  · have hindex : vb.queue.index l = (vb.queue.ring l.queue).read := by
      obtain ⟨q, side⟩ := l
      cases side with
      | write => exact (Ring.content_eq_nil _).mp (hnil q)
      | read => rfl
    simp only [Weak.start, Memory.start, shown, List.map_cons, List.map_nil, offset_zero]
    exact congrArg (fun i => [(⟨i, 0⟩ : Store Thread Index)]) hindex
  · have hviews : ∀ q, Threads.pushView (⟨(vb.setOnBlockAvailable callback).setBufferMode
        .producerConsumer, .idle, .idle⟩ : Threads α) q = .idle ∧
        Threads.popView (⟨(vb.setOnBlockAvailable callback).setBufferMode
          .producerConsumer, .idle, .idle⟩ : Threads α) q = .idle := by
      intro q
      cases q <;> exact ⟨rfl, rfl⟩
    rw [(hviews q).1, (hviews q).2]
    exact Guarded.start (hnil q) (fun _ => rfl) rfl rfl
  · intro x hx
    exact ⟨_, List.mem_singleton.mpr rfl, (List.mem_singleton.mp hx ▸ le_rfl), fun _ => Nat.zero_le _⟩
  · intro x hx
    obtain rfl := List.mem_singleton.mp hx
    exact ⟨_, List.mem_singleton.mpr rfl, Nat.zero_le _, fun _ => Nat.zero_le _⟩

theorem shownEvents_append (tr es : List (WeakEvent α)) :
    shownEvents (tr ++ es) = shownEvents tr ++ shownEvents es := List.filterMap_append

theorem memOps_append (tr es : List (WeakEvent α)) : memOps (tr ++ es) = memOps tr ++ memOps es :=
  List.filterMap_append

theorem WeakKept.step {tr es : List (WeakEvent α)} {s s' : Weak α} {a : Act α × ℕ}
    (k : WeakKept b tr s) (h : s.step a = some (s', es)) : WeakKept b (tr ++ es) s' := by
  obtain ⟨a, n⟩ := a
  obtain ⟨threads, mem⟩ := s
  obtain ⟨evs, ops, hact, hmem, hshown, hops⟩ := Weak.step_eq_some h
  obtain ⟨base, logs, inf⟩ := k.informed
  have st : Stepped base mem threads a.thread evs ops s'.mem s'.threads := by
    cases ht : a.thread with
    | producer => exact inf.producer k.owned k.mode ht hact (ht ▸ hmem)
    | consumer => exact inf.consumer k.owned k.mode ht hact (ht ▸ hmem)
  obtain ⟨v, hperf⟩ := k.performed
  refine ⟨st.owned, st.mode, fun i hi => ?_, ?_, fun run hrun => ?_, ⟨base, st.informed⟩, v, ?_⟩
  · rw [shownEvents_append, hshown, List.mem_append] at hi
    exact hi.elim (k.lost i) (st.lost i)
  · rw [shownEvents_append, hshown]
    exact st.ordered b _ k.ordered
  · rw [shownEvents_append, hshown, discarded_append, List.mem_append] at hrun
    exact hrun.elim (k.full run) (st.full b _ k.ordered run)
  · rw [memOps_append, hops]
    exact st.performed v _ hperf

theorem WeakKept.run {hist : List (Weak α)} {tr : List (WeakEvent α)} {s : Weak α}
    (h : (weakThreads α rows cols b).Run hist tr s) : WeakKept b tr s := by
  refine h.inv (I := WeakKept b) ?_ ?_
  · rintro s ⟨t, ht, rfl⟩
    have hm : t.vb.bufferMode = .producerConsumer := by
      obtain ⟨name, hb, storage, callback, rfl⟩ := ht
      rfl
    exact ⟨Owned.init ht, hm, by simp [shownEvents], Ordered.init ht,
      by simp [shownEvents, discarded], Informed.start ht, _, .start⟩
  · rintro tr s es s' k ⟨a, ha⟩
    exact k.step ha

theorem weak_run_exec {t : Threads α} {s : Weak α} {acts : List (Act α × ℕ)}
    {es : List (WeakEvent α)} (h0 : (threads α rows cols b .producerConsumer).init t)
    (h : exec Weak.step (.start t) acts = some (s, es)) :
    ∃ hist, (weakThreads α rows cols b).Run hist es s := by
  have hstep : ∀ s a s' es, Weak.step s a = some (s', es) →
      (weakThreads α rows cols b).step s es s' := fun _ a _ _ ha => ⟨a, ha⟩
  obtain ⟨hist, hr⟩ := System.Run.exec hstep (.start ⟨t, h0, rfl⟩) h
  exact ⟨_, hr⟩

/-- Push a block, let the consumer miss it because it sees the first write index, and let it read
again, now with the second one. -/
def missAndRead : List (Act ℕ × ℕ) :=
  [(.callAddElem (scalar 7), 0), (.producer, 0), (.callFlushToQueue, 0)] ++
    List.replicate 12 (.producer, 0) ++ [(.callReadBlock, 0), (.consumer, 0), (.consumer, 0)] ++
    [(.callReadBlock, 0), (.consumer, 1)] ++ List.replicate 10 (.consumer, 0)

theorem exec_missAndRead : ∃ s es,
    exec Weak.step (.start scalarThreads) missAndRead = some (s, es) ∧
      delivered (shownEvents es) = [[7]] ∧
      (memOps es)[0]? = some (.producer, .touch (.block 19)) ∧
      (memOps es)[13]? = some (.consumer, .touch (.block 19)) := by
  have hex : ((exec Weak.step (.start scalarThreads) missAndRead).map fun p =>
      decide (delivered (shownEvents p.2) = [[7]] ∧
        (memOps p.2)[0]? = some (.producer, .touch (.block 19)) ∧
        (memOps p.2)[13]? = some (.consumer, .touch (.block 19)))) = some true := by
    decide +kernel
  obtain ⟨⟨s, es⟩, h, hs⟩ := Option.map_eq_some_iff.mp hex
  exact ⟨s, es, h, of_decide_eq_true hs⟩

/-- Any two accesses of the threads to a ring cell or to a block are ordered by happens-before,
whatever old indices the threads see. -/
theorem race_free {hist : List (Weak α)} {tr : List (WeakEvent α)} {s : Weak α}
    (h : (weakThreads α rows cols b).Run hist tr s) : RaceFree (memOps tr) := by
  obtain ⟨v, hperf⟩ := (WeakKept.run h).performed
  exact hperf.raceFree

theorem race_free_missAndRead : ∃ hist tr s, (weakThreads ℕ 1 1 1).Run hist tr s ∧
    (memOps tr)[0]? = some (.producer, .touch (.block 19)) ∧
    (memOps tr)[13]? = some (.consumer, .touch (.block 19)) ∧ RaceFree (memOps tr) := by
  obtain ⟨s, es, h, -, h₁, h₂⟩ := exec_missAndRead
  obtain ⟨hist, hr⟩ := weak_run_exec scalarThreads_init h
  exact ⟨hist, es, s, hr, h₁, h₂, race_free hr⟩

/-- Nothing is lost and nothing fails either, and `read_block` returns the accepted samples in
their order, less full blocks that were dropped. -/
theorem weak_delivery {hist : List (Weak α)} {tr : List (WeakEvent α)} {s : Weak α}
    (h : (weakThreads α rows cols b).Run hist tr s) :
    (∀ i, ∃! place, some i ∈ s.threads.owns place) ∧
      (∀ what, s.threads.producer ≠ .thrown what) ∧ s.threads.producer ≠ .crashed ∧
      s.threads.consumer ≠ .crashed ∧ (∀ i, Event.lost i ∉ shownEvents tr) ∧
      (∀ run ∈ discarded (shownEvents tr), run.length = b) ∧
      Lossy (discarded (shownEvents tr)) (accepted (shownEvents tr))
        (delivered (shownEvents tr) ++ s.threads.queued ++ s.threads.filling) := by
  have k := WeakKept.run h
  obtain ⟨hp, hc⟩ := k.owned.sound
  refine ⟨k.owned.one_place, fun what he => ?_, fun he => ?_, fun he => ?_, k.lost, k.full,
    k.ordered.ledger.lossy⟩
  · simp [he, Producer.sound] at hp
  · simp [he, Producer.sound] at hp
  · simp [he, Consumer.sound] at hc

theorem weak_delivery_missAndRead : ∃ hist tr s, (weakThreads ℕ 1 1 1).Run hist tr s ∧
    delivered (shownEvents tr) = [[7]] ∧
    Lossy (discarded (shownEvents tr)) (accepted (shownEvents tr))
      (delivered (shownEvents tr) ++ s.threads.queued ++ s.threads.filling) := by
  obtain ⟨s, es, h, hd, -⟩ := exec_missAndRead
  obtain ⟨hist, hr⟩ := weak_run_exec scalarThreads_init h
  exact ⟨hist, es, s, hr, hd, (weak_delivery hr).2.2.2.2.2.2⟩

end XBot
