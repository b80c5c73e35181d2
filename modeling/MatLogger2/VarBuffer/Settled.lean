import MatLogger2.VarBuffer.Shapes
import MatLogger2.VarBuffer.Loaded

/-! What has left the current block stays on its way to the consumer: the samples that have been
returned, and then those that are queued, are only added to. When a `read_block` finds nothing,
all that was queued at its start has been returned. -/

namespace XBot

open Spsc Transition Ledger

variable {α : Type}

section Step

variable {b : ℕ} {tr es : List (Event α)} {s s' : Threads α}

theorem length_one_column (x : List α) : x.length = x.length * 1 := (Nat.mul_one _).symm

/-- A return of `add_elem` for a sample. -/
def Event.sent (x : List α) : Event α := .added ⟨x.length, 1, x, length_one_column x⟩ true

theorem accepted_sent (l : List (List α)) : accepted (l.map Event.sent) = l := by
  rw [accepted, List.filterMap_map]
  exact List.filterMap_some

theorem delivered_sent (l : List (List α)) : delivered (l.map Event.sent) = [] := by
  simp [delivered, List.flatMap_map, Event.sent, Event.delivered]

theorem discarded_sent (l : List (List α)) : discarded (l.map Event.sent) = [] := by
  simp [discarded, List.filterMap_map, Function.comp_def, Event.sent, Event.discards]

/-- A variable may be taken as one that has just accepted all it holds. -/
theorem Ordered.afresh (inv : Ordered b tr s) :
    Ordered b ((s.queued ++ s.filling).map Event.sent) s := by
  refine ⟨inv.size, ?_, inv.fills, inv.copied⟩
  rw [accepted_sent, delivered_sent, discarded_sent]
  exact ⟨s.queued, rfl, Lossy.nil.append s.queued⟩

/-- What a step does to what the variable holds. -/
theorem Ordered.moved {a : Act α} (inv : Ordered b tr s) (own : Owned s)
    (hm : s.vb.bufferMode = .producerConsumer) (h : s.step a = some (s', es)) :
    ∃ settled, s.queued ++ s.filling ++ accepted es = settled ++ s'.filling ∧
      Lossy (discarded es) settled (delivered es ++ s'.queued) := by
  have hl := (inv.afresh.step own hm h).ledger
  rw [accepted_append, accepted_sent, delivered_append, delivered_sent, discarded_append,
    discarded_sent] at hl
  exact hl

/-- The consumer neither accepts nor drops samples. -/
theorem sent_consumer (h : s.consumerStep = some (s', es)) : accepted es = [] ∧ discarded es = [] := by
  obtain ⟨vb, p, c⟩ := s
  cases c with
  | idle => cases h
  | crashed => cases h
  | popRead w =>
    simp only [Threads.consumerStep] at h
    split_ifs at h <;> cases h <;> exact ⟨rfl, rfl⟩
  | popCopy r =>
    simp only [Threads.consumerStep] at h
    cases hb : vb.queue.readQueue.cell r <;> rw [hb] at h <;> cases h <;> exact ⟨rfl, rfl⟩
  | pushRead i data valid w =>
    simp only [Threads.consumerStep] at h
    split_ifs at h <;> cases h <;> exact ⟨rfl, rfl⟩
  | _ => cases h; exact ⟨rfl, rfl⟩

theorem ConsumerFrame.filling (hf : ConsumerFrame s s') (own : Owned s) :
    s'.filling = s.filling := by
  rw [Threads.filling, Threads.filling, hf.producer]
  by_cases hp : s.producer.published
  · rw [if_pos hp, if_pos hp]
  · have hmem : some s.vb.currentBlock ∈ s.owns .producer := by
      simp only [Threads.owns, Threads.producerHolds]
      exact Producer.current_mem_holds (by simpa using hp) _
    rw [if_neg hp, if_neg hp, VariableBuffer.current, VariableBuffer.current, hf.currentBlock,
      hf.block _ (own.apart .consumer (by decide) hmem)]

/-- A step of `read_block` returns what it takes from the queue. -/
theorem settled_consumer (inv : Ordered b tr s) (own : Owned s)
    (hm : s.vb.bufferMode = .producerConsumer) (h : s.consumerStep = some (s', es)) :
    delivered es ++ s'.queued = s.queued := by
  obtain ⟨settled, he, hl⟩ := inv.moved (a := .consumer) own hm h
  obtain ⟨hacc, hdis⟩ := sent_consumer h
  rw [hacc, List.append_nil, (consumerStep_frame h).filling own] at he
  rw [hdis] at hl
  rw [hl.eq_of_nil, List.append_cancel_right he]

section Flush

variable {vb : VariableBuffer α} {c : Consumer α} {caller : Option (Eigen.MatrixXd α)} {pc : FlushPc}

/-- Until it has a new one, a flush leaves the samples of the current block alone. -/
theorem current_flush (own : Owned ⟨vb, .flushing caller pc, c⟩)
    (hp : (Producer.flushing caller pc : Producer α).published = false) :
    (vb.flushStep pc : _ × _ × List (Event α)).1.current.valid = vb.current.valid := by
  fun_cases VariableBuffer.flushStep vb pc
  case case13 info i hi vb' =>
    have hne : vb.currentBlock ≠ i := by
      rintro rfl
      exact own.apart .producer (by decide)
        (show some vb.currentBlock ∈ Threads.owns _ .pool from List.mem_of_getLast? hi)
        (Ordered.owned_current rfl)
    exact congrArg BufferBlock.valid (vb.setBlock_of_ne hne _)
  all_goals first | rfl | cases hp

/-- A step of a flush publishes the current block or leaves its samples alone. -/
theorem filling_flush (inv : Ordered b tr ⟨vb, .flushing caller pc, c⟩)
    (own : Owned ⟨vb, .flushing caller pc, c⟩)
    (h : Threads.producerStep ⟨vb, .flushing caller pc, c⟩ = some (s', es)) :
    s'.filling = [] ∨ s'.filling = Threads.filling ⟨vb, .flushing caller pc, c⟩ := by
  by_cases hp : (Producer.flushing caller pc : Producer α).published = true
  · -- the new current block is empty
    cases pc with
    | setCurrent info i =>
      cases h
      exact .inl inv.fills
    | _ => cases hp
  · have hcur := current_flush own (by simpa using hp)
    have hvb : s'.vb = (vb.flushStep pc : _ × _ × List (Event α)).1 := by
      cases h
      rfl
    rw [← hvb] at hcur
    by_cases hp' : s'.producer.published = true
    · exact .inl (if_pos hp')
    · exact .inr ((if_neg hp').trans (hcur.trans (if_neg hp).symm))

theorem silent_flush (h : Threads.producerStep ⟨vb, .flushing caller pc, c⟩ = some (s', es)) :
    Silent es := by
  have hret : ∀ next, Silent (Threads.afterFlush caller next).2 := by
    intro next
    cases next with
    | ret ok => cases caller <;> exact ⟨rfl, rfl, rfl⟩
    | _ => exact silent_nil
  have hstep : Silent (vb.flushStep pc : _ × _ × List (Event α)).2.2 := by
    refine ⟨List.filterMap_eq_nil_iff.mpr fun e he => ?_, List.flatMap_eq_nil_iff.mpr fun e he => ?_,
      List.filterMap_eq_nil_iff.mpr fun e he => ?_⟩ <;>
      rcases Owned.flushStep_events vb pc he with ⟨i, rfl⟩ | ⟨info, rfl⟩ <;> rfl
  cases h
  exact hstep.append (hret _)

end Flush

/-- A step of the producer only adds to what is queued. -/
theorem settled_producer (inv : Ordered b tr s) (own : Owned s)
    (hm : s.vb.bufferMode = .producerConsumer) (h : s.producerStep = some (s', es)) :
    s.queued <+: s'.queued := by
  obtain ⟨vb, p, c⟩ := s
  cases p with
  | idle => cases h
  | thrown what => cases h
  | crashed => cases h
  | adding data =>
    simp only [Threads.producerStep] at h
    split_ifs at h
    · cases h
      exact List.prefix_refl _
    · cases hadd : vb.current.add data with
      | none =>
        rw [hadd] at h
        cases h
        exact List.prefix_refl _
      | some x =>
        rw [hadd] at h
        cases h
        have hq : Threads.queued ⟨vb.setCurrent x, .idle, c⟩ = Threads.queued ⟨vb, .adding data, c⟩ :=
          (Ordered.current_apart own rfl x).1
        rw [hq]
  | resetting data ok =>
    cases h
    have hq : Threads.queued ⟨vb.setCurrent vb.current.reset, .adding data, c⟩ =
        Threads.queued ⟨vb, .resetting data ok, c⟩ := (Ordered.current_apart own rfl _).1
    rw [hq]
  | flushing caller pc =>
    obtain ⟨settled, he, hl⟩ := inv.moved (a := .producer) own hm h
    obtain ⟨hacc, hdel, hdis⟩ := silent_flush h
    rw [hacc, List.append_nil] at he
    rw [hdel, hdis, List.nil_append] at hl
    rw [hl.eq_of_nil]
    rcases filling_flush inv own h with hnil | hsame
    · rw [hnil, List.append_nil] at he
      exact ⟨_, he⟩
    · rw [hsame] at he
      rw [List.append_cancel_right he]

theorem delivered_eq (es : List (Event α)) :
    delivered es = (readResults es).flatMap VariableBuffer.ReadResult.samples := by
  induction es with
  | nil => rfl
  | cons e es ih =>
    have happend : delivered (e :: es) = e.delivered ++ delivered es := rfl
    rw [happend, ih]
    cases e <;> rfl

/-- What has left the current block is on its way to the consumer for good. -/
theorem settled_step {a : Act α} (inv : Ordered b tr s) (own : Owned s)
    (hm : s.vb.bufferMode = .producerConsumer) (h : s.step a = some (s', es)) :
    s.queued <+: delivered es ++ s'.queued := by
  obtain ⟨vb, p, c⟩ := s
  cases a with
  | callAddElem data => cases p <;> cases h; exact List.prefix_refl _
  | callFlushToQueue => cases p <;> cases h; exact List.prefix_refl _
  | producer =>
    have hdel : delivered es = [] := by
      rw [delivered_eq, results_producer h]
      rfl
    rw [hdel]
    exact settled_producer inv own hm h
  | callReadBlock =>
    cases c with
    | idle =>
      have hm : vb.bufferMode = .producerConsumer := hm
      simp only [Threads.step, hm] at h
      cases h
      simp only [Threads.queued, Threads.rqLive, Threads.rqPop, hm]
      exact List.prefix_refl _
    | _ => cases h
  | consumer => rw [settled_consumer inv own hm h]

/-- The samples `g` have left the current block, and have been returned if the consumer has found
the queue empty. -/
structure Bound (g : List (List α)) (tr : List (Event α)) (s : Threads α) : Prop where
  settled : g <+: delivered tr ++ s.queued
  empty : Loaded.FoundEmpty s → g <+: delivered tr

theorem Bound.start (hc : s.consumer = .idle) : Bound (delivered tr ++ s.queued) tr s := by
  refine ⟨List.prefix_refl _, fun he => ?_⟩
  rw [Loaded.FoundEmpty, hc] at he
  cases he

theorem Bound.nil : Bound [] tr s := ⟨List.nil_prefix, fun _ => List.nil_prefix⟩

theorem Bound.step {g : List (List α)} {a : Act α} (h : Bound g tr s) (inv : Ordered b tr s)
    (own : Owned s) (hm : s.vb.bufferMode = .producerConsumer) (hs : s.step a = some (s', es)) :
    Bound g (tr ++ es) s' := by
  have hsettled : g <+: delivered (tr ++ es) ++ s'.queued := by
    refine h.settled.trans ?_
    rw [delivered_append, List.append_assoc]
    exact (List.prefix_append_right_inj _).mpr (settled_step inv own hm hs)
  have hmono : delivered tr <+: delivered (tr ++ es) := by
    rw [delivered_append]
    exact List.prefix_append _ _
  refine ⟨hsettled, fun he => ?_⟩
  obtain ⟨vb, p, c⟩ := s
  cases a with
  | callAddElem data =>
    cases p <;> cases hs
    exact (h.empty he).trans hmono
  | callFlushToQueue =>
    cases p <;> cases hs
    exact (h.empty he).trans hmono
  | producer =>
    obtain ⟨hc, hr, -⟩ := producerStep_frame own hm hs
    rw [Loaded.FoundEmpty, hc, hr] at he
    exact (h.empty he).trans hmono
  | callReadBlock =>
    cases c with
    | idle =>
      have hm : vb.bufferMode = .producerConsumer := hm
      simp only [Threads.step, hm] at hs
      cases hs
      cases he
    | _ => cases hs
  | consumer =>
    -- nothing was waiting when the two indices were found equal
    have hnil : s'.vb.queue.readQueue.content = [] :=
      List.length_eq_zero_iff.mp (Loaded.foundEmpty_step hs he)
    have hqueued : s'.queued = [] := by
      have hm' : s'.vb.bufferMode = .producerConsumer := (consumerStep_frame hs).mode.trans hm
      rw [Loaded.FoundEmpty] at he
      simp only [Threads.queued, Threads.rqLive, Threads.rqPop, hm', he, Consumer.rqPop]
      have hlive : PopView.live s'.vb.queue.readQueue (.loaded s'.vb.queue.readQueue.read) = [] := hnil
      rw [hlive]
      rfl
    rwa [hqueued, List.append_nil] at hsettled

end Step

theorem Loaded.step {s s' : Threads α} {es : List (Event α)} {a : Act α} (inv : Loaded s)
    (own : Owned s) (hm : s.vb.bufferMode = .producerConsumer) (h : s.step a = some (s', es)) :
    Loaded s' := by
  obtain ⟨vb, p, c⟩ := s
  cases a with
  | callAddElem data =>
    cases p <;> cases h
    exact inv.frame rfl rfl (fun _ _ => rfl) fun h => by cases h
  | callFlushToQueue =>
    cases p <;> cases h
    exact inv.frame rfl rfl (fun _ _ => rfl) fun h => by cases h
  | producer => exact inv.producerStep own hm h
  | callReadBlock =>
    cases c with
    | idle =>
      have hm : vb.bufferMode = .producerConsumer := hm
      simp only [Threads.step, hm] at h
      cases h
      exact inv.readQuiet hm vb.queue (List.Subset.refl _) trivial
    | _ => cases h
  | consumer => exact inv.consumerStep own h

/-- A `read_block` that returns false has found the queue empty. -/
theorem Loaded.nothing {s s' : Threads α} {es : List (Event α)} {a : Act α} (inv : Loaded s)
    (hm : s.vb.bufferMode = .producerConsumer) (h : s.step a = some (s', es))
    {r : VariableBuffer.ReadResult α} (hr : r ∈ readResults es) (hret : r.ret = false) :
    FoundEmpty s := by
  obtain ⟨vb, p, c⟩ := s
  cases a with
  | callAddElem data => cases p <;> cases h; cases hr
  | callFlushToQueue => cases p <;> cases h; cases hr
  | producer =>
    rw [results_producer h] at hr
    cases hr
  | callReadBlock =>
    cases c with
    | idle =>
      have hm : vb.bufferMode = .producerConsumer := hm
      simp only [Threads.step, hm] at h
      cases h
      cases hr
    | _ => cases h
  | consumer =>
    refine (inv.read_false h ?_).1
    obtain ⟨e, he, her⟩ := List.mem_filterMap.mp hr
    refine List.any_eq_true.mpr ⟨e, he, ?_⟩
    cases e with
    | read result =>
      cases her
      simp [readsNothing, hret]
    | _ => cases her

theorem Loaded.run {rows cols b : ℕ} {hist : List (Threads α)} {tr : List (Event α)} {s : Threads α}
    (h : (threads α rows cols b .producerConsumer).Run hist tr s) : Loaded s := by
  refine h.inv_hist (I := fun _ _ s => Loaded s) ?_ ?_
  · rintro s ⟨name, hb, storage, callback, rfl⟩
    obtain ⟨hr, -, -⟩ := VariableBuffer.make_queue name rows cols b hb storage
    refine ⟨fun i hi => ?_, (fun h => by cases h), trivial⟩
    have hlive : Threads.rqLive (Threads.start name rows cols b hb storage .producerConsumer callback) =
        [] := hr
    rw [hlive] at hi
    cases hi
  · rintro hist tr s es s' hr inv ⟨a, ha⟩
    have k := Kept.run hr
    exact inv.step k.owned k.mode ha

end XBot
