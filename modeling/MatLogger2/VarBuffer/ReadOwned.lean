import MatLogger2.VarBuffer.Owners

/-! Each step of `read_block` keeps the owners apart, whatever the producer is
doing meanwhile. -/

namespace XBot

open Spsc Transition

variable {α : Type}

namespace Owned

variable {vb : VariableBuffer α} {p : Producer α} {c c' : Consumer α}

/-- A consumer inside `read_block` shows that the mode is `producer_consumer`. -/
theorem consumer_mode (inv : Owned ⟨vb, p, c⟩) (hc : c ≠ .idle) :
    vb.bufferMode = .producerConsumer := by
  cases hm : vb.bufferMode with
  | producerConsumer => rfl
  | circularBuffer => exact absurd (inv.circular hm).1 hc

theorem rqPop_consumer (hm : vb.bufferMode = .producerConsumer) :
    Threads.rqPop ⟨vb, p, c⟩ = c.rqPop := by
  simp only [Threads.rqPop, hm]

/-- The producer does not pop from the read queue while there is a consumer. -/
theorem not_popping (inv : Owned ⟨vb, p, c⟩) (hm : vb.bufferMode = .producerConsumer) :
    p.popping = false := by
  by_contra h
  have := (inv.popping (by simpa using h)).1
  simp only [hm] at this
  exact absurd this (by decide)

/-- A step of the consumer that changes neither ring: what it loads must mean
what its view says. -/
theorem readLoad (inv : Owned ⟨vb, p, c⟩) (hm : vb.bufferMode = .producerConsumer)
    (f : BlockId → BufferBlock α) (hh : (c'.holds ++ PopView.live vb.queue.readQueue c'.rqPop).Perm
      (c.holds ++ PopView.live vb.queue.readQueue c.rqPop))
    (hpop : c'.rqPop.Ok vb.queue.readQueue) (hpush : c'.wqPush.Ok vb.queue.writeQueue)
    (hs : c'.sound = true) : Owned ⟨{ vb with block := f }, p, c'⟩ := by
  have hrq : Threads.rqPop ⟨{ vb with block := f }, p, c'⟩ = c'.rqPop := rqPop_consumer hm
  refine ⟨perm_of_count inv.owned fun x => ?_, inv.rqPush, hrq ▸ hpop, hpush, inv.wqPop,
    inv.pooled, ⟨inv.sound.1, hs⟩, fun h => ?_, inv.popping, inv.fresh⟩
  · have hx := hh.count_eq x
    simp only [Threads.handles, Threads.rqLive, Threads.wqLive, Threads.producerHolds, hrq,
      rqPop_consumer hm, List.count_append] at hx ⊢
    omega
  · exact absurd (hm.symm.trans h) (by decide)

theorem readPopStore {r : Index} {b : BlockId} (inv : Owned ⟨vb, p, .popStore r b⟩) :
    Owned ⟨{ vb with queue := { vb.queue with
        readQueue := { vb.queue.readQueue with read := Boost.nextIndex r } } }, p,
      .copyData b⟩ := by
  have hm := inv.consumer_mode (by simp)
  have hcopied : (PopView.copied r (some b) : PopView Ptr _).Ok vb.queue.readQueue := by
    have := inv.rqPop
    rwa [rqPop_consumer hm] at this
  have hadv : ({ vb.queue.readQueue with read := Boost.nextIndex r } : LockfreeQueue) =
      vb.queue.readQueue.advance 1 := by
    rw [hcopied.1]
    rfl
  have hlive := PopView.live_advance_one hcopied
  rw [hadv]
  refine ⟨perm_of_count inv.owned fun x => ?_, inv.rqPush.advance 1, ?_, inv.wqPush, inv.wqPop,
    inv.pooled, inv.sound, fun h => ?_, inv.popping, inv.fresh⟩
  · simp only [Threads.handles, Threads.rqLive, Threads.rqPop, hm, Consumer.rqPop,
      Consumer.holds, hlive]
    rfl
  · simp only [Threads.rqPop, hm, Consumer.rqPop]
    trivial
  · exact absurd (hm.symm.trans h) (by decide)

theorem readPushCopy {b : BlockId} {data : List (List α)} {valid : ℕ} {w : Index}
    (inv : Owned ⟨vb, p, .pushCopy b data valid w⟩) :
    Owned ⟨{ vb with queue := { vb.queue with writeQueue := { vb.queue.writeQueue with
        cell := Function.update vb.queue.writeQueue.cell w (some b) } } }, p,
      .pushStore b data valid w⟩ := by
  have hm := inv.consumer_mode (by simp)
  have hw : w = vb.queue.writeQueue.write := inv.wqPush
  subst hw
  have hlive := PopView.live_setCell vb.queue.writeQueue p.wqPop (some b)
  have hrq : ∀ c : Consumer α, Threads.rqPop ⟨vb, p, c⟩ = c.rqPop := fun _ => rqPop_consumer hm
  refine ⟨perm_of_count inv.owned fun x => ?_, inv.rqPush, ?_,
    ⟨rfl, Ring.setCell_cell_write _ _⟩, inv.wqPop.setCell _, inv.pooled, inv.sound, fun h => ?_,
    inv.popping, inv.fresh⟩
  · simp only [Threads.handles, Threads.rqLive, Threads.wqLive, Threads.rqPop, hm, ← hlive]
    rfl
  · simp only [Threads.rqPop, hm]
    trivial
  · exact absurd (hm.symm.trans h) (by decide)

/-- The consumed block is back once the write index is published. -/
theorem readPushStore {b : BlockId} {data : List (List α)} {valid : ℕ} {w : Index}
    (inv : Owned ⟨vb, p, .pushStore b data valid w⟩) :
    Owned ⟨{ vb with queue := { vb.queue with
        writeQueue := { vb.queue.writeQueue with write := Boost.nextIndex w } } }, p,
      .idle⟩ := by
  have hm := inv.consumer_mode (by simp)
  obtain ⟨hw, hcell⟩ : w = vb.queue.writeQueue.write ∧
      vb.queue.writeQueue.cell vb.queue.writeQueue.write = some b := inv.wqPush
  subst hw
  have hroom := inv.wq_room rfl
  have hlive := PopView.live_publish inv.wqPop hroom
  refine ⟨perm_of_count inv.owned fun x => ?_, inv.rqPush, ?_, trivial,
    inv.wqPop.publish hroom, inv.pooled, ⟨inv.sound.1, rfl⟩, fun h => ?_, inv.popping, inv.fresh⟩
  · have hwq : PopView.live { vb.queue.writeQueue with
        write := Boost.nextIndex vb.queue.writeQueue.write } p.wqPop =
        PopView.live vb.queue.writeQueue p.wqPop ++ [some b] := by
      rw [← hcell]
      exact hlive
    simp only [Threads.handles, Threads.rqLive, Threads.rqPop, hm, Consumer.rqPop,
      Consumer.holds, Threads.wqLive, Threads.producerHolds, hwq, List.count_append,
      List.count_cons, List.count_nil]
    omega
  · simp only [Threads.rqPop, hm, Consumer.rqPop]
    trivial
  · exact absurd (hm.symm.trans h) (by decide)

theorem readPushRead_ne {b : BlockId} {data : List (List α)} {valid : ℕ} {w : Index}
    (inv : Owned ⟨vb, p, .pushRead b data valid w⟩) :
    Boost.nextIndex w ≠ vb.queue.writeQueue.read := by
  have hw : w = vb.queue.writeQueue.write := inv.wqPush
  have hroom := inv.wq_room rfl
  rw [hw, Ne, Boost.nextIndex_eq_read]
  exact hroom.ne

/-- A step of the consumer keeps the owners apart and loses no block. -/
theorem consumerStep {s s' : Threads α} {es : List (Event α)} (inv : Owned s)
    (h : s.consumerStep = some (s', es)) : Owned s' ∧ ∀ b, Event.lost b ∉ es := by
  obtain ⟨vb, p, c⟩ := s
  cases c with
  | idle => cases h
  | crashed => cases h
  | popWrite =>
    cases h
    have hm := inv.consumer_mode (by simp)
    exact ⟨inv.readLoad hm _ (.refl _) (PopView.ok_loaded _) trivial rfl, by simp⟩
  | popRead w =>
    have hm := inv.consumer_mode (by simp)
    have hok : (PopView.loaded w : PopView Ptr _).Ok vb.queue.readQueue := by
      have := inv.rqPop
      rwa [rqPop_consumer hm] at this
    simp only [Threads.consumerStep] at h
    split_ifs at h with he
    · cases h
      exact ⟨inv.readLoad hm _ (.refl _) trivial trivial rfl, by simp⟩
    · cases h
      exact ⟨inv.readLoad hm _ (.refl _) (PopView.ok_ready hok he) trivial rfl, by simp⟩
  | popCopy r =>
    have hm := inv.consumer_mode (by simp)
    have hok : (PopView.ready r : PopView Ptr _).Ok vb.queue.readQueue := by
      have := inv.rqPop
      rwa [rqPop_consumer hm] at this
    have hlive := PopView.live_ready hok
    simp only [Threads.consumerStep] at h
    cases hb : vb.queue.readQueue.cell r with
    | none => exact absurd hb (inv.not_null_ready (rqPop_consumer hm))
    | some b =>
      have hok' := PopView.ok_copied hok
      rw [hb] at h hlive hok'
      cases h
      refine ⟨inv.readLoad hm _ ?_ hok' trivial rfl, by simp⟩
      simp [Consumer.holds, Consumer.rqPop, hlive]
  | popStore r b => cases h; exact ⟨inv.readPopStore, by simp⟩
  | copyData b =>
    cases h
    have hm := inv.consumer_mode (by simp)
    exact ⟨inv.readLoad hm _ (.refl _) trivial trivial rfl, by simp⟩
  | copyValid b data =>
    cases h
    have hm := inv.consumer_mode (by simp)
    exact ⟨inv.readLoad hm _ (.refl _) trivial trivial rfl, by simp⟩
  | reset b data valid =>
    cases h
    have hm := inv.consumer_mode (by simp)
    exact ⟨inv.readLoad hm _ (.refl _) trivial trivial rfl, by simp⟩
  | pushWrite b data valid =>
    cases h
    have hm := inv.consumer_mode (by simp)
    exact ⟨inv.readLoad hm _ (.refl _) trivial rfl rfl, by simp⟩
  | pushRead b data valid w =>
    have hm := inv.consumer_mode (by simp)
    simp only [Threads.consumerStep, if_neg inv.readPushRead_ne] at h
    cases h
    exact ⟨inv.readLoad hm _ (.refl _) trivial inv.wqPush rfl, by simp⟩
  | pushCopy b data valid w => cases h; exact ⟨inv.readPushCopy, by simp⟩
  | pushStore b data valid w =>
    cases h
    exact ⟨inv.readPushStore, by simp⟩

end Owned
end XBot
