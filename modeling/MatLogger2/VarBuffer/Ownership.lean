import MatLogger2.VarBuffer.FlushOwned
import MatLogger2.VarBuffer.ReadOwned

/-! The owners stay apart along every run of the two threads: each block is in
one place, no push fails and no null handle is met. -/

namespace XBot

open Spsc Transition

variable {α : Type}

theorem Owned.init {rows cols blockSize : ℕ} {mode : Mode} {s : Threads α}
    (h : (threads α rows cols blockSize mode).init s) : Owned s := by
  obtain ⟨name, hb, storage, callback, rfl⟩ := h
  obtain ⟨hr, hw, hp⟩ := VariableBuffer.make_queue name rows cols blockSize hb storage
  unfold Threads.start
  generalize VariableBuffer.make name rows cols blockSize hb storage = vb at hr hw hp
  exact Owned.start ((vb.setOnBlockAvailable callback).setBufferMode mode) hr hw (.of_eq hp)

namespace Owned

variable {s s' : Threads α} {es : List (Event α)}

/-- Entering a call or changing the samples of the current block moves no block. -/
theorem producerIdle {vb : VariableBuffer α} {p p' : Producer α} {c : Consumer α}
    (inv : Owned ⟨vb, p, c⟩) (f : BlockId → BufferBlock α)
    (hp : p.holds vb.currentBlock = p'.holds vb.currentBlock)
    (hv : p.rqPop = .idle ∧ p.wqPop = .idle)
    (hv' : p'.rqPop = .idle ∧ p'.wqPop = .idle ∧ p'.rqPush vb.currentBlock = .idle)
    (hs : p'.sound = true) (hm : p'.popping = false)
    (hf : p'.popLoad vb.queue.readQueue.write) : Owned ⟨{ vb with block := f }, p', c⟩ :=
  let inv' : Owned ⟨vb, p', c⟩ := inv.goto hp.symm hv'.2.2 (hv'.1.trans hv.1.symm)
    (hv'.2.1.trans hv.2.symm) hs hm hf
  ⟨inv'.owned, inv'.rqPush, inv'.rqPop, inv'.wqPush, inv'.wqPop, inv'.pooled, inv'.sound,
    inv'.circular, inv'.popping, inv'.fresh⟩

theorem producerStep (inv : Owned s) (h : s.producerStep = some (s', es)) : Owned s' := by
  obtain ⟨vb, p, c⟩ := s
  cases p with
  | idle => cases h
  | thrown what => cases h
  | crashed => cases h
  | adding data =>
    simp only [Threads.producerStep] at h
    split_ifs at h with hsize
    · cases h
      exact inv.goto rfl rfl rfl rfl rfl rfl trivial
    · cases hadd : vb.current.add data with
      | none =>
        rw [hadd] at h
        cases h
        exact inv.goto rfl rfl rfl rfl rfl rfl trivial
      | some b =>
        rw [hadd] at h
        cases h
        exact inv.producerIdle _ rfl ⟨rfl, rfl⟩ ⟨rfl, rfl, rfl⟩ rfl rfl trivial
  | flushing caller pc =>
    cases h
    exact inv.flushStep
  | resetting data ok =>
    cases h
    exact inv.producerIdle _ rfl ⟨rfl, rfl⟩ ⟨rfl, rfl, rfl⟩ rfl rfl trivial

theorem lost_notMem_producerStep (h : s.producerStep = some (s', es)) (b : BlockId) :
    Event.lost b ∉ es := by
  obtain ⟨vb, p, c⟩ := s
  cases p with
  | idle => cases h
  | thrown what => cases h
  | crashed => cases h
  | adding data =>
    simp only [Threads.producerStep] at h
    split_ifs at h with hsize
    · cases h
      simp
    · cases hadd : vb.current.add data <;> rw [hadd] at h <;> cases h <;> simp
  | resetting data ok =>
    cases h
    simp
  | flushing caller pc =>
    cases h
    have hafter : ∀ next, Event.lost b ∉ (Threads.afterFlush caller next).2 := by
      rintro (pc | ok | what | _)
      · simp [Threads.afterFlush]
      · cases caller <;> simp [Threads.afterFlush]
      · simp [Threads.afterFlush]
      · simp [Threads.afterFlush]
    have hflush : Event.lost b ∉ (vb.flushStep pc : _ × _ × List (Event α)).2.2 := by
      intro hb
      rcases flushStep_events vb pc hb with ⟨b', h⟩ | ⟨info, h⟩ <;> cases h
    simp only [List.mem_append, not_or]
    exact ⟨hflush, hafter _⟩

theorem step {a : Act α} (inv : Owned s) (h : s.step a = some (s', es)) :
    Owned s' ∧ ∀ b, Event.lost b ∉ es := by
  obtain ⟨vb, p, c⟩ := s
  cases a with
  | callAddElem data =>
    cases p <;> cases h
    exact ⟨inv.goto rfl rfl rfl rfl rfl rfl trivial, nofun⟩
  | callFlushToQueue =>
    cases p <;> cases h
    exact ⟨inv.goto rfl rfl rfl rfl rfl rfl trivial, nofun⟩
  | producer => exact ⟨inv.producerStep h, lost_notMem_producerStep h⟩
  | callReadBlock =>
    cases c with
    | idle =>
      cases hm : vb.bufferMode with
      | circularBuffer =>
        simp only [Threads.step, hm] at h
        cases h
        exact ⟨inv, by simp⟩
      | producerConsumer =>
        simp only [Threads.step, hm] at h
        cases h
        exact ⟨inv.readLoad hm _ (.refl _) trivial trivial rfl, nofun⟩
    | _ => cases h
  | consumer => exact inv.consumerStep h

theorem run {rows cols blockSize : ℕ} {mode : Mode} {hist : List (Threads α)}
    {tr : List (Event α)} (h : (threads α rows cols blockSize mode).Run hist tr s) :
    Owned s ∧ ∀ b, Event.lost b ∉ tr := by
  refine h.inv (I := fun tr s => Owned s ∧ ∀ b, Event.lost b ∉ tr)
    (fun s hs => ⟨Owned.init hs, nofun⟩) ?_
  rintro tr s es s' ⟨inv, hl⟩ ⟨a, ha⟩
  obtain ⟨inv', hl'⟩ := inv.step ha
  refine ⟨inv', fun b hb => ?_⟩
  rcases List.mem_append.mp hb with hb | hb
  · exact hl b hb
  · exact hl' b hb

end Owned

inductive Place
  | pool
  | producer
  | readQueue
  | writeQueue
  | consumer
  deriving DecidableEq

def Threads.owns (s : Threads α) : Place → List Ptr
  | .pool => s.vb.queue.blockPool
  | .producer => s.producerHolds
  | .readQueue => s.rqLive
  | .writeQueue => s.wqLive
  | .consumer => s.consumer.holds

theorem Owned.owns_sublist (s : Threads α) (place : Place) :
    (s.owns place).Sublist s.handles := by
  have hleft : ∀ l l' : List Ptr, l.Sublist (l ++ l') := List.sublist_append_left
  have hright : ∀ l l' : List Ptr, l'.Sublist (l ++ l') := List.sublist_append_right
  cases place with
  | pool => exact ((hleft _ _).trans (hleft _ _)).trans ((hleft _ _).trans (hleft _ _))
  | producer => exact ((hright _ _).trans (hleft _ _)).trans ((hleft _ _).trans (hleft _ _))
  | readQueue => exact ((hright _ _).trans (hleft _ _)).trans (hleft _ _)
  | writeQueue => exact (hright _ _).trans (hleft _ _)
  | consumer => exact hright _ _

/-- A list without duplicates that is cut in five: each entry is in one part. -/
theorem Owned.one_place {s : Threads α} (inv : Owned s) (b : BlockId) :
    ∃! place, some b ∈ s.owns place := by
  have hmem : some b ∈ s.handles := inv.owned.mem_iff.mpr (mem_allBlocks.mpr nofun)
  have hone : s.handles.count (some b) = 1 := List.count_eq_one_of_mem inv.nodup_handles hmem
  simp only [Threads.handles, List.count_append] at hone
  have hiff : ∀ place, some b ∈ s.owns place ↔ 0 < (s.owns place).count (some b) :=
    fun _ => List.count_pos_iff.symm
  simp only [hiff]
  have hex : ∃ place, 0 < (s.owns place).count (some b) := by
    by_contra hno
    push Not at hno
    have h₁ := hno .pool
    have h₂ := hno .producer
    have h₃ := hno .readQueue
    have h₄ := hno .writeQueue
    have h₅ := hno .consumer
    simp only [Threads.owns] at h₁ h₂ h₃ h₄ h₅
    omega
  obtain ⟨place, hp⟩ := hex
  refine ⟨place, hp, fun other ho => ?_⟩
  cases place <;> cases other <;> first | rfl | (simp only [Threads.owns] at hp ho; omega)

theorem Owned.apart {s : Threads α} (inv : Owned s) {place : Place} (other : Place)
    (hne : place ≠ other) {b : BlockId} (h : some b ∈ s.owns place) : some b ∉ s.owns other := by
  intro h'
  obtain ⟨p, -, huniq⟩ := inv.one_place b
  exact hne ((huniq place h).trans (huniq other h').symm)

/-- In every reachable state each block is in exactly one place, and once in it;
no null handle is met and no push or circular pop has failed. -/
theorem block_ownership {rows cols blockSize : ℕ} {mode : Mode} {hist : List (Threads α)}
    {tr : List (Event α)} {s : Threads α}
    (h : (threads α rows cols blockSize mode).Run hist tr s) :
    (∀ b, ∃! place, some b ∈ s.owns place) ∧
      (∀ place, (s.owns place).Nodup ∧ none ∉ s.owns place) ∧
      (∀ what, s.producer ≠ .thrown what) ∧ s.producer ≠ .crashed ∧ s.consumer ≠ .crashed ∧
      ∀ b, Event.lost b ∉ tr := by
  obtain ⟨inv, hlost⟩ := Owned.run h
  obtain ⟨hp, hc⟩ := inv.sound
  refine ⟨inv.one_place, fun place => ⟨?_, ?_⟩, ?_, ?_, ?_, hlost⟩
  · exact inv.nodup_handles.sublist (Owned.owns_sublist s place)
  · exact fun hn => inv.none_notMem ((Owned.owns_sublist s place).subset hn)
  · rintro what he
    simp [he, Producer.sound] at hp
  · rintro he
    simp [he, Producer.sound] at hp
  · rintro he
    simp [he, Consumer.sound] at hc

/-- Add a sample, flush it, and read until the consumer has its block in hand. -/
def readOneBlock : List (Act ℕ) :=
  [.callAddElem ⟨1, 1, [7], rfl⟩, .producer, .callFlushToQueue] ++ List.replicate 12 .producer ++
    [.callReadBlock] ++ List.replicate 4 .consumer

theorem block_ownership_reading : ∃ hist tr s,
    (threads ℕ 1 1 1 .producerConsumer).Run hist tr s ∧ s.owns .consumer = [some 19] ∧
      ∀ b, ∃! place, some b ∈ s.owns place := by
  have hex : ((exec Threads.step (Threads.start [] 1 1 1 one_pos (fun _ => ⟨[[0]], by decide⟩)
      .producerConsumer false) readOneBlock).map fun p => p.1.owns .consumer) =
      some [some 19] := by
    decide +kernel
  rw [Option.map_eq_some_iff] at hex
  obtain ⟨⟨s, es⟩, h, hs⟩ := hex
  obtain ⟨hist, hr⟩ := threads_run_exec ⟨[], one_pos, _, false, rfl⟩ h
  exact ⟨hist, es, s, hr, hs, (block_ownership hr).1⟩

end XBot
