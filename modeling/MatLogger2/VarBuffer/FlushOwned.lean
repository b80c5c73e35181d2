import MatLogger2.VarBuffer.Owners

/-! Each step of `flush_to_queue` keeps the owners apart, whatever the consumer
is doing meanwhile. -/

namespace XBot

open Spsc Transition

variable {α : Type}

namespace Owned

/-- A step that moves no block and loads nothing that a later store relies on. -/
theorem goto {vb : VariableBuffer α} {p p' : Producer α} {c : Consumer α} (inv : Owned ⟨vb, p, c⟩)
    (hh : p'.holds vb.currentBlock = p.holds vb.currentBlock)
    (hpush : p'.rqPush vb.currentBlock = .idle) (hpop : p'.rqPop = p.rqPop)
    (hall : p'.wqPop = p.wqPop) (hs : p'.sound = true) (hm : p'.popping = false)
    (hf : p'.popLoad vb.queue.readQueue.write) : Owned ⟨vb, p', c⟩ := by
  have hrq : Threads.rqPop ⟨vb, p', c⟩ = Threads.rqPop ⟨vb, p, c⟩ := by
    simp only [Threads.rqPop, hpop]
  refine ⟨?_, ?_, ?_, inv.wqPush, ?_, ?_, ⟨hs, inv.sound.2⟩, inv.circular,
    fun h => absurd h (by simp [hm]), hf⟩
  · have := inv.owned
    simpa only [Threads.handles, Threads.producerHolds, Threads.rqLive, Threads.wqLive, hrq, hh,
      hall] using this
  · simp only [hpush]
    trivial
  · rw [hrq]
    exact inv.rqPop
  · simp only [hall]
    exact inv.wqPop
  · simp only [hall]
    exact inv.pooled

variable {vb : VariableBuffer α} {c : Consumer α} {caller : Option (Eigen.MatrixXd α)}

theorem allCopy_cons {info : BufferInfo} {r : Index} {count : ℕ} {i : Index} {todo : List Index}
    (inv : Owned ⟨vb, .flushing caller (.allCopy info r count (i :: todo)), c⟩) :
    Owned ⟨{ vb with queue := { vb.queue with
        blockPool := vb.queue.blockPool ++ [vb.queue.writeQueue.cell i] } },
      .flushing caller (.allCopy info r count todo), c⟩ := by
  have hlive := PopView.live_bulk_next inv.wqPop
  have hlen : count - todo.length ≤ (count - (todo.length + 1)) + 1 := by omega
  refine ⟨perm_of_count inv.owned fun x => ?_, inv.rqPush, inv.rqPop, inv.wqPush,
    PopView.ok_bulk_next inv.wqPop, ?_, inv.sound, inv.circular, nofun, trivial⟩
  · simp only [Threads.handles, Threads.producerHolds, Threads.rqLive, Threads.wqLive,
      Producer.wqPop, hlive, List.count_append, List.count_cons, List.count_nil]
    simp only [Producer.holds, Threads.rqPop, Producer.rqPop]
    omega
  · have := inv.pooled
    simp only [Producer.wqPop, PopView.taken, List.length_cons, List.length_append,
      List.length_nil] at this ⊢
    omega

theorem allCopy_nil {info : BufferInfo} {r : Index} {count : ℕ}
    (inv : Owned ⟨vb, .flushing caller (.allCopy info r count []), c⟩) :
    Owned ⟨{ vb with queue := { vb.queue with
        writeQueue := { vb.queue.writeQueue with read := Boost.newReadIndex r count } } },
      .flushing caller (.takeBlock info), c⟩ := by
  have hr : r = vb.queue.writeQueue.read := inv.wqPop.1
  have hadv : ({ vb.queue.writeQueue with read := Boost.newReadIndex r count } : LockfreeQueue) =
      vb.queue.writeQueue.advance count := by
    rw [Boost.newReadIndex_eq, hr]
    rfl
  have hlive := PopView.live_bulk_end inv.wqPop
  rw [hadv]
  refine ⟨perm_of_count inv.owned fun x => ?_, inv.rqPush, inv.rqPop, inv.wqPush.advance count,
    trivial, Nat.zero_le _, inv.sound, fun h => ⟨(inv.circular h).1, ?_⟩, nofun, trivial⟩
  · simp only [Threads.handles, Threads.producerHolds, Threads.rqLive, Threads.wqLive,
      Producer.wqPop, hlive]
    rfl
  · show (vb.queue.writeQueue.advance count).content = []
    rw [Ring.content_advance _ inv.wqPop.2.1, (inv.circular h).2, List.drop_nil]

/-- The back of the pool becomes the new block, and is reset. -/
theorem takeBlock {info : BufferInfo} {b : BlockId} (f : BlockId → BufferBlock α)
    (inv : Owned ⟨vb, .flushing caller (.takeBlock info), c⟩)
    (hb : vb.queue.blockPool.getLast? = some (some b)) :
    Owned ⟨{ vb with block := f, queue := { vb.queue with blockPool := vb.queue.blockPool.dropLast } },
      .flushing caller (.pushWrite info b), c⟩ := by
  have hpool : vb.queue.blockPool = vb.queue.blockPool.dropLast ++ [some b] :=
    (List.dropLast_append_getLast? _ hb).symm
  refine ⟨perm_of_count inv.owned fun x => ?_, trivial, inv.rqPop, inv.wqPush, trivial,
    Nat.zero_le _, inv.sound, inv.circular, nofun, trivial⟩
  simp only [Threads.handles, Threads.producerHolds, Threads.rqLive, Threads.wqLive]
  conv_rhs => rw [hpool]
  simp only [List.count_append, List.count_cons, List.count_nil, Producer.holds, Producer.wqPop,
    Threads.rqPop, Producer.rqPop]
  omega

theorem popCopy {info : BufferInfo} {r : Index} {b : BlockId}
    (inv : Owned ⟨vb, .flushing caller (.popCopy info r), c⟩)
    (hb : vb.queue.readQueue.cell r = some b) :
    Owned ⟨vb, .flushing caller (.popStore info r b), c⟩ := by
  have hmode : vb.bufferMode = .circularBuffer := (inv.popping rfl).1
  have hrq : ∀ p : Producer α, Threads.rqPop ⟨vb, p, c⟩ = p.rqPop := by
    intro p
    simp only [Threads.rqPop, hmode]
  have hready : (PopView.ready r : PopView Ptr _).Ok vb.queue.readQueue := by
    have := inv.rqPop
    rwa [hrq] at this
  have hlive := PopView.live_ready hready
  rw [hb] at hlive
  refine ⟨perm_of_count inv.owned fun x => ?_, trivial, ?_, inv.wqPush, trivial, Nat.zero_le _,
    inv.sound, inv.circular, fun _ => inv.popping rfl, trivial⟩
  · simp only [Threads.handles, Threads.producerHolds, Threads.rqLive, Threads.wqLive, hrq,
      Producer.rqPop, Producer.holds, Producer.wqPop, hlive, List.count_append, List.count_cons,
      List.count_nil]
    omega
  · rw [hrq, Producer.rqPop, ← hb]
    exact PopView.ok_copied hready

theorem popStore {info : BufferInfo} {r : Index} {b : BlockId}
    (inv : Owned ⟨vb, .flushing caller (.popStore info r b), c⟩) :
    Owned ⟨{ vb with queue := { vb.queue with
        readQueue := { vb.queue.readQueue with read := Boost.nextIndex r } } },
      .flushing caller (.pushWrite info b), c⟩ := by
  have hmode : vb.bufferMode = .circularBuffer := (inv.popping rfl).1
  have hcopied : (PopView.copied r (some b) : PopView Ptr _).Ok vb.queue.readQueue := by
    have := inv.rqPop
    simpa only [Threads.rqPop, hmode, Producer.rqPop] using this
  have hadv : ({ vb.queue.readQueue with read := Boost.nextIndex r } : LockfreeQueue) =
      vb.queue.readQueue.advance 1 := by
    rw [hcopied.1]
    rfl
  have hlive := PopView.live_advance_one hcopied
  rw [hadv]
  refine ⟨perm_of_count inv.owned fun x => ?_, trivial, ?_, inv.wqPush, trivial, Nat.zero_le _,
    inv.sound, inv.circular, nofun, trivial⟩
  · simp only [Threads.handles, Threads.producerHolds, Threads.rqLive, Threads.wqLive,
      Threads.rqPop, hmode, Producer.rqPop, Producer.holds, Producer.wqPop, hlive]
  · simp only [Threads.rqPop, hmode, Producer.rqPop]
    trivial

/-- The view of the thread that pops from the read queue does not change with a
producer that pops nothing before and after. -/
theorem rqPop_congr {vb' : VariableBuffer α} {p p' : Producer α} (hm : vb'.bufferMode = vb.bufferMode)
    (hp : p.rqPop = p'.rqPop) : Threads.rqPop ⟨vb', p', c⟩ = Threads.rqPop ⟨vb, p, c⟩ := by
  simp only [Threads.rqPop, hm, hp]

theorem pushCopy {info : BufferInfo} {b : BlockId} {w : Index}
    (inv : Owned ⟨vb, .flushing caller (.pushCopy info b w), c⟩) :
    Owned ⟨{ vb with queue := { vb.queue with readQueue := { vb.queue.readQueue with
        cell := Function.update vb.queue.readQueue.cell w (some vb.currentBlock) } } },
      .flushing caller (.pushStore info b w), c⟩ := by
  have hw : w = vb.queue.readQueue.write := inv.rqPush
  subst hw
  refine ⟨perm_of_count inv.owned fun x => ?_, ⟨rfl, Ring.setCell_cell_write _ _⟩,
    inv.rqPop.setCell _, inv.wqPush, trivial, Nat.zero_le _, inv.sound, inv.circular,
    nofun, trivial⟩
  have hlive := PopView.live_setCell vb.queue.readQueue
    (Threads.rqPop ⟨vb, .flushing caller (.pushCopy info b vb.queue.readQueue.write), c⟩)
    (some vb.currentBlock)
  simp only [Threads.handles, Threads.rqLive, ← hlive]
  rfl

theorem pushStore {info : BufferInfo} {b : BlockId} {w : Index}
    (inv : Owned ⟨vb, .flushing caller (.pushStore info b w), c⟩) :
    Owned ⟨{ vb with queue := { vb.queue with
        readQueue := { vb.queue.readQueue with write := Boost.nextIndex w } } },
      .flushing caller (.setCurrent info b), c⟩ := by
  obtain ⟨hw, hcell⟩ : w = vb.queue.readQueue.write ∧
      vb.queue.readQueue.cell vb.queue.readQueue.write = some vb.currentBlock := inv.rqPush
  subst hw
  have hroom := inv.rq_room rfl rfl
  have hlive := PopView.live_publish inv.rqPop hroom
  refine ⟨perm_of_count inv.owned fun x => ?_, trivial, inv.rqPop.publish hroom, inv.wqPush,
    trivial, Nat.zero_le _, inv.sound, inv.circular, nofun, trivial⟩
  have hrq : Threads.rqLive ⟨{ vb with queue := { vb.queue with readQueue :=
      { vb.queue.readQueue with write := Boost.nextIndex vb.queue.readQueue.write } } },
      .flushing caller (.setCurrent info b), c⟩ =
      Threads.rqLive ⟨vb, .flushing caller (.pushStore info b vb.queue.readQueue.write), c⟩ ++
        [some vb.currentBlock] := by
    rw [← hcell]
    exact hlive
  simp only [Threads.handles, hrq, Threads.producerHolds, Producer.holds, Threads.wqLive,
    Producer.wqPop, List.count_append, List.count_cons, List.count_nil]
  omega

theorem setCurrent {info : BufferInfo} {b : BlockId}
    (inv : Owned ⟨vb, .flushing caller (.setCurrent info b), c⟩) :
    Owned ⟨{ vb with currentBlock := b }, .flushing caller (.callback info), c⟩ :=
  ⟨inv.owned, trivial, inv.rqPop, inv.wqPush, inv.wqPop, inv.pooled, inv.sound, inv.circular,
    nofun, trivial⟩

theorem allWrite {info : BufferInfo} (inv : Owned ⟨vb, .flushing caller (.allWrite info), c⟩) :
    Owned ⟨vb, .flushing caller (.allRead info vb.queue.writeQueue.write), c⟩ :=
  ⟨inv.owned, trivial, inv.rqPop, inv.wqPush, PopView.ok_loaded _, Nat.zero_le _, inv.sound,
    inv.circular, nofun, trivial⟩

theorem allRead {info : BufferInfo} {w : Index}
    (inv : Owned ⟨vb, .flushing caller (.allRead info w), c⟩) :
    Owned ⟨vb, .flushing caller (.allCopy info vb.queue.writeQueue.read
      (Boost.readAvailable w vb.queue.writeQueue.read)
      (Boost.consumeCells vb.queue.writeQueue.read
        (Boost.readAvailable w vb.queue.writeQueue.read))), c⟩ := by
  rw [Boost.consumeCells_eq, Boost.readAvailable_eq]
  refine ⟨perm_of_count inv.owned fun x => ?_, trivial, inv.rqPop, inv.wqPush,
    PopView.ok_bulk inv.wqPop, ?_, inv.sound, inv.circular, nofun, trivial⟩
  · simp only [Threads.handles, Threads.wqLive, Producer.wqPop, PopView.live_bulk_start]
    rfl
  · simp [Producer.wqPop, PopView.taken]

theorem popWrite {info : BufferInfo} (inv : Owned ⟨vb, .flushing caller (.popWrite info), c⟩) :
    Owned ⟨vb, .flushing caller (.popRead info vb.queue.readQueue.write), c⟩ := by
  have hmode : vb.bufferMode = .circularBuffer := (inv.popping rfl).1
  refine ⟨perm_of_count inv.owned fun x => ?_, trivial, ?_, inv.wqPush, trivial, Nat.zero_le _,
    inv.sound, inv.circular, fun _ => inv.popping rfl, rfl⟩
  · simp only [Threads.handles, Threads.rqLive, Threads.rqPop, hmode]
    rfl
  · simp only [Threads.rqPop, hmode]
    exact PopView.ok_loaded _

/-- With an empty pool and no consumer, all other blocks are in the read queue. -/
theorem popRead_ne {info : BufferInfo} {w : Index}
    (inv : Owned ⟨vb, .flushing caller (.popRead info w), c⟩) : w ≠ vb.queue.readQueue.read := by
  obtain ⟨hmode, hpool⟩ := inv.popping rfl
  obtain ⟨hc, hw⟩ := inv.circular hmode
  have hfresh : w = vb.queue.readQueue.write := inv.fresh
  have hl := inv.length_handles
  simp only at hmode hpool hc hw
  simp only [hpool, hc, hw, Threads.wqLive, Threads.producerHolds, Producer.holds, Threads.rqLive,
    Threads.rqPop, hmode, Producer.rqPop, Producer.wqPop, PopView.live_idle, PopView.live_loaded,
    Consumer.holds, List.length_nil, List.length_cons] at hl
  rw [hfresh, Ne, ← Ring.content_eq_nil]
  intro he
  rw [he] at hl
  exact absurd hl (by decide)

theorem popRead {info : BufferInfo} {w : Index}
    (inv : Owned ⟨vb, .flushing caller (.popRead info w), c⟩) :
    Owned ⟨vb, .flushing caller (.popCopy info vb.queue.readQueue.read), c⟩ := by
  have hmode : vb.bufferMode = .circularBuffer := (inv.popping rfl).1
  have hloaded : (PopView.loaded w : PopView Ptr _).Ok vb.queue.readQueue := by
    have := inv.rqPop
    simpa only [Threads.rqPop, hmode, Producer.rqPop] using this
  refine ⟨perm_of_count inv.owned fun x => ?_, trivial, ?_, inv.wqPush, trivial, Nat.zero_le _,
    inv.sound, inv.circular, fun _ => inv.popping rfl, trivial⟩
  · simp only [Threads.handles, Threads.rqLive, Threads.rqPop, hmode]
    rfl
  · simp only [Threads.rqPop, hmode]
    exact PopView.ok_ready hloaded inv.popRead_ne

theorem pushWrite {info : BufferInfo} {b : BlockId}
    (inv : Owned ⟨vb, .flushing caller (.pushWrite info b), c⟩) :
    Owned ⟨vb, .flushing caller (.pushRead info b vb.queue.readQueue.write), c⟩ :=
  ⟨inv.owned, rfl, inv.rqPop, inv.wqPush, inv.wqPop, inv.pooled, inv.sound, inv.circular, nofun,
    trivial⟩

theorem pushRead_ne {info : BufferInfo} {b : BlockId} {w : Index}
    (inv : Owned ⟨vb, .flushing caller (.pushRead info b w), c⟩) :
    Boost.nextIndex w ≠ vb.queue.readQueue.read := by
  have hw : w = vb.queue.readQueue.write := inv.rqPush
  have hroom := inv.rq_room rfl rfl
  rw [hw, Ne, Boost.nextIndex_eq_read]
  exact hroom.ne

theorem pushRead {info : BufferInfo} {b : BlockId} {w : Index}
    (inv : Owned ⟨vb, .flushing caller (.pushRead info b w), c⟩) :
    Owned ⟨vb, .flushing caller (.pushCopy info b w), c⟩ :=
  ⟨inv.owned, inv.rqPush, inv.rqPop, inv.wqPush, inv.wqPop, inv.pooled, inv.sound, inv.circular,
    nofun, trivial⟩

theorem flushStep {pc : FlushPc} (inv : Owned ⟨vb, .flushing caller pc, c⟩) :
    Owned ⟨(vb.flushStep pc : _ × _ × List (Event α)).1,
      (Threads.afterFlush caller (vb.flushStep pc : _ × _ × List (Event α)).2.1).1, c⟩ := by
  cases pc with
  | check =>
    simp only [VariableBuffer.flushStep]
    split_ifs
    · cases caller <;> exact inv.goto rfl rfl rfl rfl rfl rfl trivial
    · exact inv.goto rfl rfl rfl rfl rfl rfl trivial
  | infoWrite => exact inv.goto rfl rfl rfl rfl rfl rfl trivial
  | infoRead w => exact inv.goto rfl rfl rfl rfl rfl rfl trivial
  | allWrite info => exact inv.allWrite
  | allRead info w =>
    simp only [VariableBuffer.flushStep]
    split_ifs with h
    · exact ⟨inv.owned, trivial, inv.rqPop, inv.wqPush, trivial, Nat.zero_le _, inv.sound,
        inv.circular, nofun, trivial⟩
    · exact inv.allRead
  | allCopy info r count todo =>
    cases todo with
    | nil => exact inv.allCopy_nil
    | cons i todo => exact inv.allCopy_cons
  | takeBlock info =>
    simp only [VariableBuffer.flushStep]
    cases hp : vb.queue.blockPool.getLast? with
    | none =>
      have hnil := List.getLast?_eq_none_iff.mp hp
      cases hm : vb.bufferMode with
      | circularBuffer =>
        have hrq : ∀ p : Producer α, Threads.rqPop ⟨vb, p, c⟩ = p.rqPop := by
          intro p
          simp only [Threads.rqPop, hm]
        refine ⟨?_, trivial, ?_, inv.wqPush, trivial, Nat.zero_le _, inv.sound, inv.circular,
          fun _ => ⟨hm, hnil⟩, trivial⟩
        · have := inv.owned
          simp only [Threads.handles, Threads.rqLive, hrq] at this ⊢
          exact this
        · simp only [Threads.afterFlush, hrq]
          trivial
      | producerConsumer => cases caller <;> exact inv.goto rfl rfl rfl rfl rfl rfl trivial
    | some h =>
      cases h with
      | none => exact absurd hp inv.not_null_pool
      | some b => exact inv.takeBlock _ hp
  | popWrite info => exact inv.popWrite
  | popRead info w =>
    simp only [VariableBuffer.flushStep, if_neg inv.popRead_ne]
    exact inv.popRead
  | popCopy info r =>
    simp only [VariableBuffer.flushStep]
    have hmode : vb.bufferMode = .circularBuffer := (inv.popping rfl).1
    have hrq : Threads.rqPop ⟨vb, .flushing caller (.popCopy info r), c⟩ = .ready r := by
      simp only [Threads.rqPop, hmode, Producer.rqPop]
    cases hb : vb.queue.readQueue.cell r with
    | none => exact absurd hb (inv.not_null_ready hrq)
    | some b => exact inv.popCopy hb
  | popStore info r b => exact inv.popStore
  | pushWrite info b => exact inv.pushWrite
  | pushRead info b w =>
    simp only [VariableBuffer.flushStep, if_neg inv.pushRead_ne]
    exact inv.pushRead
  | pushCopy info b w => exact inv.pushCopy
  | pushStore info b w => exact inv.pushStore
  | setCurrent info b => exact inv.setCurrent
  | callback info => cases caller <;> exact inv.goto rfl rfl rfl rfl rfl rfl trivial

theorem flushStep_events (vb : VariableBuffer α) (pc : FlushPc) {e : Event α}
    (he : e ∈ (vb.flushStep pc : _ × _ × List (Event α)).2.2) :
    (∃ b, e = .pushed b) ∨ ∃ info, e = .notified info := by
  revert he
  fun_cases VariableBuffer.flushStep vb pc <;> simp_all

end Owned
end XBot
