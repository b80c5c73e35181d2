import MatLogger2.VarBuffer.Effects

/-! Each step of the producer is matched by the atomic log, whatever the consumer is doing
meanwhile. -/

namespace XBot

open Spsc Transition

variable {α : Type}

/-- Some steps of the atomic log show these calls and returns and match the new state. -/
def Follows (b dim : ℕ) (a : AtomicLog α) (es : List (CallEvent α)) (s' : Threads α) : Prop :=
  ∃ a', ((logObject α b dim).atomic Thread).Leads a es a' ∧ Matches b dim s' a'

namespace Follows

variable {b dim : ℕ} {a : AtomicLog α} {s' : Threads α} {i : Thread} {op : BufferOp α} {r : BufferRet α}
variable {l : BlockLog (List α)}

theorem quiet (h : Matches b dim s' a) : Follows b dim a [] s' := ⟨a, .refl a, h⟩

theorem call (hst : a.status i = .idle) (h : ∀ a' : AtomicLog α, a'.state = a.state →
      a'.status i = .called op → (∀ j, j ≠ i → a'.status j = a.status j) → Matches b dim s' a') :
    Follows b dim a [.call i op] s' :=
  ⟨_, .one (.call op hst), h _ rfl (by simp) fun _ hj => a.set_of_ne hj _⟩

theorem commit (hst : a.status i = .called op) (hop : logOp b dim a.state op = (l, r))
    (h : ∀ a' : AtomicLog α, a'.state = l → a'.status i = .done r →
      (∀ j, j ≠ i → a'.status j = a.status j) → Matches b dim s' a') : Follows b dim a [] s' := by
  refine ⟨_, .one (.commit hst), h _ (congrArg Prod.fst hop) ?_ fun _ hj => ?_⟩
  · rw [Linear.Object.commit_status]
    exact congrArg _ (congrArg Prod.snd hop)
  · exact Linear.Object.commit_of_ne _ a hj op

theorem ret (hst : a.status i = .done r) (h : ∀ a' : AtomicLog α, a'.state = a.state →
      a'.status i = .idle → (∀ j, j ≠ i → a'.status j = a.status j) → Matches b dim s' a') :
    Follows b dim a [.ret i r] s' :=
  ⟨_, .one (.ret hst), h _ rfl (by simp) fun _ hj => a.set_of_ne hj _⟩

/-- A call that takes effect and returns in one step. -/
theorem commitRet (hst : a.status i = .called op) (hop : logOp b dim a.state op = (l, r))
    (h : ∀ a' : AtomicLog α, a'.state = l → a'.status i = .idle →
      (∀ j, j ≠ i → a'.status j = a.status j) → Matches b dim s' a') :
    Follows b dim a [.ret i r] s' := by
  have hl := Linear.Object.commit_ret (logObject α b dim) hst
  have hr : ((logObject α b dim).apply a.state op).2 = r := congrArg Prod.snd hop
  rw [hr] at hl
  refine ⟨_, hl, h _ (congrArg Prod.fst hop) (by simp) fun j hj => ?_⟩
  rw [Linear.Atomic.set_of_ne _ hj, Linear.Object.commit_of_ne _ a hj]

end Follows

namespace Matches

variable {b dim : ℕ} {tr : List (Event α)} {s s' : Threads α} {a : AtomicLog α}
variable {vb : VariableBuffer α} {p : Producer α} {c : Consumer α}

section Flush

variable {caller : Option (Eigen.MatrixXd α)}

/-- A flush for which nothing is left to do, or which is refused, returns to its caller. -/
theorem check (h : Matches b dim ⟨vb, .flushing caller .check, c⟩ a)
    (ord : Ordered b tr ⟨vb, .flushing caller .check, c⟩) (hb : 0 < b)
    (hm : vb.bufferMode = .producerConsumer) (hv : vb.current.valid = []) :
    Follows b dim a ((Threads.afterFlush caller (.ret true)).2.filterMap Event.returns)
      ⟨vb, (Threads.afterFlush caller (.ret true)).1, c⟩ := by
  cases caller with
  | some data =>
    have hfull : vb.current.valid.length = b := ord.fills rfl
    rw [hv, List.length_nil] at hfull
    omega
  | none =>
    obtain ⟨-, hstage⟩ := h.producer
    cases hstage with
    | refusing href => exact href.elim
    | published hpub => exact hpub.elim
    | undecided _ _ hcur hst =>
      have hnil : a.state.current = [] := hcur.trans hv
      have hop : logOp b dim a.state .flushToQueue = (a.state, .ok true) := by
        simp only [logOp, BlockLog.flush_nil hnil]
      refine .commitRet hst hop fun a' hs hi hj => ?_
      refine h.producerStep rfl rfl rfl (hs ▸ h.fits) ?_ ⟨by rw [hs, hcur], hi⟩ (hj _ (by decide))
      rw [hs, h.queue, Threads.blocks_eq hm]
      exact (Threads.blocks_eq hm).symm

/-- Seen from the log, a flush that has been refused has returned. -/
theorem refused {info : BufferInfo} (h : Matches b dim ⟨vb, .flushing caller (.takeBlock info), c⟩ a)
    (hm : vb.bufferMode = .producerConsumer) (hp : vb.queue.blockPool = []) :
    Follows b dim a ((Threads.afterFlush caller (.ret false)).2.filterMap Event.returns)
      ⟨vb, (Threads.afterFlush caller (.ret false)).1, c⟩ := by
  have hq : ∀ p, Threads.blocks ⟨vb, p, c⟩ =
      Threads.blocks ⟨vb, .flushing caller (.takeBlock info), c⟩ := fun p => by
    rw [Threads.blocks_eq hm, Threads.blocks_eq hm]
  obtain ⟨hs, hstage⟩ := h.producer
  cases hstage with
  | undecided hpool => exact absurd hp hpool
  | published hpub => exact hpub.elim
  | refusing _ hcur hst =>
    cases caller with
    | none =>
      refine .ret hst fun a' hs hi hj => ?_
      exact h.producerStep rfl rfl rfl (hs ▸ h.fits) (by rw [hs, h.queue]; exact (hq _).symm)
        ⟨by rw [hs, hcur]; rfl, hi⟩ (hj _ (by decide))
    | some data => exact .quiet (h.producerQuiet rfl rfl rfl (hq _) ⟨hs data rfl, hcur, hst⟩)

/-- The same for one that has published its block. -/
theorem published {info : BufferInfo} (h : Matches b dim ⟨vb, .flushing caller (.callback info), c⟩ a)
    (ord : Ordered b tr ⟨vb, .flushing caller (.callback info), c⟩)
    (hm : vb.bufferMode = .producerConsumer) :
    Follows b dim a ((Threads.afterFlush caller (.ret true)).2.filterMap Event.returns)
      ⟨vb, (Threads.afterFlush caller (.ret true)).1, c⟩ := by
  have hq : ∀ p, Threads.blocks ⟨vb, p, c⟩ =
      Threads.blocks ⟨vb, .flushing caller (.callback info), c⟩ := fun p => by
    rw [Threads.blocks_eq hm, Threads.blocks_eq hm]
  obtain ⟨hs, hstage⟩ := h.producer
  cases hstage with
  | undecided hund => exact hund.elim
  | refusing href => exact href.elim
  | published _ hcur hst =>
    cases caller with
    | none =>
      have hempty : vb.current.valid = [] := ord.fills
      refine .ret hst fun a' hs hi hj => ?_
      exact h.producerStep rfl rfl rfl (hs ▸ h.fits) (by rw [hs, h.queue]; exact (hq _).symm)
        ⟨by rw [hs, hcur, hempty]; rfl, hi⟩ (hj _ (by decide))
    | some data => exact .quiet (h.producerQuiet rfl rfl rfl (hq _) ⟨hs data rfl, hcur, hst⟩)

/-- The index loaded decides the flush if there is no other free block. -/
theorem allWrite {info : BufferInfo} (h : Matches b dim ⟨vb, .flushing caller (.allWrite info), c⟩ a)
    (own : Owned ⟨vb, .flushing caller (.allWrite info), c⟩)
    (ord : Ordered b tr ⟨vb, .flushing caller (.allWrite info), c⟩) (hb : 0 < b)
    (hm : vb.bufferMode = .producerConsumer) :
    Follows b dim a []
      ⟨vb, .flushing caller (.allRead info vb.queue.writeQueue.write), c⟩ := by
  have hq : Threads.blocks ⟨vb, .flushing caller (.allRead info vb.queue.writeQueue.write), c⟩ =
      Threads.blocks ⟨vb, .flushing caller (.allWrite info), c⟩ := by
    rw [Threads.blocks_eq hm, Threads.blocks_eq hm]
  obtain ⟨hs, hstage⟩ := h.producer
  cases hstage with
  | refusing href => exact href.elim
  | published hpub => exact hpub.elim
  | undecided _ hne hcur hst =>
    have hne : vb.current.valid ≠ [] := hne (by simp)
    by_cases hnone : vb.queue.blockPool = [] ∧ vb.queue.writeQueue.write = vb.queue.writeQueue.read
    · have hwq : Threads.wqLive ⟨vb, .flushing caller (.allWrite info), c⟩ = [] :=
        (Ring.content_eq_nil _).mpr hnone.2
      have hfree := h.free own
      simp only [hnone.1, hwq, Threads.producerHolds, Producer.holds, List.length_nil,
        List.length_cons] at hfree
      have hop : logOp b dim a.state (flushOp caller) = _ := logOp_refused (hcur ▸ hne)
        (by omega) hs (fun hsome => hcur ▸ ord.fills hsome)
      refine .commit hst hop fun a' hs' hi hj => ?_
      have hf := fits_logOp dim h.fits hb (flushOp caller)
      rw [hop] at hf
      refine h.producerStep rfl rfl rfl (hs' ▸ hf) (by rw [hs', hq]; exact h.queue)
        ⟨hs, .refusing hnone ?_ hi⟩ (hj _ (by decide))
      rw [hs', hcur]
    · refine .quiet (h.producerQuiet rfl rfl rfl hq ⟨hs, .undecided ?_ (fun _ => hne) hcur hst⟩)
      exact not_and_or.mp hnone

/-- A new block is taken from the pool. -/
theorem takeBlock {info : BufferInfo} {i : BlockId}
    (h : Matches b dim ⟨vb, .flushing caller (.takeBlock info), c⟩ a)
    (own : Owned ⟨vb, .flushing caller (.takeBlock info), c⟩) (pool : List Ptr)
    (hi : vb.queue.blockPool.getLast? = some (some i)) :
    Matches b dim ⟨{ vb.setBlock i (vb.block i).reset with
      queue := { vb.queue with blockPool := pool } }, .flushing caller (.pushWrite info i), c⟩ a := by
  have hmem : some i ∈ Threads.owns ⟨vb, .flushing caller (.takeBlock info), c⟩ .pool :=
    List.mem_of_getLast? hi
  have hrq := own.apart .readQueue (by decide) hmem
  have hc := own.apart .consumer (by decide) hmem
  have hcur : vb.currentBlock ≠ i := by
    rintro rfl
    exact own.apart .producer (by decide) hmem (Ordered.owned_current rfl)
  have hvalid : (Function.update vb.block i (vb.block i).reset) vb.currentBlock =
      vb.block vb.currentBlock := Function.update_of_ne hcur _ _
  obtain ⟨hs, hstage⟩ := h.producer
  refine h.producerQuiet rfl rfl rfl (Threads.blocks_update (vb.block i).reset hc hrq) ⟨hs, ?_⟩
  simp only [VariableBuffer.current, VariableBuffer.setBlock, hvalid]
  cases hstage with
  | undecided _ hne hlog hst => exact .undecided trivial (fun _ => hne (by simp)) hlog hst
  | published hpub => exact hpub.elim
  | refusing hnil =>
    have hnil : vb.queue.blockPool = [] := hnil
    simp [hnil] at hi

/-- Publishing the current block decides the flush. -/
theorem pushStore {info : BufferInfo} {i : BlockId} {w : Index}
    (h : Matches b dim ⟨vb, .flushing caller (.pushStore info i w), c⟩ a)
    (own : Owned ⟨vb, .flushing caller (.pushStore info i w), c⟩)
    (ord : Ordered b tr ⟨vb, .flushing caller (.pushStore info i w), c⟩) (hb : 0 < b) :
    Follows b dim a [] ⟨{ vb with queue := { vb.queue with
        readQueue := { vb.queue.readQueue with write := Boost.nextIndex w } } },
      .flushing caller (.setCurrent info i), c⟩ := by
  obtain ⟨hw, hcell⟩ : w = vb.queue.readQueue.write ∧
      vb.queue.readQueue.cell vb.queue.readQueue.write = some vb.currentBlock := own.rqPush
  subst hw
  have hlive := PopView.live_publish own.rqPop (own.rq_room rfl rfl)
  have hq : Threads.blocks ⟨{ vb with queue := { vb.queue with
      readQueue := { vb.queue.readQueue with write := Boost.nextIndex vb.queue.readQueue.write } } },
      .flushing caller (.setCurrent info i), c⟩ =
      Threads.blocks ⟨vb, .flushing caller (.pushStore info i vb.queue.readQueue.write), c⟩ ++
        [vb.current.valid] := by
    have hmap := congrArg (List.map (validOf vb.block)) hlive
    rw [List.map_append, hcell] at hmap
    simp only [Threads.blocks, List.append_assoc]
    congr 1
  obtain ⟨hs, hstage⟩ := h.producer
  cases hstage with
  | refusing href => exact href.elim
  | published hpub => exact hpub.elim
  | undecided _ hne hcur hst =>
    have hfree := h.free own
    simp only [Threads.producerHolds, Producer.holds, List.length_nil, List.length_cons] at hfree
    have hop : logOp b dim a.state (flushOp caller) = _ := logOp_free (hcur ▸ hne (by simp))
      (by omega) hs (fun hsome => hcur ▸ ord.fills.1 hsome)
    refine .commit hst hop fun a' hs' hi hj => ?_
    have hf := fits_logOp dim h.fits hb (flushOp caller)
    rw [hop] at hf
    refine h.producerStep rfl rfl rfl (hs' ▸ hf) ?_ ⟨hs, .published trivial ?_ hi⟩ (hj _ (by decide))
    · rw [hs', hq, ← h.queue, hcur]
    · rw [hs']

/-- A step that goes on to a place where the flush is still undecided. -/
theorem flushing {pc pc' : FlushPc} (h : Matches b dim ⟨vb, .flushing caller pc, c⟩ a)
    (hm : vb.bufferMode = .producerConsumer) (hne : pc = .check → vb.current.valid ≠ [])
    (hund : pc.Undecided vb.queue.blockPool vb.queue.writeQueue.read →
      pc'.Undecided vb.queue.blockPool vb.queue.writeQueue.read)
    (hr : ¬ pc.Refusing vb.queue.blockPool vb.queue.writeQueue.read) (hp : ¬ pc.Published) :
    Matches b dim ⟨vb, .flushing caller pc', c⟩ a := by
  obtain ⟨hs, hstage⟩ := h.producer
  cases hstage with
  | refusing href => exact absurd href hr
  | published hpub => exact absurd hpub hp
  | undecided h' hne' hcur hst =>
    refine h.producerQuiet rfl rfl rfl ?_ ⟨hs, .undecided (hund h') (fun _ => ?_) hcur hst⟩
    · rw [Threads.blocks_eq hm, Threads.blocks_eq hm]
    · by_cases hcheck : pc = .check
      · exact hne hcheck
      · exact hne' hcheck

/-- The index loaded shows how much there is to take out of the write queue. -/
theorem allRead {info : BufferInfo} {w : Index}
    (h : Matches b dim ⟨vb, .flushing caller (.allRead info w), c⟩ a)
    (hm : vb.bufferMode = .producerConsumer) (he : w = vb.queue.writeQueue.read) :
    Matches b dim ⟨vb, .flushing caller (.takeBlock info), c⟩ a := by
  have hq : Threads.blocks ⟨vb, .flushing caller (.takeBlock info), c⟩ =
      Threads.blocks ⟨vb, .flushing caller (.allRead info w), c⟩ := by
    rw [Threads.blocks_eq hm, Threads.blocks_eq hm]
  obtain ⟨hs, hstage⟩ := h.producer
  refine h.producerQuiet rfl rfl rfl hq ⟨hs, ?_⟩
  cases hstage with
  | refusing href hcur hst => exact .refusing href.1 hcur hst
  | published hpub => exact hpub.elim
  | undecided hund hne hcur hst =>
    exact .undecided (hund.resolve_right (not_not.mpr he)) (fun _ => hne (by simp)) hcur hst

theorem allCopy {info : BufferInfo} {w : Index} {todo : List Index}
    (h : Matches b dim ⟨vb, .flushing caller (.allRead info w), c⟩ a)
    (hm : vb.bufferMode = .producerConsumer) {count : ℕ} (hc : 0 < count)
    (he : w ≠ vb.queue.writeQueue.read) :
    Matches b dim ⟨vb, .flushing caller (.allCopy info vb.queue.writeQueue.read count todo), c⟩ a :=
  h.flushing hm nofun (fun _ => hc) (fun hr => he hr.2) id

/-- What is copied goes to the pool, so that the flush will find a block there. -/
theorem allCopied {info : BufferInfo} {r : Index} {count : ℕ} {todo : List Index} {pc : FlushPc}
    {pool : List Ptr} {writeQueue : LockfreeQueue}
    (h : Matches b dim ⟨vb, .flushing caller (.allCopy info r count todo), c⟩ a)
    (hm : vb.bufferMode = .producerConsumer)
    (hund : 0 < count → pc.Undecided pool writeQueue.read) :
    Matches b dim ⟨{ vb with queue := { vb.queue with blockPool := pool, writeQueue } },
      .flushing caller pc, c⟩ a := by
  obtain ⟨hs, hstage⟩ := h.producer
  cases hstage with
  | refusing href => exact href.elim
  | published hpub => exact hpub.elim
  | undecided hcount hne hcur hst =>
    refine h.producerQuiet rfl rfl rfl ?_ ⟨hs, .undecided (hund hcount) (fun _ => hne (by simp))
      hcur hst⟩
    exact (Threads.blocks_eq hm).trans (Threads.blocks_eq hm).symm

theorem pushCopy {info : BufferInfo} {i : BlockId} {w : Index}
    (h : Matches b dim ⟨vb, .flushing caller (.pushCopy info i w), c⟩ a)
    (own : Owned ⟨vb, .flushing caller (.pushCopy info i w), c⟩) :
    Matches b dim ⟨{ vb with queue := { vb.queue with readQueue := { vb.queue.readQueue with
        cell := Function.update vb.queue.readQueue.cell w (some vb.currentBlock) } } },
      .flushing caller (.pushStore info i w), c⟩ a := by
  obtain rfl : w = vb.queue.readQueue.write := own.rqPush
  obtain ⟨hs, hstage⟩ := h.producer
  cases hstage with
  | refusing href => exact href.elim
  | published hpub => exact hpub.elim
  | undecided _ hne hcur hst =>
    refine h.producerQuiet rfl rfl rfl ?_ ⟨hs, .undecided trivial (fun _ => hne (by simp)) hcur hst⟩
    simp only [Threads.blocks]
    congr 2
    exact PopView.live_setCell vb.queue.readQueue _ _

theorem setCurrent {info : BufferInfo} {i : BlockId}
    (h : Matches b dim ⟨vb, .flushing caller (.setCurrent info i), c⟩ a) :
    Matches b dim ⟨{ vb with currentBlock := i }, .flushing caller (.callback info), c⟩ a := by
  obtain ⟨hs, hstage⟩ := h.producer
  cases hstage with
  | undecided hund => exact hund.elim
  | refusing href => exact href.elim
  | published _ hcur hst =>
    exact h.producerQuiet rfl rfl rfl rfl ⟨hs, .published trivial hcur hst⟩

theorem flushStep {pc : FlushPc} (h : Matches b dim ⟨vb, .flushing caller pc, c⟩ a)
    (own : Owned ⟨vb, .flushing caller pc, c⟩) (ord : Ordered b tr ⟨vb, .flushing caller pc, c⟩)
    (hb : 0 < b) (hm : vb.bufferMode = .producerConsumer) :
    Follows b dim a (((vb.flushStep pc).2.2 ++ (Threads.afterFlush caller (vb.flushStep pc : _ × _ ×
        List (Event α)).2.1).2).filterMap Event.returns)
      ⟨(vb.flushStep pc : _ × _ × List (Event α)).1,
        (Threads.afterFlush caller (vb.flushStep pc : _ × _ × List (Event α)).2.1).1, c⟩ := by
  have hnp := own.not_popping hm
  cases pc with
  | check =>
    simp only [VariableBuffer.flushStep]
    split_ifs with hv
    · exact h.check ord hb hm ((BufferBlock.valid_eq_nil _).mpr hv)
    · exact .quiet (h.flushing hm (fun _ => mt (BufferBlock.valid_eq_nil _).mp hv) id id id)
  | infoWrite => exact .quiet (h.flushing hm (by simp) id id id)
  | infoRead w => exact .quiet (h.flushing hm (by simp) id id id)
  | allWrite info => exact h.allWrite own ord hb hm
  | allRead info w =>
    simp only [VariableBuffer.flushStep]
    split_ifs with he
    · exact .quiet (h.allRead hm (by rwa [Boost.readAvailable_eq, gap_eq_zero] at he))
    · refine .quiet (h.allCopy hm (Nat.pos_of_ne_zero he) ?_)
      rwa [Boost.readAvailable_eq, gap_eq_zero] at he
  | allCopy info r count todo =>
    cases todo with
    | cons i todo => exact .quiet (h.allCopied hm id)
    | nil =>
      refine .quiet (h.allCopied hm fun hcount hnil => ?_)
      have hpooled : count ≤ vb.queue.blockPool.length := own.pooled
      rw [hnil, List.length_nil] at hpooled
      omega
  | takeBlock info =>
    simp only [VariableBuffer.flushStep]
    cases hp : vb.queue.blockPool.getLast? with
    | none =>
      simp only [hm]
      exact h.refused hm (List.getLast?_eq_none_iff.mp hp)
    | some x =>
      cases x with
      | none => exact absurd hp own.not_null_pool
      | some i => exact .quiet (h.takeBlock own vb.queue.blockPool.dropLast hp)
  | popWrite info => exact absurd hnp (by simp [Producer.popping])
  | popRead info w => exact absurd hnp (by simp [Producer.popping])
  | popCopy info r => exact absurd hnp (by simp [Producer.popping])
  | popStore info r i => exact absurd hnp (by simp [Producer.popping])
  | pushWrite info i => exact .quiet (h.flushing hm (by simp) id id id)
  | pushRead info i w =>
    simp only [VariableBuffer.flushStep, if_neg own.pushRead_ne]
    exact .quiet (h.flushing hm (by simp) id id id)
  | pushCopy info i w => exact .quiet (h.pushCopy own)
  | pushStore info i w => exact h.pushStore own ord hb
  | setCurrent info i => exact .quiet h.setCurrent
  | callback info =>
    have hes : ∀ es : List (Event α), (((vb.flushStep (.callback info)).2.2 ++ es).filterMap
        Event.returns) = es.filterMap Event.returns := by
      intro es
      simp only [VariableBuffer.flushStep, List.filterMap_append]
      split_ifs <;> rfl
    rw [hes]
    exact h.published ord hm

end Flush

section Producer

/-- The samples in the current block are replaced; no queued block is touched. -/
theorem setCurrentBlock {p' : Producer α} {a' : AtomicLog α} (h : Matches b dim ⟨vb, p, c⟩ a)
    (own : Owned ⟨vb, p, c⟩) (hm : vb.bufferMode = .producerConsumer)
    (hp : p.holds vb.currentBlock = [some vb.currentBlock]) (x : BufferBlock α)
    (hf : a'.state.Fits NUM_BLOCKS b) (hq : a'.state.queue = a.state.queue)
    (hstage : p'.Stage vb.queue.blockPool vb.queue.writeQueue.read dim x.valid a'.state.current
      (a'.status .producer))
    (hc : a'.status .consumer = a.status .consumer) :
    Matches b dim ⟨vb.setCurrent x, p', c⟩ a' := by
  have hmem := Ordered.owned_current (s := ⟨vb, p, c⟩) hp
  have hrq := own.apart .readQueue (by decide) hmem
  have hhold := own.apart .consumer (by decide) hmem
  have hblocks := Threads.blocks_update x hhold hrq
  refine h.producerStep rfl rfl rfl hf ?_ ?_ hc
  · rw [hq, h.queue, ← hblocks, Threads.rqLive_eq hm]
    exact Eq.symm (Threads.blocks_eq hm)
  · rw [VariableBuffer.current_setCurrent]
    exact hstage

theorem adding {data : Eigen.MatrixXd α} (h : Matches b dim ⟨vb, .adding data, c⟩ a)
    (own : Owned ⟨vb, .adding data, c⟩) (ord : Ordered b tr ⟨vb, .adding data, c⟩) (hb : 0 < b)
    (hm : vb.bufferMode = .producerConsumer) {es : List (Event α)}
    (hstep : Threads.producerStep ⟨vb, .adding data, c⟩ = some (s', es)) :
    Follows b dim a (es.filterMap Event.returns) s' := by
  have hdims : vb.rows * vb.cols = dim := h.dims
  have hq : ∀ p, Threads.blocks ⟨vb, p, c⟩ = Threads.blocks ⟨vb, .adding data, c⟩ := fun p => by
    rw [Threads.blocks_eq hm, Threads.blocks_eq hm]
  simp only [Threads.producerStep, hdims] at hstep
  obtain ⟨hcur, hst⟩ | ⟨hnil, hsize, hcur, hst⟩ := h.producer
  · have hcur : a.state.current = vb.current.valid := hcur
    split_ifs at hstep with hsize
    · cases hstep
      have hop : logOp b dim a.state (.addElem data) = (a.state, .ok false) := by
        simp only [logOp, hsize, if_false]
      refine .commitRet hst hop fun a' hs hi hj => ?_
      exact h.producerStep rfl rfl rfl (hs ▸ h.fits) (by rw [hs, h.queue]; exact (hq _).symm)
        ⟨by rw [hs, hcur], hi⟩ (hj _ (by decide))
    · have hsize : data.size = dim := not_not.mp hsize
      cases hadd : vb.current.add data with
      | none =>
        rw [hadd] at hstep
        cases hstep
        have hs : OfSize dim (some data) := fun d hd => Option.some.inj hd ▸ hsize
        exact .quiet (h.producerQuiet rfl rfl rfl (hq _)
          ⟨hs, .undecided trivial (fun hne => absurd rfl hne) hcur hst⟩)
      | some x =>
        rw [hadd] at hstep
        cases hstep
        obtain ⟨hvalid, -, -⟩ := BufferBlock.add_eq_some hadd
        have hlt : a.state.current.length < b := by
          rw [hcur, ← ord.size vb.currentBlock]
          refine lt_of_le_of_ne vb.current.length_valid_le fun he => ?_
          simp [BufferBlock.add_full he] at hadd
        have hop : logOp b dim a.state (.addElem data) =
            ({ a.state with current := a.state.current ++ [data.data] }, .ok true) := by
          simp only [logOp, hsize, BlockLog.add, hlt, if_true]
        have hf := fits_logOp dim h.fits hb (.addElem data)
        rw [hop] at hf
        refine .commitRet hst hop fun a' hs hi hj => ?_
        exact h.setCurrentBlock own hm rfl x (hs ▸ hf) (by rw [hs])
          ⟨by rw [hs, hvalid, hcur], hi⟩ (hj _ (by decide))
  · have hnil : vb.current.valid = [] := hnil
    have hroom : vb.current.valid.length < vb.current.getSize := by
      rw [hnil, VariableBuffer.current, ord.size]
      exact hb
    obtain ⟨x, hadd, hvalid, -, -⟩ := BufferBlock.add_room hroom data
    rw [if_neg (not_not.mpr hsize), hadd] at hstep
    cases hstep
    refine .ret hst fun a' hs hi hj => ?_
    exact h.setCurrentBlock own hm rfl x (hs ▸ h.fits) (by rw [hs])
      ⟨by rw [hs, hcur, hvalid, hnil]; rfl, hi⟩ (hj _ (by decide))

theorem followProducer (h : Matches b dim s a) (own : Owned s) (ord : Ordered b tr s) (hb : 0 < b)
    (hm : s.vb.bufferMode = .producerConsumer) {es : List (Event α)}
    (hstep : s.producerStep = some (s', es)) :
    Follows b dim a (es.filterMap Event.returns) s' := by
  obtain ⟨vb, p, c⟩ := s
  cases p with
  | idle => cases hstep
  | thrown what => cases hstep
  | crashed => cases hstep
  | adding data => exact h.adding own ord hb hm hstep
  | flushing caller pc =>
    cases hstep
    exact h.flushStep own ord hb hm
  | resetting data ok =>
    cases hstep
    obtain ⟨hsize, hcur, hst⟩ := h.producer
    exact .quiet (h.setCurrentBlock own hm rfl _ h.fits rfl (.inr ⟨rfl, hsize, hcur, hst⟩) rfl)

end Producer

end Matches
end XBot
