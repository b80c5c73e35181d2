import MatLogger2.Appender.Flusher
import MatLogger2.VarBuffer.Loaded

/-! A variable and the callback that its producer may be in. What the callback has been told bounds
the blocks that wait, so that a callback that ends without a notification leaves room. -/

namespace XBot

open Spsc Transition

variable {α : Type}

namespace NotifierPc

/-- What the callback has been told and still looks at. -/
def info : NotifierPc → Option BufferInfo
  | .load info | .store info _ | .test info => some info
  | .idle | .notify => none

def busy : NotifierPc → Bool
  | .idle => false
  | _ => true

end NotifierPc

/-- Where the callback is after a step of the producer. -/
def called (es : List (Event α)) : NotifierPc :=
  match reported es with
  | some info => .load info
  | none => .idle

/-- What holds of a variable and its callback between any two steps. -/
structure Watched (s : Threads α) (n : NotifierPc) : Prop where
  mode : s.vb.bufferMode = .producerConsumer
  owned : Owned s
  loaded : Loaded s
  looked : ∀ caller w, s.producer = .flushing caller (.infoRead w) → w = s.vb.queue.readQueue.write
  report : ∀ info, s.producer.info = some info →
    s.waiting + info.writeAvailable ≤ NUM_BLOCKS + s.producer.announcing.toNat
  told : ∀ info, n.info = some info → s.waiting + info.writeAvailable ≤ NUM_BLOCKS + 1
  held : n.busy = true → s.producerHolds.length = 1

/-- At most 17 of the blocks wait, or 18 while the last push is still to be told to the flusher. -/
def Roomy (s : Threads α) (n : NotifierPc) : Prop :=
  s.waiting + 3 ≤ NUM_BLOCKS + (s.producer.announcing || n.busy).toNat

instance (s : Threads α) (n : NotifierPc) : Decidable (Roomy s n) := inferInstanceAs (Decidable (_ ≤ _))

/-- A variable with enough room has it whatever its callback is doing. -/
theorem Roomy.mono {s : Threads α} (h : Roomy s .idle) (n : NotifierPc) : Roomy s n := by
  refine h.trans (Nat.add_le_add_left ?_ _)
  cases s.producer.announcing <;> cases n.busy <;> decide

theorem Producer.length_holds (p : Producer α) (cur : BlockId) :
    (p.holds cur).length + p.announcing.toNat ≤ 2 := by
  cases p with
  | flushing caller pc => cases pc <;> simp [holds, announcing]
  | _ => simp [holds, announcing]

theorem Producer.info_of_announcing {p : Producer α} (h : p.announcing = true) :
    ∃ info, p.info = some info := by
  cases p with
  | flushing caller pc => cases pc <;> first | exact ⟨_, rfl⟩ | cases h
  | _ => cases h

namespace Watched

variable {s s' : Threads α} {n n' : NotifierPc} {es : List (Event α)}

theorem free_pos (inv : Watched s n) (hr : Roomy s n) (hc : s.consumer = .idle) : 0 < s.free := by
  apply inv.owned.free_pos hc
  have hlen := s.producer.length_holds s.vb.currentBlock
  have hn : NUM_BLOCKS = 20 := rfl
  unfold Roomy at hr
  unfold Threads.producerHolds
  cases ha : s.producer.announcing with
  | true =>
    simp only [ha, Bool.true_or, Bool.toNat_true] at hr hlen
    omega
  | false =>
    cases hb : n.busy with
    | true =>
      have := inv.held hb
      simp only [Threads.producerHolds] at this
      simp only [ha, hb, Bool.false_or, Bool.toNat_true] at hr
      omega
    | false =>
      simp only [ha, hb, Bool.false_or, Bool.toNat_false] at hr hlen
      omega

theorem start (name : StdString) (rows cols blockSize : ℕ) (hb : 0 < blockSize)
    (storage : BlockId → Memory α (rows * cols) blockSize) (callback : Bool) :
    Watched (Threads.start name rows cols blockSize hb storage .producerConsumer callback) .idle := by
  have hinit : (threads α rows cols blockSize .producerConsumer).init
      (Threads.start name rows cols blockSize hb storage .producerConsumer callback) :=
    ⟨name, hb, storage, callback, rfl⟩
  obtain ⟨hr, -, -⟩ := VariableBuffer.make_queue name rows cols blockSize hb storage
  refine ⟨rfl, Owned.init hinit, ⟨fun i hi => ?_, nofun, trivial⟩, nofun, nofun, nofun, nofun⟩
  have hlive : (Threads.start name rows cols blockSize hb storage .producerConsumer callback).rqLive
      = [] := hr
  rw [hlive] at hi
  cases hi

/-- The callback of the variable is installed. -/
theorem setOnBlockAvailable (inv : Watched s n) (callback : Bool) :
    Watched { s with vb := s.vb.setOnBlockAvailable callback } n := by
  obtain ⟨hmode, own, load, looked, report, told, held⟩ := inv
  refine ⟨hmode, ?_, ⟨load.waiting, load.current, load.taken⟩, looked, report, told, held⟩
  exact ⟨own.owned, own.rqPush, own.rqPop, own.wqPush, own.wqPop, own.pooled, own.sound,
    own.circular, own.popping, own.fresh⟩

theorem callAddElem (inv : Watched s .idle) {data : Eigen.MatrixXd α}
    (h : s.step (.callAddElem data) = some (s', es)) :
    Watched s' (called es) ∧ (Roomy s .idle → Roomy s' (called es)) := by
  have own := (inv.owned.step h).1
  obtain ⟨vb, p, c⟩ := s
  cases p <;> cases h
  exact ⟨⟨inv.mode, own, inv.loaded.frame rfl rfl (fun _ _ => rfl) nofun, nofun, nofun, nofun, nofun⟩,
    id⟩

theorem producerStep (inv : Watched s .idle) (h : s.producerStep = some (s', es)) :
    Watched s' (called es) := by
  have hann := producerStep_announces inv.owned inv.mode h
  refine ⟨(producerStep_mode h).trans inv.mode, inv.owned.producerStep h,
    inv.loaded.producerStep inv.owned inv.mode h, fun caller w hp => ?_, fun info hi => ?_,
    fun info hi => ?_, fun hb => ?_⟩
  · rcases producerStep_goto h hp with hpc | ⟨pc, -, hnext, hvb⟩
    · cases hpc
    · rw [hvb]
      exact flushStep_infoRead s.vb hnext
  · have hold : s.producer.info = some info ∨ s.waiting + info.writeAvailable ≤ NUM_BLOCKS := by
      cases hp : s'.producer with
      | flushing caller pc' =>
        rw [hp] at hi
        rcases producerStep_goto h hp with rfl | ⟨pc, hpc, hnext, -⟩
        · cases hi
        · rcases flushStep_info s.vb hnext hi with hi | ⟨w, rfl, hw⟩
          · rw [hpc]
            exact .inl hi
          · obtain rfl := inv.looked caller w hpc
            rw [hw, Boost.writeAvailable_eq, ← Ring.length_content]
            have := s.vb.queue.readQueue.length_content_lt
            unfold Threads.waiting
            omega
      | _ =>
        rw [hp] at hi
        cases hi
    rcases hann with ⟨hw, ha, -⟩ | ⟨hw, ha, ha', -⟩ | ⟨-, -, -, hnone, -⟩
    · rw [hw, ha]
      rcases hold with hold | hold
      · exact inv.report info hold
      · omega
    · have hle : s.waiting + info.writeAvailable ≤ NUM_BLOCKS := by
        rcases hold with hold | hold
        · simpa [ha] using inv.report info hold
        · exact hold
      rw [hw, ha', Bool.toNat_true]
      omega
    · rw [hnone] at hi
      cases hi
  · unfold called at hi
    rcases hann with ⟨-, -, hes⟩ | ⟨-, -, -, hes⟩ | ⟨hw, ha, -, -, -, hes⟩
    · rw [hes] at hi
      cases hi
    · rw [hes] at hi
      cases hi
    · rw [hes] at hi
      split_ifs at hi with hcb
      · obtain ⟨info', hinfo⟩ := Producer.info_of_announcing ha
        rw [hinfo] at hi
        cases hi
        have hrep := inv.report _ hinfo
        rw [ha, Bool.toNat_true] at hrep
        rw [hw]
        exact hrep
      · cases hi
  · unfold called at hb
    rcases hann with ⟨-, -, hes⟩ | ⟨-, -, -, hes⟩ | ⟨-, -, -, -, hheld, -⟩
    · rw [hes] at hb
      cases hb
    · rw [hes] at hb
      cases hb
    · exact hheld

/-- With a callback, a push that leaves less room is told to the flusher. -/
theorem producerStep_roomy (inv : Watched s .idle) (hcb : s.vb.onBlockAvailable = true)
    (h : s.producerStep = some (s', es)) (hr : Roomy s .idle) : Roomy s' (called es) := by
  unfold Roomy at hr ⊢
  simp only [NotifierPc.busy, Bool.or_false] at hr
  rcases producerStep_announces inv.owned inv.mode h with
    ⟨hw, ha, -⟩ | ⟨hw, ha, ha', -⟩ | ⟨hw, ha, ha', -, -, hes⟩
  · rw [hw, ha]
    cases hann : s.producer.announcing with
    | true =>
      rw [hann] at hr
      exact hr
    | false =>
      rw [hann, Bool.toNat_false] at hr
      omega
  · rw [ha, Bool.toNat_false] at hr
    rw [hw, ha', Bool.true_or, Bool.toNat_true]
    omega
  · obtain ⟨info, hinfo⟩ := Producer.info_of_announcing ha
    have hcalled : called es = .load info := by
      rw [called, hes, if_pos hcb, hinfo]
    rw [ha, Bool.toNat_true] at hr
    rw [hw, ha', hcalled]
    exact hr

/-- What a step of a producer does to a variable and its callback. -/
structure Writes (s s' : Threads α) (es : List (Event α)) : Prop where
  watched : Watched s' (called es)
  consumer : s'.consumer = s.consumer
  read : s'.vb.queue.readQueue.read = s.vb.queue.readQueue.read
  callback : s'.vb.onBlockAvailable = s.vb.onBlockAvailable
  roomy : s.vb.onBlockAvailable = true → Roomy s .idle → Roomy s' (called es)

theorem writes (inv : Watched s .idle)
    (h : s.producerStep = some (s', es) ∨ ∃ data, s.step (.callAddElem data) = some (s', es)) :
    Writes s s' es := by
  rcases h with h | ⟨data, h⟩
  · obtain ⟨hc, hr, hcb⟩ := producerStep_frame inv.owned inv.mode h
    exact ⟨inv.producerStep h, hc, hr, hcb, fun hcb => inv.producerStep_roomy hcb h⟩
  · obtain ⟨w, hroomy⟩ := inv.callAddElem h
    have hframe : s'.consumer = s.consumer ∧ s'.vb = s.vb := by
      obtain ⟨vb, p, c⟩ := s
      cases p <;> cases h
      exact ⟨rfl, rfl⟩
    exact ⟨w, hframe.1, by rw [hframe.2], by rw [hframe.2], fun _ => hroomy⟩

theorem consumerStep (inv : Watched s n) (h : s.consumerStep = some (s', es)) : Watched s' n := by
  have hf := consumerStep_frame h
  have hle := consumerStep_waiting inv.owned h
  refine ⟨hf.mode.trans inv.mode, (inv.owned.consumerStep h).1, inv.loaded.consumerStep inv.owned h,
    fun caller w hp => ?_, fun info hi => ?_, fun info hi => ?_, fun hb => ?_⟩
  · rw [hf.producer] at hp
    rw [hf.readQueue.1]
    exact inv.looked caller w hp
  · rw [hf.producer] at hi ⊢
    have := inv.report info hi
    omega
  · have := inv.told info hi
    omega
  · have := inv.held hb
    unfold Threads.producerHolds at this ⊢
    rwa [hf.producer, hf.currentBlock]

theorem callReadBlock (inv : Watched s n) (h : s.step .callReadBlock = some (s', es)) :
    Watched s' n ∧ s'.consumer = .popWrite ∧ s'.producer = s.producer ∧ s'.waiting = s.waiting ∧
      s'.vb.onBlockAvailable = s.vb.onBlockAvailable ∧ es = [] := by
  have own := (inv.owned.step h).1
  have hm : s.vb.bufferMode = .producerConsumer := inv.mode
  obtain ⟨vb, p, c⟩ := s
  cases c with
  | idle =>
    simp only at hm
    simp only [Threads.step, hm] at h
    cases h
    refine ⟨⟨hm, own, ?_, inv.looked, inv.report, inv.told, inv.held⟩, rfl, rfl, rfl, rfl, rfl⟩
    exact inv.loaded.readQuiet hm vb.queue (List.Subset.refl _) trivial
  | _ => cases h

/-- Taking blocks out of the read queue makes room. -/
theorem consumerStep_roomy (inv : Watched s n) (h : s.consumerStep = some (s', es))
    (hr : Roomy s n) : Roomy s' n := by
  have hle := consumerStep_waiting inv.owned h
  unfold Roomy at hr ⊢
  rw [(consumerStep_frame h).producer]
  omega

/-- What a step of the loop around `read_block` does to a variable. -/
structure Reads (s s' : Threads α) (n : NotifierPc) (es : List (Event α)) : Prop where
  watched : Watched s' n
  callback : s'.vb.onBlockAvailable = s.vb.onBlockAvailable
  nothing : es.any Loaded.readsNothing = true → Loaded.FoundEmpty s ∧ s'.consumer = .idle
  empty : Loaded.FoundEmpty s' → Roomy s' n
  roomy : Roomy s n → Roomy s' n

theorem reads (inv : Watched s n)
    (h : s.step .callReadBlock = some (s', es) ∨ s.consumerStep = some (s', es)) :
    Reads s s' n es := by
  rcases h with h | h
  · obtain ⟨w, hc, hprod, hwait, hcb, rfl⟩ := inv.callReadBlock h
    refine ⟨w, hcb, nofun, fun he => ?_, fun hr => ?_⟩
    · rw [Loaded.FoundEmpty, hc] at he
      cases he
    · unfold Roomy at hr ⊢
      rwa [hwait, hprod]
  · refine ⟨inv.consumerStep h, consumerStep_callback h, inv.loaded.read_false h, fun he => ?_,
      inv.consumerStep_roomy h⟩
    unfold Roomy
    rw [Loaded.foundEmpty_step h he]
    exact le_add_right (by decide)

/-- The callback goes on with what it has been told. -/
theorem notifier (inv : Watched s n) (hi : n'.info = none ∨ n'.info = n.info)
    (hb : n'.busy = true → n.busy = true) : Watched s n' := by
  refine ⟨inv.mode, inv.owned, inv.loaded, inv.looked, inv.report, fun info h => ?_,
    fun h => inv.held (hb h)⟩
  rcases hi with hi | hi
  · rw [hi] at h
    cases h
  · exact inv.told info (hi ▸ h)

/-- A callback that does not notify has seen that half of the queue is free. -/
theorem roomy_of_not_notifies (inv : Watched s n) {bytes : ℤ} {info : BufferInfo}
    (hn : n.info = some info) (hno : ¬ MatAppender.notifies bytes info) : Roomy s .idle := by
  have htold := inv.told info hn
  have hblocks : NUM_BLOCKS = 20 := rfl
  have hfree : (1 / 2 : ℚ) ≤ info.writeAvailable / NUM_BLOCKS :=
    not_lt.mp fun hlt => hno (.inr hlt)
  have hten : 10 ≤ info.writeAvailable := by
    rw [hblocks, le_div_iff₀ (by norm_num)] at hfree
    exact_mod_cast (by linarith : (10 : ℚ) ≤ info.writeAvailable)
  unfold Roomy
  omega

end Watched
end XBot
