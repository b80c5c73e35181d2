import MatLogger2.VarBuffer.Weak

/-! What the threads of a variable know of each other. Whoever knows that a block was given back
knows that it had been taken, and whoever knows that one was pushed knows that another had been
given back; so no index that a thread may still see is too old for what it does with it. -/

namespace XBot

open Spsc Transition RelAcq

variable {α : Type}

namespace Threads

def pushView (s : Threads α) : Queue → PushView Ptr (NUM_BLOCKS + 1)
  | .readQueue => s.producer.rqPush s.vb.currentBlock
  | .writeQueue => s.consumer.wqPush

def popView (s : Threads α) : Queue → PopView Ptr (NUM_BLOCKS + 1)
  | .readQueue => s.consumer.rqPop
  | .writeQueue => s.producer.wqPop

/-- The blocks that a thread may access. -/
def hold (s : Threads α) : Thread → List Ptr
  | .producer => s.vb.queue.blockPool ++ s.producerHolds
  | .consumer => s.consumer.holds

def live (s : Threads α) (q : Queue) : List Ptr := (s.popView q).live (s.vb.queue.ring q)

end Threads

/-- The two sides of a queue in a memory. -/
def sides (logs : Loc → Log Thread) (m : Mem) (q : Queue) : Sides Thread Ptr (NUM_BLOCKS + 1) where
  writes := logs ⟨q, .write⟩
  reads := logs ⟨q, .read⟩
  pusher := m.clock q.pusher
  popper := m.clock q.popper
  cell i := m.touched (.cell q i)
  hand x := x.elim 0 fun b => m.touched (.block b)

/-- The logs after a thread with clock `c` has stored an index `k` places on. -/
def logStore (logs : Loc → Log Thread) (l : Loc) (k : ℕ) (c : Clock Thread) : Loc → Log Thread :=
  Function.update logs l (logs l ++ [(place (logs l) + k, c)])

theorem logStore_self (logs : Loc → Log Thread) (l : Loc) (k : ℕ) (c : Clock Thread) :
    logStore logs l k c l = logs l ++ [(place (logs l) + k, c)] := Function.update_self _ _ _

theorem logStore_of_ne (logs : Loc → Log Thread) {l l' : Loc} (h : l' ≠ l) (k : ℕ)
    (c : Clock Thread) : logStore logs l k c l' = logs l' := Function.update_of_ne h _ _

structure Informed (base : Queue → Index) (logs : Loc → Log Thread) (m : Mem) (s : Threads α) :
    Prop where
  stores : ∀ l, m.stores l = shown (base l.queue) (logs l)
  rings : ∀ q, Guarded (base q) (sides logs m q) (s.vb.queue.ring q) (s.pushView q) (s.popView q)
  returned : ∀ x ∈ logs ⟨.writeQueue, .write⟩, Reached (logs ⟨.readQueue, .read⟩) x.1 x.2
  recycled : ∀ x ∈ logs ⟨.readQueue, .write⟩,
    Reached (logs ⟨.writeQueue, .read⟩) (x.1 - (NUM_BLOCKS - 1)) x.2
  count : place (logs ⟨.readQueue, .read⟩) + (s.popView .readQueue).taken =
    place (logs ⟨.writeQueue, .write⟩) + s.consumer.holds.length
  custody : ∀ t b, some b ∈ s.hold t → m.touched (.block b) ≤ m.clock t

namespace Owned

variable {s : Threads α}

theorem popView_ok (own : Owned s) (hm : s.vb.bufferMode = .producerConsumer) (q : Queue) :
    (s.popView q).Ok (s.vb.queue.ring q) := by
  cases q with
  | readQueue =>
    have := own.rqPop
    rwa [rqPop_consumer hm] at this
  | writeQueue => exact own.wqPop

theorem pushView_ok (own : Owned s) (q : Queue) : (s.pushView q).Ok (s.vb.queue.ring q) := by
  cases q with
  | readQueue => exact own.rqPush
  | writeQueue => exact own.wqPush

/-- The cell that a pusher has filled holds a block of its own. -/
theorem filled_mem_hold (own : Owned s) {q : Queue} (hf : (s.pushView q).filled = 1) :
    (s.vb.queue.ring q).cell (s.vb.queue.ring q).write ∈ s.hold q.pusher := by
  have hok := own.pushView_ok q
  cases q with
  | readQueue =>
    obtain ⟨vb, p, c⟩ := s
    cases p with
    | flushing caller pc =>
      cases pc with
      | pushStore info b w =>
        rw [hok.2]
        simp [Threads.hold, Threads.producerHolds, Producer.holds, Queue.pusher]
      | _ => exact absurd hf (by simp [Threads.pushView, Producer.rqPush, PushView.filled])
    | _ => exact absurd hf (by simp [Threads.pushView, Producer.rqPush, PushView.filled])
  | writeQueue =>
    obtain ⟨vb, p, c⟩ := s
    cases c with
    | pushStore b data valid w =>
      rw [hok.2]
      simp [Threads.hold, Consumer.holds, Queue.pusher]
    | _ => exact absurd hf (by simp [Threads.pushView, Consumer.wqPush, PushView.filled])

theorem live_eq_owns (hm : s.vb.bufferMode = .producerConsumer) :
    s.live .readQueue = s.owns .readQueue ∧ s.live .writeQueue = s.owns .writeQueue := by
  refine ⟨?_, rfl⟩
  simp only [Threads.live, Threads.owns, Threads.rqLive, Threads.rqPop, hm]
  rfl

/-- A block that a thread may access is in no queue, and the other thread may not access it. -/
theorem hold_apart (own : Owned s) (hm : s.vb.bufferMode = .producerConsumer) {t : Thread}
    {b : BlockId} (h : some b ∈ s.hold t) :
    (∀ q, some b ∉ s.live q) ∧ ∀ u, u ≠ t → some b ∉ s.hold u := by
  obtain ⟨hrq, hwq⟩ := live_eq_owns hm
  have key : ∀ place, place ≠ .readQueue → place ≠ .writeQueue → some b ∈ s.owns place →
      ∀ q, some b ∉ s.live q := by
    intro place h₁ h₂ hb q
    cases q with
    | readQueue => exact hrq ▸ own.apart .readQueue h₁ hb
    | writeQueue => exact hwq ▸ own.apart .writeQueue h₂ hb
  have hne : ∀ place, place ≠ .consumer → some b ∈ s.owns place → some b ∉ s.hold .consumer :=
    fun place h hb => own.apart .consumer h hb
  cases t with
  | producer =>
    have hother : some b ∉ s.hold .consumer ∧ ∀ q, some b ∉ s.live q := by
      rcases List.mem_append.mp h with hb | hb
      · exact ⟨hne .pool (by decide) hb, key .pool (by decide) (by decide) hb⟩
      · exact ⟨hne .producer (by decide) hb, key .producer (by decide) (by decide) hb⟩
    refine ⟨hother.2, fun u hu => ?_⟩
    cases u with
    | producer => exact absurd rfl hu
    | consumer => exact hother.1
  | consumer =>
    refine ⟨key .consumer (by decide) (by decide) h, fun u hu hmem => ?_⟩
    cases u with
    | consumer => exact hu rfl
    | producer =>
      rcases List.mem_append.mp hmem with hp | hp
      · exact hne .pool (by decide) hp h
      · exact hne .producer (by decide) hp h

end Owned

namespace Informed

variable {base : Queue → Index} {logs : Loc → Log Thread} {m m' : Mem} {s s' : Threads α} {t : Thread}

/-- A thread accesses a block that it holds. -/
theorem touchBlock (inf : Informed base logs m s) (own : Owned s)
    (hm : s.vb.bufferMode = .producerConsumer) {b : BlockId} (hb : some b ∈ s.hold t)
    (hidle : ∀ q, q.pusher = t → (s.pushView q).filled = 0)
    (hp : m.perform Loc.writer t (.touch (.block b)) = some m') : Informed base logs m' s := by
  obtain ⟨hstores, hclock, htouched⟩ := Memory.perform_touch hp
  obtain ⟨hlive, hhold⟩ := own.hold_apart hm hb
  have hkeep : ∀ x, x ≠ .block b → m'.touched x = m.touched x := by
    intro x hx
    rw [htouched, Function.update_of_ne hx]
  have hhand : ∀ q x, x ≠ some b → (sides logs m' q).hand x = (sides logs m q).hand x := by
    intro q x hx
    cases x with
    | none => rfl
    | some b' => exact hkeep _ (by simpa using hx)
  refine ⟨fun l => hstores ▸ inf.stores l, fun q => ?_, inf.returned, inf.recycled, inf.count,
    fun u b' hb' => ?_⟩
  · refine (inf.rings q).learn rfl rfl ?_ ?_ ?_ (fun x hx => hhand q x ?_) fun hf => hhand q _ ?_
    · exact (congrFun hclock _).ge
    · exact (congrFun hclock _).ge
    · funext i
      exact hkeep _ (by simp)
    · rintro rfl
      exact hlive q hx
    · intro he
      have hmem := own.filled_mem_hold hf
      rw [he] at hmem
      by_cases ht : q.pusher = t
      · exact absurd (hidle q ht) (by omega)
      · exact hhold _ ht hmem
  · rw [hclock]
    rcases eq_or_ne b' b with rfl | hne
    · have hut : u = t := by
        by_contra hu
        exact hhold u hu hb'
      subst hut
      rw [htouched, Function.update_self, update_le_iff]
      exact ⟨le_rfl, fun w _ => inf.custody u b' hb w⟩
    · rw [hkeep _ (by simpa using hne)]
      exact inf.custody u b' hb'

/-- A load changes what its thread knows. -/
theorem load {l : Loc} {n : ℕ} {acquire : Bool} (inf : Informed base logs m s)
    (hp : m.perform Loc.writer t (.load l n acquire) = some m') : Informed base logs m' s := by
  obtain ⟨-, -, hstores, htouched, -⟩ := Memory.perform_load hp
  have hclock := fun u => Memory.perform_clock hp u
  refine ⟨fun l => hstores ▸ inf.stores l, fun q => ?_, inf.returned, inf.recycled, inf.count,
    fun u b hb => ?_⟩
  · have hcell : (sides logs m' q).cell = (sides logs m q).cell := by
      simp only [sides, htouched]
    have hhand : (sides logs m' q).hand = (sides logs m q).hand := by
      simp only [sides, htouched]
    exact (inf.rings q).learn rfl rfl (hclock _) (hclock _) hcell (fun _ _ => by rw [hhand])
      fun _ => by rw [hhand]
  · rw [htouched]
    exact (inf.custody u b hb).trans (hclock u)

/-- A step that changes no ring; what the poppers claim to have found they know. -/
theorem views (inf : Informed base logs m s)
    (hring : ∀ q, s'.vb.queue.ring q = s.vb.queue.ring q)
    (hf : ∀ q, (s'.pushView q).filled = (s.pushView q).filled)
    (ht : ∀ q, (s'.popView q).taken = (s.popView q).taken)
    (hd : ∀ q, Reached (logs ⟨q, .write⟩)
      (place (logs ⟨q, .read⟩) + (s'.popView q).found (s.vb.queue.ring q)) (m.clock q.popper))
    (hh : ∀ t, s'.hold t ⊆ s.hold t)
    (hc : s'.consumer.holds.length = s.consumer.holds.length) : Informed base logs m s' := by
  refine ⟨inf.stores, fun q => ?_, inf.returned, inf.recycled, ?_, fun t b hb => ?_⟩
  · rw [hring]
    exact (inf.rings q).views (hf q) (ht q) (hd q)
  · rw [ht, hc]
    exact inf.count
  · exact inf.custody t b (hh t hb)

/-- A step that changes no ring and claims no more than before. -/
theorem quiet (inf : Informed base logs m s)
    (hring : ∀ q, s'.vb.queue.ring q = s.vb.queue.ring q)
    (hf : ∀ q, (s'.pushView q).filled = (s.pushView q).filled)
    (ht : ∀ q, (s'.popView q).taken = (s.popView q).taken)
    (hd : ∀ q, (s'.popView q).found (s.vb.queue.ring q) ≤ (s.popView q).found (s.vb.queue.ring q))
    (hh : ∀ t, s'.hold t ⊆ s.hold t)
    (hc : s'.consumer.holds.length = s.consumer.holds.length) : Informed base logs m s' :=
  inf.views hring hf ht
    (fun q => (inf.rings q).found.mono (Nat.add_le_add_left (hd q) _) le_rfl) hh hc

/-- What a load may see of an index of the other thread is recent enough. -/
theorem visible (inf : Informed base logs m s) {l : Loc} {n : ℕ} {store : Store Thread Index}
    (hv : m.visible Loc.writer t l n = some store) {k : ℕ} (hk : Reached (logs l) k (m.clock t)) :
    ∃ x ∈ logs l, store = ⟨offset (base l.queue) x.1, x.2⟩ ∧ k ≤ x.1 ∧ x.1 ≤ place (logs l) := by
  obtain ⟨q, side⟩ := l
  cases side with
  | write => exact (inf.rings q).write.visible (inf.stores _) hv hk
  | read => exact (inf.rings q).read.visible (inf.stores _) hv hk

/-- A write index that the popper of a queue acquires may be old, but shows blocks that are
there and that the popper knows of. -/
theorem loadWrite (inf : Informed base logs m s) {q : Queue} {n : ℕ} {store : Store Thread Index}
    (hv : m.visible Loc.writer q.popper ⟨q, .write⟩ n = some store)
    (hp : m.perform Loc.writer q.popper (.load ⟨q, .write⟩ n true) = some m') :
    ∃ x ∈ logs ⟨q, .write⟩, store.value = offset (base q) x.1 ∧ place (logs ⟨q, .read⟩) ≤ x.1 ∧
      x.2 ≤ m'.clock q.popper ∧ (PopView.loaded store.value : PopView Ptr _).Ok (s.vb.queue.ring q) := by
  obtain ⟨x, hx, rfl, hle, -⟩ := inf.visible hv (inf.rings q).found
  obtain ⟨store', hv', -, -, hclock⟩ := Memory.perform_load hp
  obtain rfl := Option.some.inj (hv.symm.trans hv')
  have hknown : x.2 ≤ m'.clock q.popper := by
    rw [hclock, Function.update_self]
    exact le_sup_right
  have hle : place (logs ⟨q, .read⟩) ≤ x.1 := (Nat.le_add_right _ _).trans hle
  exact ⟨x, hx, rfl, hle, hknown, (((inf.load hp).rings q).found_load hx hle hknown).1⟩

/-- A read index that the pusher of a queue loads may be old, but does not show a full queue to
one that knows how far the popper must have come. -/
theorem loadRead (inf : Informed base logs m s) {q : Queue} {n k : ℕ} {store : Store Thread Index}
    (hv : m.visible Loc.writer q.pusher ⟨q, .read⟩ n = some store)
    (hk : Reached (logs ⟨q, .read⟩) k (m.clock q.pusher))
    (hroom : place (logs ⟨q, .write⟩) < k + NUM_BLOCKS) :
    Boost.nextIndex (s.vb.queue.ring q).write ≠ store.value := by
  obtain ⟨x, -, rfl, hle, hplace⟩ := inf.visible hv hk
  have hlen : place (logs ⟨q, .write⟩) =
      place (logs ⟨q, .read⟩) + (s.vb.queue.ring q).content.length := (inf.rings q).length
  have hwrite : (s.vb.queue.ring q).write = offset (base q) (place (logs ⟨q, .write⟩)) :=
    (inf.rings q).write.value
  rw [Boost.nextIndex_eq, hwrite, offset_offset]
  exact (offset_ne (base q) (by omega) (by omega)).symm

/-- The popper of a queue has loaded its write index. -/
theorem found (inf : Informed base logs m s) {q : Queue} {x : ℕ × Clock Thread}
    (hx : x ∈ logs ⟨q, .write⟩) (hle : place (logs ⟨q, .read⟩) ≤ x.1)
    (hk : x.2 ≤ m.clock q.popper) (hring : ∀ q, s'.vb.queue.ring q = s.vb.queue.ring q)
    (hf : ∀ q, (s'.pushView q).filled = (s.pushView q).filled)
    (hpop : s'.popView q = .loaded (offset (base q) x.1)) (hidle : (s.popView q).taken = 0)
    (hother : ∀ q', q' ≠ q → s'.popView q' = s.popView q') (hh : ∀ t, s'.hold t ⊆ s.hold t)
    (hc : s'.consumer.holds.length = s.consumer.holds.length) : Informed base logs m s' := by
  refine inf.views hring hf (fun q' => ?_) (fun q' => ?_) hh hc
  · rcases eq_or_ne q' q with rfl | hne
    · rw [hpop, hidle]
      rfl
    · rw [hother q' hne]
  · rcases eq_or_ne q' q with rfl | hne
    · rw [hpop]
      exact ((inf.rings q').found_load hx hle hk).2
    · rw [hother q' hne]
      exact (inf.rings q').found

/-- A queue that a step leaves alone, while the threads do something elsewhere. -/
theorem other (inf : Informed base logs m s) {logs' : Loc → Log Thread} {q : Queue}
    (hlog : ∀ side, logs' ⟨q, side⟩ = logs ⟨q, side⟩) (hclock : ∀ t, m.clock t ≤ m'.clock t)
    (hcell : ∀ i, m'.touched (.cell q i) = m.touched (.cell q i))
    (hblock : ∀ b, m'.touched (.block b) = m.touched (.block b))
    (hring : s'.vb.queue.ring q = s.vb.queue.ring q)
    (hf : (s'.pushView q).filled = (s.pushView q).filled) (hpop : s'.popView q = s.popView q) :
    Guarded (base q) (sides logs' m' q) (s'.vb.queue.ring q) (s'.pushView q) (s'.popView q) := by
  have hhand : ∀ x : Ptr, (sides logs' m' q).hand x = (sides logs m q).hand x := by
    rintro (_ | b)
    · rfl
    · exact hblock b
  have hg : Guarded (base q) (sides logs' m' q) (s.vb.queue.ring q) (s.pushView q) (s.popView q) :=
    (inf.rings q).learn (hlog .write) (hlog .read) (hclock _) (hclock _) (funext hcell)
      (fun x _ => hhand x) fun _ => hhand _
  rw [hring, hpop]
  exact hg.views hf rfl hg.found

/-- The pusher of a queue puts a block of its own into the cell at the write index. -/
theorem fill (inf : Informed base logs m s) (own : Owned s)
    (hm : s.vb.bufferMode = .producerConsumer) {q : Queue} {b : BlockId}
    (hb : some b ∈ s.hold q.pusher) (hf : (s.pushView q).filled = 0)
    (hf' : (s'.pushView q).filled = 1)
    (hclear : m.touched (.cell q (s.vb.queue.ring q).write) ≤ m.clock q.pusher)
    (hp : m.perform Loc.writer q.pusher (.touch (.cell q (s.vb.queue.ring q).write)) = some m')
    (hring : s'.vb.queue.ring q = (s.vb.queue.ring q).setCell (some b))
    (hrings : ∀ q', q' ≠ q → s'.vb.queue.ring q' = s.vb.queue.ring q')
    (hfs : ∀ q', q' ≠ q → (s'.pushView q').filled = (s.pushView q').filled)
    (hpop : ∀ q', s'.popView q' = s.popView q') (hh : ∀ t, s'.hold t ⊆ s.hold t)
    (hc : s'.consumer.holds.length = s.consumer.holds.length) : Informed base logs m' s' := by
  obtain ⟨hstores, hclock, htouched⟩ := Memory.perform_touch hp
  have hkeep : ∀ x, x ≠ .cell q (s.vb.queue.ring q).write → m'.touched x = m.touched x := by
    intro x hx
    rw [htouched, Function.update_of_ne hx]
  have hblock : ∀ b, m'.touched (.block b) = m.touched (.block b) := fun b => hkeep _ (by simp)
  refine ⟨fun l => hstores ▸ inf.stores l, fun q' => ?_, inf.returned, inf.recycled, ?_,
    fun t b hb => ?_⟩
  · rcases eq_or_ne q' q with rfl | hne
    · rw [hring, hpop]
      refine (inf.rings q').fill (own.popView_ok hm q') (some b) hf hf' rfl rfl
        (congrFun hclock _) (congrFun hclock _) (fun i hi => hkeep _ (by simpa using hi)) ?_ ?_
        (inf.custody _ b hb)
      · funext x
        cases x with
        | none => rfl
        | some b => exact hblock b
      · simp only [sides, htouched, Function.update_self, update_le_iff]
        exact ⟨le_rfl, fun u _ => hclear u⟩
    · exact inf.other (fun _ => rfl) (fun t => (congrFun hclock t).ge)
        (fun i => hkeep _ (by simp [hne])) hblock (hrings q' hne) (hfs q' hne) (hpop q')
  · rw [hpop, hc]
    exact inf.count
  · rw [hblock, hclock]
    exact inf.custody t b (hh t hb)

/-- The memory holds the new store of a log. -/
theorem stores_store (inf : Informed base logs m s) {l : Loc} {k : ℕ} {v : Index}
    (hp : m.perform Loc.writer t (.store l v) = some m')
    (hv : v = offset (base l.queue) (place (logs l) + k)) (l' : Loc) :
    m'.stores l' = shown (base l'.queue) (logStore logs l k (m.clock t) l') := by
  obtain ⟨hstores, -, -⟩ := Memory.perform_store hp
  rw [hstores]
  rcases eq_or_ne l' l with rfl | hne
  · rw [Function.update_self, logStore_self, inf.stores, hv]
    simp [shown]
  · rw [Function.update_of_ne hne, logStore_of_ne _ hne, inf.stores]

/-- The pusher of a queue publishes the cell it has filled. -/
theorem publish (inf : Informed base logs m s) {q : Queue} {v : Index}
    (hroom : (s.vb.queue.ring q).content.length + 1 < NUM_BLOCKS + 1)
    (hv : v = offset (s.vb.queue.ring q).write 1) (hf : (s.pushView q).filled = 1)
    (hf' : (s'.pushView q).filled = 0)
    (hp : m.perform Loc.writer q.pusher (.store ⟨q, .write⟩ v) = some m')
    (hring : s'.vb.queue.ring q = (s.vb.queue.ring q).publish)
    (hrings : ∀ q', q' ≠ q → s'.vb.queue.ring q' = s.vb.queue.ring q')
    (hfs : ∀ q', q' ≠ q → (s'.pushView q').filled = (s.pushView q').filled)
    (hpop : ∀ q', s'.popView q' = s.popView q') (hh : ∀ t, s'.hold t ⊆ s.hold t)
    (hreturned : q = .writeQueue → Reached (logs ⟨.readQueue, .read⟩)
      (place (logs ⟨.writeQueue, .write⟩) + 1) (m.clock .consumer))
    (hrecycled : q = .readQueue → Reached (logs ⟨.writeQueue, .read⟩)
      (place (logs ⟨.readQueue, .write⟩) + 1 - (NUM_BLOCKS - 1)) (m.clock .producer))
    (hc : s.consumer.holds.length =
      s'.consumer.holds.length + if q = .writeQueue then 1 else 0) :
    Informed base (logStore logs ⟨q, .write⟩ 1 (m.clock q.pusher)) m' s' := by
  obtain ⟨-, htouched, -⟩ := Memory.perform_store hp
  have hclock := fun u => Memory.perform_clock hp u
  have hread : ∀ q', logStore logs ⟨q, .write⟩ 1 (m.clock q.pusher) ⟨q', .read⟩ =
      logs ⟨q', .read⟩ := fun q' => logStore_of_ne _ (by simp) _ _
  have hwrite : ∀ {q'}, q' ≠ q → logStore logs ⟨q, .write⟩ 1 (m.clock q.pusher) ⟨q', .write⟩ =
      logs ⟨q', .write⟩ := fun hne => logStore_of_ne _ (by simp [hne]) _ _
  refine ⟨inf.stores_store hp ?_, fun q' => ?_, ?_, ?_, ?_, fun t b hb => ?_⟩
  · rw [hv, (inf.rings q).write.value, offset_offset]
    rfl
  · rcases eq_or_ne q' q with rfl | hne
    · rw [hring, hpop]
      refine (inf.rings q').publish hroom hf hf' (logStore_self _ _ _ _) (hread q') (hclock _)
        (hclock _) ?_ ?_
      · simp only [sides, htouched]
      · simp only [sides, htouched]
    · refine inf.other (fun side => ?_) hclock (fun i => by rw [htouched])
        (fun b => by rw [htouched]) (hrings q' hne) (hfs q' hne) (hpop q')
      exact logStore_of_ne _ (by simp [hne]) _ _
  · rw [hread]
    cases q with
    | readQueue =>
      rw [hwrite (by decide)]
      exact inf.returned
    | writeQueue =>
      rw [logStore_self]
      intro x hx
      rcases List.mem_append.mp hx with hx | hx
      · exact inf.returned x hx
      · exact List.mem_singleton.mp hx ▸ hreturned rfl
  · rw [hread]
    cases q with
    | writeQueue =>
      rw [hwrite (by decide)]
      exact inf.recycled
    | readQueue =>
      rw [logStore_self]
      intro x hx
      rcases List.mem_append.mp hx with hx | hx
      · exact inf.recycled x hx
      · exact List.mem_singleton.mp hx ▸ hrecycled rfl
  · have hcount := inf.count
    rw [hread, hpop]
    cases q with
    | readQueue =>
      rw [hwrite (by decide)]
      simp only [reduceCtorEq, ↓reduceIte] at hc
      omega
    | writeQueue =>
      rw [logStore_self, place_snoc]
      simp only [↓reduceIte] at hc
      omega
  · rw [htouched]
    exact (inf.custody t b (hh t hb)).trans (hclock t)

/-- The popper of a queue takes the next block that it has found into its hands. -/
theorem take (inf : Informed base logs m s) {q : Queue} {x : Ptr}
    (hlt : (s.popView q).taken < (s.popView q).found (s.vb.queue.ring q))
    (hle : (s.popView q).taken < (s.vb.queue.ring q).content.length)
    (hx : x = (s.vb.queue.ring q).cell (offset (s.vb.queue.ring q).read (s.popView q).taken))
    (hp : m.perform Loc.writer q.popper
      (.touch (.cell q (offset (s.vb.queue.ring q).read (s.popView q).taken))) = some m')
    (hring : ∀ q', s'.vb.queue.ring q' = s.vb.queue.ring q')
    (hf : ∀ q', (s'.pushView q').filled = (s.pushView q').filled)
    (ht : (s'.popView q).taken = (s.popView q).taken + 1)
    (hd : (s'.popView q).found (s.vb.queue.ring q) ≤ (s.popView q).found (s.vb.queue.ring q))
    (hpop : ∀ q', q' ≠ q → s'.popView q' = s.popView q')
    (hh : ∀ t, ∀ y ∈ s'.hold t, y ∈ s.hold t ∨ t = q.popper ∧ y = x)
    (hc : s'.consumer.holds.length =
      s.consumer.holds.length + if q = .readQueue then 1 else 0) : Informed base logs m' s' := by
  obtain ⟨hstores, hclock, htouched⟩ := Memory.perform_touch hp
  obtain ⟨hcell, hhand⟩ := (inf.rings q).take_clear hlt hle
  have hkeep : ∀ y, y ≠ .cell q (offset (s.vb.queue.ring q).read (s.popView q).taken) →
      m'.touched y = m.touched y := by
    intro y hy
    rw [htouched, Function.update_of_ne hy]
  have hblock : ∀ b, m'.touched (.block b) = m.touched (.block b) := fun b => hkeep _ (by simp)
  refine ⟨fun l => hstores ▸ inf.stores l, fun q' => ?_, inf.returned, inf.recycled, ?_,
    fun t b hb => ?_⟩
  · rw [hring]
    rcases eq_or_ne q' q with rfl | hne
    · have g := (inf.rings q').views (hf q') rfl (inf.rings q').found
      refine g.take (by omega) ht hd rfl rfl (congrFun hclock _) (congrFun hclock _)
        (fun i hi => hkeep _ (by simpa using hi)) ?_ ?_
      · funext y
        cases y with
        | none => rfl
        | some b => exact hblock b
      · simp only [sides, htouched, Function.update_self, update_le_iff]
        exact ⟨le_rfl, fun u _ => hcell u⟩
    · rw [← hring]
      exact inf.other (fun _ => rfl) (fun t => (congrFun hclock t).ge)
        (fun i => hkeep _ (by simp [hne])) hblock (hring q') (hf q') (hpop q' hne)
  · have hcount := inf.count
    cases q with
    | readQueue =>
      simp only [↓reduceIte] at hc
      omega
    | writeQueue =>
      rw [hpop .readQueue (by decide)]
      simp only [reduceCtorEq, ↓reduceIte] at hc
      omega
  · rw [hblock, hclock]
    rcases hh t _ hb with hb | ⟨rfl, he⟩
    · exact inf.custody t b hb
    · rw [← hx, ← he] at hhand
      exact hhand

/-- The popper of a queue gives back the cells it has emptied. -/
theorem advance (inf : Informed base logs m s) {q : Queue} {k : ℕ} {v : Index}
    (hk : k ≤ (s.vb.queue.ring q).content.length) (hv : v = offset (s.vb.queue.ring q).read k)
    (ht : (s.popView q).taken = k) (hd : k ≤ (s.popView q).found (s.vb.queue.ring q))
    (hidle : s'.popView q = .idle)
    (hp : m.perform Loc.writer q.popper (.store ⟨q, .read⟩ v) = some m')
    (hring : s'.vb.queue.ring q = (s.vb.queue.ring q).advance k)
    (hrings : ∀ q', q' ≠ q → s'.vb.queue.ring q' = s.vb.queue.ring q')
    (hf : ∀ q', (s'.pushView q').filled = (s.pushView q').filled)
    (hpop : ∀ q', q' ≠ q → s'.popView q' = s.popView q') (hh : ∀ t, s'.hold t ⊆ s.hold t)
    (hc : s'.consumer.holds.length = s.consumer.holds.length) :
    Informed base (logStore logs ⟨q, .read⟩ k (m.clock q.popper)) m' s' := by
  obtain ⟨-, htouched, -⟩ := Memory.perform_store hp
  have hclock := fun u => Memory.perform_clock hp u
  have hwrite : ∀ q', logStore logs ⟨q, .read⟩ k (m.clock q.popper) ⟨q', .write⟩ =
      logs ⟨q', .write⟩ := fun q' => logStore_of_ne _ (by simp) _ _
  have hreached : ∀ l p c, Reached (logs l) p c →
      Reached (logStore logs ⟨q, .read⟩ k (m.clock q.popper) l) p c := by
    intro l p c h
    rcases eq_or_ne l ⟨q, .read⟩ with rfl | hne
    · rw [logStore_self]
      exact h.snoc _
    · rwa [logStore_of_ne _ hne]
  refine ⟨inf.stores_store hp ?_, fun q' => ?_, ?_, ?_, ?_, fun t b hb => ?_⟩
  · rw [hv, (inf.rings q).read.value, offset_offset]
    rfl
  · rcases eq_or_ne q' q with rfl | hne
    · rw [hring, hidle]
      have g := (inf.rings q').views (hf q') rfl (inf.rings q').found
      refine g.advance hk ht hd rfl rfl (hwrite q') (logStore_self _ _ _ _) (hclock _) (hclock _)
        ?_ ?_
      · simp only [sides, htouched]
      · simp only [sides, htouched]
    · refine inf.other (fun side => ?_) hclock (fun i => by rw [htouched])
        (fun b => by rw [htouched]) (hrings q' hne) (hf q') (hpop q' hne)
      exact logStore_of_ne _ (by simp [hne]) _ _
  · rw [hwrite]
    exact fun x hx => hreached _ _ _ (inf.returned x hx)
  · rw [hwrite]
    exact fun x hx => hreached _ _ _ (inf.recycled x hx)
  · have hcount := inf.count
    rw [hwrite, hc]
    cases q with
    | readQueue =>
      rw [logStore_self, place_snoc, hidle]
      simp only [PopView.taken]
      omega
    | writeQueue =>
      rw [logStore_of_ne _ (by simp), hpop .readQueue (by decide)]
      exact hcount
  · rw [htouched]
    exact (inf.custody t b (hh t hb)).trans (hclock t)

section Places

variable (inf : Informed base logs m s)

include inf

/-- Every block has been pushed as often as the producer has got and kept none of it. -/
theorem total (own : Owned s) (hm : s.vb.bufferMode = .producerConsumer) :
    s.vb.queue.blockPool.length + s.producerHolds.length + place (logs ⟨.readQueue, .write⟩) =
      NUM_BLOCKS + place (logs ⟨.writeQueue, .read⟩) + (s.popView .writeQueue).taken := by
  have hl := own.length_handles
  have hcount := inf.count
  have hr := (inf.rings .readQueue).length
  have hw := (inf.rings .writeQueue).length
  have hr' := PopView.length_content_eq (own.popView_ok hm .readQueue)
  have hw' := PopView.length_content_eq (own.popView_ok hm .writeQueue)
  obtain ⟨hrq, hwq⟩ := Owned.live_eq_owns hm
  have hrq : PopView.live (s.vb.queue.ring .readQueue) (s.popView .readQueue) = s.rqLive := hrq
  have hwq : PopView.live (s.vb.queue.ring .writeQueue) (s.popView .writeQueue) = s.wqLive := hwq
  rw [hrq] at hr'
  rw [hwq] at hw'
  simp only [sides] at hr hw
  omega

/-- A block that the producer has got back had been taken out of the read queue. -/
theorem producer_knows : Reached (logs ⟨.readQueue, .read⟩) (place (logs ⟨.writeQueue, .read⟩))
    (m.clock .producer) := by
  obtain ⟨x, hx, hle, hc⟩ := (inf.rings .writeQueue).found
  exact (inf.returned x hx).mono ((Nat.le_add_right _ _).trans hle) hc

/-- A block that the consumer has taken was pushed when all but `NUM_BLOCKS - 1` of those before
it had been got back. -/
theorem consumer_knows : Reached (logs ⟨.writeQueue, .read⟩)
    (place (logs ⟨.readQueue, .read⟩) - (NUM_BLOCKS - 1)) (m.clock .consumer) := by
  obtain ⟨x, hx, hle, hc⟩ := (inf.rings .readQueue).found
  have hle : place (logs ⟨.readQueue, .read⟩) ≤ x.1 := (Nat.le_add_right _ _).trans hle
  exact (inf.recycled x hx).mono (Nat.sub_le_sub_right hle _) hc

end Places

end Informed
end XBot
