import MatLogger2.VarBuffer.RaceFree

/-! A thread under release and acquire may always see the newest index, so every interleaving of
the two threads is one of its runs. -/

namespace XBot

open Spsc Transition RelAcq

variable {α : Type} {rows cols b : ℕ}

theorem QueueImpl.setIndex_index (queue : QueueImpl) (l : Loc) :
    queue.setIndex l (queue.index l) = queue := by
  obtain ⟨q, side⟩ := l
  cases q <;> cases side <;> rfl

theorem Threads.setIndex_eq_self {s : Threads α} {l : Loc} {i : Index}
    (h : s.vb.queue.index l = i) : s.setIndex l i = s := by
  rw [Threads.setIndex, ← h, QueueImpl.setIndex_index]

/-- A step that loads an index of the other thread stores none. -/
theorem Threads.index_of_loads {s s' : Threads α} {a : Act α} {es : List (Event α)} {l : Loc}
    {acquire : Bool} (hl : s.loads a = some (l, acquire)) (h : s.step a = some (s', es)) :
    s'.vb.queue = s.vb.queue := by
  obtain ⟨vb, p, c⟩ := s
  cases a with
  | callAddElem data => cases hl
  | callFlushToQueue => cases hl
  | callReadBlock => cases hl
  | producer =>
    cases p with
    | flushing caller pc =>
      cases pc with
      | infoRead w => cases h; rfl
      | allWrite info => cases h; rfl
      | pushRead info i w =>
        simp only [Threads.step, Threads.producerStep, VariableBuffer.flushStep] at h
        split_ifs at h <;> cases h <;> rfl
      | _ => cases hl
    | _ => cases hl
  | consumer =>
    cases c with
    | popWrite => cases h; rfl
    | pushRead i data valid w =>
      simp only [Threads.step, Threads.consumerStep] at h
      split_ifs at h <;> cases h <;> rfl
    | _ => cases hl

/-- Seeing the newest index is stepping as in an interleaving. -/
theorem Threads.stepSeeing_newest {s s' : Threads α} {a : Act α} {es : List (Event α)} {l : Loc}
    {acquire : Bool} (hl : s.loads a = some (l, acquire)) (h : s.step a = some (s', es)) :
    s.stepSeeing l (s.vb.queue.index l) a = some (s', es) := by
  rw [Threads.stepSeeing, Threads.setIndex_eq_self rfl, h, Option.map_some,
    Threads.setIndex_eq_self (by rw [Threads.index_of_loads hl h])]

/-- The newest store of an index is its value. -/
theorem Informed.newest {base : Queue → Index} {logs : Loc → Log Thread} {m : Mem} {s : Threads α}
    (inf : Informed base logs m s) (l : Loc) :
    ∃ store, (m.stores l).getLast? = some store ∧ store.value = s.vb.queue.index l := by
  have key : ∀ i c, Logged (base l.queue) (logs l) i c → ∃ store,
      (m.stores l).getLast? = some store ∧ store.value = i := by
    intro i c h
    rw [inf.stores, shown, List.getLast?_map, h.value, place]
    cases hx : (logs l).getLast? with
    | none => exact absurd (List.getLast?_eq_none_iff.mp hx) h.ne_nil
    | some x => exact ⟨_, rfl, rfl⟩
  obtain ⟨q, side⟩ := l
  cases side with
  | write => exact key _ _ (inf.rings q).write
  | read => exact key _ _ (inf.rings q).read

theorem performAll_seenStored {t : Thread} {m m' : Mem} {ops : List MemOp} (hs : m.SeenStored)
    (h : performAll t m ops = some m') : m'.SeenStored := by
  induction ops generalizing m with
  | nil => exact performAll_nil.mp h ▸ hs
  | cons o ops ih =>
    obtain ⟨m₁, h₁, h₂⟩ := performAll_cons.mp h
    exact ih (hs.perform h₁) h₂

theorem performAll_append {t : Thread} {m : Mem} (ops ops' : List MemOp) :
    performAll t m (ops ++ ops') = (performAll t m ops).bind fun m => performAll t m ops' := by
  simp [performAll, List.foldlM_append]

/-- A thread that sees the newest index takes the step of an interleaving. -/
theorem Weak.act_newest {base : Queue → Index} {logs : Loc → Log Thread} {m : Mem} {s : Threads α}
    {th : Threads α} {a : Act α} {evs : List (Event α)} (inf : Informed base logs m s)
    (hs : m.SeenStored) (h : s.step a = some (th, evs)) : ∃ n ops,
      Weak.act ⟨s, m⟩ a n = some ((th, evs), ops) ∧ ∃ m', performAll a.thread m ops = some m' := by
  have htouch : ∀ x : Option Datum, ∃ m₁, performAll a.thread m (x.toList.map Op.touch) = some m₁ ∧
      m₁.stores = m.stores ∧ m₁.clock = m.clock ∧ m₁.seen = m.seen := by
    intro x
    cases x with
    | none => exact ⟨m, rfl, rfl, rfl, rfl⟩
    | some x => exact ⟨_, rfl, rfl, rfl, rfl⟩
  obtain ⟨m₁, hm₁, hst, hcl, hse⟩ := htouch (s.touches a)
  cases hl : s.loads a with
  | none =>
    refine ⟨0, _, by rw [Weak.act]; simp only [hl, h]; rfl, ?_⟩
    rw [performAll_append, hm₁]
    cases s.stores a with
    | none => exact ⟨m₁, rfl⟩
    | some l => exact ⟨_, rfl⟩
  | some la =>
    obtain ⟨l, acquire⟩ := la
    obtain ⟨store, hlast, hv⟩ := inf.newest l
    have hvis : m.visible Loc.writer a.thread l ((m.stores l).length - 1) = some store :=
      hs.visible_newest hlast
    refine ⟨(m.stores l).length - 1, (s.touches a).toList.map Op.touch ++
      [.load l ((m.stores l).length - 1) acquire], ?_, ?_⟩
    · simp only [Weak.act, hl, hvis, Option.bind_some, hv, Threads.stepSeeing_newest hl h]
      rfl
    · -- touching has changed nothing that the load depends on
      have hvis₁ : m₁.visible Loc.writer a.thread l ((m.stores l).length - 1) = some store := by
        rw [← hvis]
        simp only [Memory.visible, hst, hcl, hse]
      rw [performAll_append, hm₁, Option.bind_some]
      simp only [performAll_singleton, Memory.perform, hvis₁]
      exact ⟨_, rfl⟩

/-- For every interleaving of the loads and stores there is a run under release and acquire that comes
to the same state and shows the same events. -/
theorem interleaving_weak {hist : List (Threads α)} {tr : List (Event α)} {s : Threads α}
    (h : (threads α rows cols b .producerConsumer).Run hist tr s) :
    ∃ hist' tr' w, (weakThreads α rows cols b).Run hist' tr' w ∧ w.threads = s ∧
      shownEvents tr' = tr := by
  have key : ∃ hist' tr' w, (weakThreads α rows cols b).Run hist' tr' w ∧ w.threads = s ∧
      shownEvents tr' = tr ∧ w.mem.SeenStored := by
    induction h with
    | @start t ht => exact ⟨_, _, _, .start ⟨t, ht, rfl⟩, rfl, rfl, Memory.SeenStored.start _⟩
    | @next hist tr es s s' hr hstep ih =>
      obtain ⟨hist', tr', ⟨threads, mem⟩, hw, rfl, htr, hs⟩ := ih
      obtain ⟨a, ha⟩ := hstep
      obtain ⟨base, logs, inf⟩ := (WeakKept.run hw).informed
      obtain ⟨n, ops, hact, m', hm'⟩ := Weak.act_newest inf hs ha
      have hstep' : Weak.step ⟨threads, mem⟩ (a, n) =
          some (⟨s', m'⟩, es.map .inl ++ ops.map fun o => .inr (a.thread, o)) := by
        simp only [Weak.step, hact, Option.bind_some, hm', Option.map_some]
      obtain ⟨evs, ops', hact', -, hshown, -⟩ := Weak.step_eq_some hstep'
      rw [hact] at hact'
      refine ⟨_, _, _, hw.next ⟨(a, n), hstep'⟩, rfl, ?_, performAll_seenStored hs hm'⟩
      rw [shownEvents_append, htr, hshown]
      cases hact'
      rfl
  obtain ⟨hist', tr', w, hw, hs, htr, -⟩ := key
  exact ⟨hist', tr', w, hw, hs, htr⟩

end XBot
