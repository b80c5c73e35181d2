import MatLogger2.Logger.Accounts

/-! The destructor drains everything. Each pass hands over some blocks of each
variable and leaves the others; none is lost in between, and after two rounds of
each loop nothing is left. -/

namespace XBot

open VariableBuffer Transition

variable {α : Type}

/-- What `write` reads from the address that it is given, if that much is there. -/
def BackendCall.payload : BackendCall α → Option (List α)
  | .write _ data rows cols slices =>
    let n := (rows * cols * slices).toNat
    if n ≤ data.length then some (data.take n) else none
  | .writeContainer _ _ => some []

theorem flatten_take {n : ℕ} {data : List (List α)} (h : ∀ col ∈ data, col.length = n) (k : ℕ) :
    (data.take k).flatten = data.flatten.take (n * k) := by
  induction data generalizing k with
  | nil => simp
  | cons col data ih =>
    cases k with
    | zero => simp
    | succ k =>
      have hcol : col.length = n := h col List.mem_cons_self
      have hle : col.length ≤ n * (k + 1) := by
        rw [hcol]
        exact Nat.le_mul_of_pos_right n k.succ_pos
      rw [List.take_succ_cons, List.flatten_cons, List.flatten_cons,
        ih (fun c hc => h c (List.mem_cons_of_mem _ hc)), List.take_append,
        List.take_of_length_le hle, hcol, Nat.mul_succ, Nat.add_sub_cancel]

theorem flatten_slice {n : ℕ} {xs : List (List α)} (hx : ∀ x ∈ xs, x.length = n) {k : ℕ}
    (h : k < xs.length) : (xs.flatten.drop (k * n)).take n = xs[k] := by
  induction xs generalizing k with
  | nil => cases h
  | cons x xs ih =>
    have hlen : x.length = n := hx x List.mem_cons_self
    cases k with
    | zero => simp [← hlen]
    | succ k =>
      rw [List.flatten_cons, Nat.succ_mul, Nat.add_comm, ← List.drop_drop, ← hlen, List.drop_left,
        hlen, List.getElem_cons_succ]
      exact ih (fun y hy => hx y (List.mem_cons_of_mem x hy)) (Nat.lt_of_succ_lt_succ h)

/-- A call of `write` for a block hands over the block's samples. -/
theorem payload_isWrite {vb : VariableBuffer α} {block : List (List α)} {call : BackendCall α}
    (h : IsWrite vb block call) : call.payload = some block.flatten := by
  obtain ⟨data, rfl, htake, hcol⟩ := h
  have hlen : block.length ≤ data.length := by
    rw [← htake, List.length_take]
    exact Nat.min_le_right _ _
  have hflat : block.flatten = data.flatten.take (vb.rows * vb.cols * block.length) := by
    rw [← flatten_take hcol, htake]
  have hle : vb.rows * vb.cols * block.length ≤ data.flatten.length := by
    have hsum : data.flatten.length = data.length * (vb.rows * vb.cols) := by
      rw [List.length_flatten, List.map_congr_left hcol]
      simp
    rw [hsum, Nat.mul_comm]
    exact Nat.mul_le_mul_right _ hlen
  unfold MatLogger2.writeCall
  split_ifs with hc
  · have hn : ((vb.rows : ℤ) * (block.length : ℤ) * 1).toNat = vb.rows * vb.cols * block.length := by
      rw [hc, Nat.mul_one, mul_one]
      norm_cast
    simp only [BackendCall.payload, hn, hle, if_true, ← hflat]
  · have hn : ((vb.rows : ℤ) * (vb.cols : ℤ) * (block.length : ℤ)).toNat =
        vb.rows * vb.cols * block.length := by
      norm_cast
    simp only [BackendCall.payload, hn, hle, if_true, ← hflat]

theorem payloads_isWrite {vb : VariableBuffer α} {blocks : List (List (List α))}
    {calls : List (BackendCall α)} (h : List.Forall₂ (IsWrite vb) blocks calls) :
    calls.mapM BackendCall.payload = some (blocks.map List.flatten) := by
  induction h with
  | nil => rfl
  | cons hw _ ih => rw [List.mapM_cons, payload_isWrite hw, ih]; rfl

namespace MatLogger2

variable {s s' s'' : MatLogger2 α}

/-- What has happened to one variable when some of its blocks have been handed
over by `calls`: those and the blocks it still has are the blocks it had. -/
def HandedOver (calls : List (BackendCall α)) (vb vb' : VariableBuffer α) : Prop :=
  SameVariable vb vb' ∧ ∃ blocks, List.Forall₂ (IsWrite vb) blocks calls ∧
    blocks ++ vb'.log.blocks = vb.log.blocks

/-- Either nothing is handed over, or first what is in the queue for containers. -/
def QueueFirst (s s' : MatLogger2 α) : Prop :=
  s'.backend = s.backend ∧ s'.matdataQueue = s.matdataQueue ∨
    s'.matdataQueue = [] ∧ ∃ writes, containers writes = [] ∧
      s'.backend = s.backend ++ s.matdataQueue.map (fun p => .writeContainer p.1 p.2) ++ writes

theorem QueueFirst.trans (h : QueueFirst s s') (h' : QueueFirst s' s'') : QueueFirst s s'' := by
  rcases h with ⟨hb, hq⟩ | ⟨hq, writes, hw, hb⟩ <;> rcases h' with ⟨hb', hq'⟩ | ⟨hq', writes', hw', hb'⟩
  · exact .inl ⟨hb'.trans hb, hq'.trans hq⟩
  · exact .inr ⟨hq', writes', hw', by rw [hb', hb, hq]⟩
  · exact .inr ⟨hq'.trans hq, writes, hw, hb'.trans hb⟩
  · refine .inr ⟨hq', writes ++ writes', ?_, ?_⟩
    · rw [containers_append, hw, hw']
      rfl
    · rw [hb', hb, hq, List.map_nil, List.append_nil, List.append_assoc]

/-- Some passes over the variables: nothing is lost and nothing is invented. -/
structure Handing (s s' : MatLogger2 α) : Prop where
  tidy : Tidy .producerConsumer s'.vars
  first : QueueFirst s s'
  keys : s'.vars.map Prod.fst = s.vars.map Prod.fst
  calls : ∃ calls, s'.backend = s.backend ++ calls ∧
    containers calls ++ s'.matdataQueue = s.matdataQueue ∧
    (∀ name, name ∉ s.vars.map Prod.fst → callsFor name calls = []) ∧
    ∀ name vb, (name, vb) ∈ s.vars →
      ∃ vb', (name, vb') ∈ s'.vars ∧ HandedOver (callsFor name calls) vb vb'

theorem HandedOver.trans {calls calls' : List (BackendCall α)} {a b c : VariableBuffer α}
    (h : HandedOver calls a b) (h' : HandedOver calls' b c) : HandedOver (calls ++ calls') a c := by
  obtain ⟨hs, blocks, hw, hb⟩ := h
  obtain ⟨hs', blocks', hw', hb'⟩ := h'
  refine ⟨hs.trans hs', blocks ++ blocks', ?_, ?_⟩
  · exact List.rel_append hw (hw'.imp fun _ _ h => h.congr hs)
  · rw [List.append_assoc, hb', hb]

theorem Handing.trans (h : Handing s s') (h' : Handing s' s'') : Handing s s'' := by
  obtain ⟨calls, hb, hc, ho, hv⟩ := h.calls
  obtain ⟨calls', hb', hc', ho', hv'⟩ := h'.calls
  refine ⟨h'.tidy, h.first.trans h'.first, h'.keys.trans h.keys, calls ++ calls', ?_, ?_,
    fun name hn => ?_, fun name vb hm => ?_⟩
  · rw [hb', hb, List.append_assoc]
  · rw [containers_append, List.append_assoc, hc', hc]
  · rw [callsFor_append, ho name hn, ho' name (h.keys ▸ hn)]
    rfl
  · obtain ⟨vb', hm', hh⟩ := hv name vb hm
    obtain ⟨vb'', hm'', hh'⟩ := hv' name vb' hm'
    rw [callsFor_append]
    exact ⟨vb'', hm'', hh.trans hh'⟩

theorem flushToQueueAll_spec (t : Tidy .producerConsumer s.vars) :
    ∃ s' ok, s.flushToQueueAll = (s', .ok ok) ∧ Handing s s' ∧
      s'.matdataQueue = s.matdataQueue ∧
      List.Forall₂ (Evolves fun l => (l.flush false).1) s.vars s'.vars ∧
      (ok = true ↔ ∀ p ∈ s.vars, (p.2.log.flush false).2 = true) := by
  obtain ⟨vars', ok, he, hev, hok⟩ := flushVars_spec t true
  refine ⟨{ s with vars := vars' }, ok, by simp only [flushToQueueAll, he],
    ⟨t.evolves hev, .inl ⟨rfl, rfl⟩, evolves_keys hev, [], by simp, by simp [containers],
      fun _ _ => rfl, fun name vb hm => ?_⟩,
    rfl, hev, by simpa using hok⟩
  obtain ⟨vb', hm', hb⟩ := evolves_mem hev hm
  obtain ⟨b, -, w⟩ := t.whole _ hm
  refine ⟨vb', hm', (hb b w).same, [], .nil, ?_⟩
  rw [(hb b w).log, BlockLog.blocks_flush]
  rfl

theorem flushAvailableData_spec (t : Tidy .producerConsumer s.vars) :
    ∃ s' bytes, s.flushAvailableData = (s', .ok bytes) ∧ Handing s s' ∧ s'.matdataQueue = [] ∧
      List.Forall₂ (Evolves BlockLog.drain) s.vars s'.vars ∧
      ((∀ p ∈ s.vars, p.2.log.queue = []) → bytes = 0) := by
  obtain ⟨vars', acc, he, hev, hw⟩ := writeVars_spec t ⟨[], 0⟩
  have hnone : ∀ name, callsFor name
      (s.matdataQueue.map fun p => BackendCall.writeContainer p.1 p.2) = [] := by
    intro name
    simp [callsFor, List.filter_map, Function.comp_def, BackendCall.isFor]
  refine ⟨{ s with
      vars := vars'
      matdataQueue := []
      backend := s.backend ++ s.matdataQueue.map (fun p => .writeContainer p.1 p.2) ++ acc.calls },
    acc.bytes, by simp only [flushAvailableData, he], ⟨t.evolves hev,
    .inr ⟨rfl, acc.calls, hw.containers, rfl⟩, evolves_keys hev,
    s.matdataQueue.map (fun p => .writeContainer p.1 p.2) ++ acc.calls, ?_, ?_, fun name hn => ?_,
    fun name vb hm => ?_⟩, rfl, hev, fun hq => by rw [hw.nothing hq]⟩
  · simp
  · have hid : ∀ q : List (StdString × MatData α),
        containers (q.map fun p => BackendCall.writeContainer p.1 p.2) = q := by
      intro q
      simp [containers, List.filterMap_map, Function.comp_def, BackendCall.container]
    rw [containers_append, hid, hw.containers]
    simp [containers]
  · rw [callsFor_append, hnone, hw.other name hn]
    rfl
  · obtain ⟨vb', hm', hb⟩ := evolves_mem hev hm
    obtain ⟨b, -, wb⟩ := t.whole _ hm
    obtain ⟨calls, hc, hws⟩ := hw.each name vb hm
    refine ⟨vb', hm', (hb b wb).same, vb.log.queue, ?_, ?_⟩
    · rw [callsFor_append, hnone, hc]
      exact hws
    · rw [(hb b wb).log, BlockLog.blocks_drain]

/-- A variable whose queue has just been drained can be flushed. -/
theorem flush_drain {b : ℕ} {vb : VariableBuffer α} (w : Whole b vb) :
    (vb.log.drain.flush false).2 = true := by
  have hblocks := w.blocks
  have hfree : 0 < vb.log.drain.free := by
    simp only [BlockLog.drain]
    have : NUM_BLOCKS = 20 := rfl
    omega
  by_cases hc : vb.log.drain.current = []
  · rw [BlockLog.flush_nil hc]
  · rw [BlockLog.flush_free hc hfree]

/-- The first loop ends after at most two rounds, with every current block empty. -/
theorem flushLoop_spec (t : Tidy .producerConsumer s.vars) :
    ∃ s', (∀ fuel, s.flushLoop (fuel + 2) = some (s', none)) ∧ Handing s s' ∧
      s'.matdataQueue <:+ s.matdataQueue ∧ ∀ p ∈ s'.vars, p.2.log.current = [] := by
  have hcur : ∀ {s s' : MatLogger2 α}, Tidy .producerConsumer s.vars →
      List.Forall₂ (Evolves fun l => (l.flush false).1) s.vars s'.vars →
      (∀ p ∈ s.vars, (p.2.log.flush false).2 = true) → ∀ p ∈ s'.vars, p.2.log.current = [] := by
    intro s s' t hev hall p' hp'
    obtain ⟨p, hp, -, hb⟩ := evolves_mem' hev hp'
    obtain ⟨b, -, w⟩ := t.whole p hp
    rw [(hb b w).log]
    exact BlockLog.current_flush (hall p hp)
  obtain ⟨s₁, ok, he₁, h₁, hq₁, hev₁, hok₁⟩ := flushToQueueAll_spec t
  cases ok with
  | true =>
    refine ⟨s₁, fun fuel => ?_, h₁, ?_, hcur t hev₁ (hok₁.mp rfl)⟩
    · simp only [flushLoop, he₁]
    · rw [hq₁]
  | false =>
    obtain ⟨s₂, bytes, he₂, h₂, hq₂, hev₂, -⟩ := flushAvailableData_spec h₁.tidy
    obtain ⟨s₃, ok, he₃, h₃, hq₃, hev₃, hok₃⟩ := flushToQueueAll_spec h₂.tidy
    -- every queue has been drained, so the second flush finds a free block
    have hall : ∀ p ∈ s₂.vars, (p.2.log.flush false).2 = true := by
      intro p' hp'
      obtain ⟨p, hp, -, hb⟩ := evolves_mem' hev₂ hp'
      obtain ⟨b, -, w⟩ := h₁.tidy.whole p hp
      rw [(hb b w).log]
      exact flush_drain w
    have hok : ok = true := hok₃.mpr hall
    subst hok
    refine ⟨s₃, fun fuel => ?_, (h₁.trans h₂).trans h₃, ?_, hcur h₂.tidy hev₃ hall⟩
    · simp only [flushLoop, he₁, he₂, he₃]
    · rw [hq₃, hq₂]
      exact List.nil_suffix

/-- The second loop ends after at most two rounds, with nothing left. -/
theorem drainLoop_spec (t : Tidy .producerConsumer s.vars)
    (hc : ∀ p ∈ s.vars, p.2.log.current = []) :
    ∃ s', (∀ fuel, s.drainLoop (fuel + 2) = some (s', none)) ∧ Handing s s' ∧
      s'.matdataQueue = [] ∧ ∀ p ∈ s'.vars, p.2.log.blocks = [] := by
  have hempty : ∀ {s s' : MatLogger2 α}, Tidy .producerConsumer s.vars →
      List.Forall₂ (Evolves BlockLog.drain) s.vars s'.vars → (∀ p ∈ s.vars, p.2.log.current = []) →
      ∀ p ∈ s'.vars, p.2.log.current = [] ∧ p.2.log.queue = [] := by
    intro s s' t hev hall p' hp'
    obtain ⟨p, hp, -, hb⟩ := evolves_mem' hev hp'
    obtain ⟨b, -, w⟩ := t.whole p hp
    rw [(hb b w).log]
    exact ⟨hall p hp, rfl⟩
  have hblocks : ∀ l : BlockLog (List α), l.current = [] ∧ l.queue = [] → l.blocks = [] := by
    rintro ⟨queue, current, free⟩ ⟨rfl, rfl⟩
    rfl
  obtain ⟨s₁, bytes, he₁, h₁, hq₁, hev₁, -⟩ := flushAvailableData_spec t
  have hnil₁ := hempty t hev₁ hc
  by_cases hpos : bytes > 0
  · obtain ⟨s₂, bytes₂, he₂, h₂, hq₂, hev₂, hzero⟩ := flushAvailableData_spec h₁.tidy
    have hz : bytes₂ = 0 := hzero fun p hp => (hnil₁ p hp).2
    subst hz
    refine ⟨s₂, fun fuel => ?_, h₁.trans h₂, hq₂, fun p hp =>
      hblocks _ (hempty h₁.tidy hev₂ (fun p hp => (hnil₁ p hp).1) p hp)⟩
    simp only [drainLoop, he₁, he₂, hpos, if_true, lt_irrefl, if_false]
  · refine ⟨s₁, fun fuel => ?_, h₁, hq₁, fun p hp => hblocks _ (hnil₁ p hp)⟩
    simp only [drainLoop, he₁, hpos, if_false]

/-- The state in which the destructor's first loop starts. -/
theorem destroy_eq (s : MatLogger2 α) (fuel : ℕ) :
    s.destroy fuel =
      match ((s.setOnDataAvailableCallback false).setBufferMode .producerConsumer).flushLoop fuel with
      | none => none
      | some (s, some what) => some (s, some what)
      | some (s, none) => s.drainLoop fuel := rfl

/-- The destructor on any tidy variables, said on their logs. -/
theorem destroy_spec (t : Tidy s.bufferMode s.vars) :
    ∃ s' calls, (∀ fuel, s.destroy (fuel + 2) = some (s', none)) ∧
      s'.backend = s.backend ++ calls ∧ containers calls = s.matdataQueue ∧
      s'.matdataQueue = [] ∧ s'.vars.map Prod.fst = s.vars.map Prod.fst ∧
      (∀ p ∈ s'.vars, p.2.log.blocks = []) ∧
      (∀ name, name ∉ s.vars.map Prod.fst → callsFor name calls = []) ∧
      ∀ name vb, (name, vb) ∈ s.vars →
        List.Forall₂ (IsWrite vb) vb.log.blocks (callsFor name calls) := by
  have t₀ : Tidy .producerConsumer
      ((s.setOnDataAvailableCallback false).setBufferMode .producerConsumer).vars :=
    (t.setOnBlockAvailable false).setBufferMode .producerConsumer
  obtain ⟨s₁, hloop₁, h₁, -, hc⟩ := flushLoop_spec t₀
  obtain ⟨s₂, hloop₂, h₂, hq, hnil⟩ := drainLoop_spec h₁.tidy hc
  have h := h₁.trans h₂
  obtain ⟨calls, hb, hcont, hother, hv⟩ := h.calls
  have hkeys : ((s.setOnDataAvailableCallback false).setBufferMode .producerConsumer).vars.map
      Prod.fst = s.vars.map Prod.fst := by
    simp only [setBufferMode, setOnDataAvailableCallback, List.map_map]
    rfl
  rw [hkeys] at hother
  refine ⟨s₂, calls, fun fuel => ?_, hb, ?_, hq, h.keys.trans hkeys, hnil, hother,
    fun name vb hm => ?_⟩
  · rw [destroy_eq, hloop₁]
    exact hloop₂ fuel
  · rw [hq, List.append_nil] at hcont
    exact hcont
  · have hm₀ : (name, (vb.setOnBlockAvailable false).setBufferMode .producerConsumer) ∈
        ((s.setOnDataAvailableCallback false).setBufferMode .producerConsumer).vars :=
      List.mem_map.mpr ⟨_, List.mem_map.mpr ⟨_, hm, rfl⟩, rfl⟩
    obtain ⟨vb', hm', -, blocks, hw, hblocks⟩ := hv name _ hm₀
    rw [hnil _ hm', List.append_nil] at hblocks
    exact hblocks ▸ hw

/-- The destructor writes the saved containers before anything else. -/
theorem destroy_queueFirst (t : Tidy s.bufferMode s.vars)
    (hd : ∀ fuel, s.destroy (fuel + 2) = some (s', none)) : s'.matdataQueue = [] ∧ QueueFirst s s' := by
  have t₀ : Tidy .producerConsumer
      ((s.setOnDataAvailableCallback false).setBufferMode .producerConsumer).vars :=
    (t.setOnBlockAvailable false).setBufferMode .producerConsumer
  obtain ⟨s₁, hloop₁, h₁, -, hc⟩ := flushLoop_spec t₀
  obtain ⟨s₂, hloop₂, h₂, hq, -⟩ := drainLoop_spec h₁.tidy hc
  have hdone := hd 0
  rw [destroy_eq, hloop₁] at hdone
  obtain ⟨rfl, -⟩ := Prod.mk.inj (Option.some.inj ((hloop₂ 0).symm.trans hdone))
  exact ⟨hq, h₁.first.trans h₂.first⟩

/-- All calls of the backend that a logger leaves behind: for each variable, those for
the blocks read before and for those that were left. -/
theorem destroy_accounts {mode : Mode} {tr : List (Result α)} (acc : Accounted mode tr s) :
    ∃ s', (∀ fuel, s.destroy (fuel + 2) = some (s', none)) ∧
      containers s'.backend = containers s.backend ++ s.matdataQueue ∧
      (∀ name, name ∉ s.vars.map Prod.fst → callsFor name s'.backend = []) ∧
      ∀ name vb, (name, vb) ∈ s.vars → ∃ b blocks, Account mode name tr s.backend b vb ∧
        List.Forall₂ (IsWrite vb) blocks (callsFor name s.backend) ∧
        BlockLog.History NUM_BLOCKS b (decide (mode = .circularBuffer)) (acceptedFor name tr) blocks
          (discardedFor name tr) vb.log ∧
        List.Forall₂ (IsWrite vb) (blocks ++ vb.log.blocks) (callsFor name s'.backend) := by
  have t := acc.tidy
  rw [← acc.inMode] at t
  obtain ⟨s', calls, hd, hb, hc, -, -, -, hother, hw⟩ := destroy_spec t
  refine ⟨s', hd, ?_, fun name hn => ?_, fun name vb hm => ?_⟩
  · rw [hb, containers_append, hc]
  · rw [hb, callsFor_append, hother name hn, (acc.others name hn).2]
    rfl
  · obtain ⟨b, a⟩ := acc.each name vb hm
    obtain ⟨blocks, hws, hh⟩ := a.history
    refine ⟨b, blocks, a, hws, hh, ?_⟩
    rw [hb, callsFor_append]
    exact List.rel_append hws (hw name vb hm)

/-- From every reachable state the destructor ends, and hands over exactly the
samples of each variable's read queue, then those of its current block, and the
saved containers in their order; nothing is left. -/
theorem destroy_drains {opt : Options} (h : (logger α opt).Reachable s) :
    ∃ s' calls, (∀ fuel, s.destroy (fuel + 2) = some (s', none)) ∧
      s'.backend = s.backend ++ calls ∧
      (∀ name vb, (name, vb) ∈ s.vars → ∃ payloads,
        (callsFor name calls).mapM BackendCall.payload = some payloads ∧
          payloads.flatten =
            (vb.queue.readQueue.content.flatMap (validOf vb.block) ++ vb.current.valid).flatten) ∧
      containers calls = s.matdataQueue ∧ s'.matdataQueue = [] ∧
      s'.vars.map Prod.fst = s.vars.map Prod.fst ∧
      ∀ p ∈ s'.vars, p.2.current.valid = [] ∧ p.2.queue.readQueue.content = [] := by
  obtain ⟨s', calls, hd, hb, hc, hq, hk, hnil, -, hw⟩ := destroy_spec (reachable_tidy h)
  refine ⟨s', calls, hd, hb, fun name vb hm => ⟨_, payloads_isWrite (hw name vb hm), ?_⟩, hc, hq, hk,
    fun p hp => ?_⟩
  · rw [← List.flatten_flatten, BlockLog.flatten_blocks, BlockLog.content, List.flatMap]
    rfl
  · have hcontent := BlockLog.flatten_blocks p.2.log
    have hlog := hnil p hp
    rw [BlockLog.blocks, List.append_eq_nil_iff] at hlog
    obtain ⟨hqueue, -⟩ := hlog
    rw [hnil p hp, BlockLog.content, hqueue] at hcontent
    exact ⟨hcontent.symm, List.map_eq_nil_iff.mp hqueue⟩

/-- Three samples in blocks of one, in circular mode. -/
theorem destroy_drains_three : ∃ s : MatLogger2 ℕ, (logger ℕ ⟨20, 20⟩).Reachable s ∧
    s.bufferMode = .circularBuffer ∧ ∃ s' calls payloads, s.destroy 2 = some (s', none) ∧
      s'.backend = s.backend ++ calls ∧
      (callsFor [120] calls).mapM BackendCall.payload = some payloads ∧
      payloads.flatten = [5, 6, 7] := by
  obtain ⟨hist, tr, s, vb, h, hs, -, -, hsize, hacc⟩ := run_samples ⟨20, 20⟩ .circularBuffer zeroed
    [120] 1 1 20 (by decide) (by decide) (by decide) (by decide)
    [⟨1, 1, [5], rfl⟩, ⟨1, 1, [6], rfl⟩, ⟨1, 1, [7], rfl⟩] (by decide)
  have hreach : (logger ℕ ⟨20, 20⟩).Reachable s := logger_of_loggerIn ⟨hist, tr, h⟩
  have acc := accounted_run h
  obtain ⟨s', calls, hd, hb, hp, -⟩ := destroy_drains hreach
  obtain ⟨payloads, hpay, hflat⟩ := hp [120] vb hs.mem
  refine ⟨s, hreach, acc.inMode, s', calls, payloads, hd 0, hb, hpay, ?_⟩
  obtain ⟨b, account⟩ := acc.each _ vb hs.mem
  obtain rfl : b = 1 := (account.whole.size _).symm.trans hsize
  obtain ⟨blocks, hw, hh⟩ := account.history
  rw [hs.backend] at hw
  cases hw
  have hkept := hh.kept one_pos (by decide)
  rw [hacc] at hkept
  rw [hflat]
  exact congrArg List.flatten hkept

end MatLogger2
end XBot
