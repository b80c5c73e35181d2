import MatLogger2.Logger.Runs

/-! What becomes of the samples added to each variable, over a run in one mode.
Each variable keeps an account: the samples its calls of `add_elem` have accepted,
those they have dropped, the blocks that have been written, and its log. -/

namespace XBot

open VariableBuffer Transition

variable {α : Type}

/-- What one call of `add_elem` was given, and what it has done. -/
structure AddCall (α : Type) where
  data : Eigen.MatrixXd α
  ret : Except String Bool
  discarded : List (List α)

/-- The sample that the call has accepted. -/
def AddCall.accepted (a : AddCall α) : Option (List α) :=
  match a.ret with
  | .ok true => some a.data.data
  | _ => none

namespace MatLogger2

def Result.addFor (name : StdString) : Result α → Option (AddCall α)
  | .added varName data ret discarded => if varName = name then some ⟨data, ret, discarded⟩ else none
  | _ => none

end MatLogger2

open MatLogger2

/-- The calls of `add_elem` for the variable of that name. -/
def addsFor (name : StdString) (tr : List (Result α)) : List (AddCall α) :=
  tr.filterMap (Result.addFor name)

def acceptedFor (name : StdString) (tr : List (Result α)) : List (List α) :=
  (addsFor name tr).filterMap AddCall.accepted

def discardedFor (name : StdString) (tr : List (Result α)) : List (List α) :=
  (addsFor name tr).flatMap AddCall.discarded

@[simp] theorem addsFor_append (name : StdString) (tr es : List (Result α)) :
    addsFor name (tr ++ es) = addsFor name tr ++ addsFor name es := List.filterMap_append

theorem addsFor_added (name varName : StdString) (data : Eigen.MatrixXd α)
    (ret : Except String Bool) (discarded : List (List α)) :
    addsFor name [Result.added varName data ret discarded] =
      if varName = name then [⟨data, ret, discarded⟩] else [] := by
  simp only [addsFor, List.filterMap_cons, Result.addFor, List.filterMap_nil]
  split_ifs <;> rfl

theorem acceptedFor_append (name : StdString) (tr es : List (Result α)) :
    acceptedFor name (tr ++ es) = acceptedFor name tr ++ acceptedFor name es := by
  rw [acceptedFor, addsFor_append, List.filterMap_append]
  rfl

theorem discardedFor_append (name : StdString) (tr es : List (Result α)) :
    discardedFor name (tr ++ es) = discardedFor name tr ++ discardedFor name es := by
  rw [discardedFor, addsFor_append, List.flatMap_append]
  rfl

namespace MatLogger2

def Op.keeps (mode : Mode) : Op α → Prop
  | .setBufferMode m => m = mode
  | _ => True

/-- Nothing has been added yet, or given to the backend. -/
structure Unused (s : MatLogger2 α) : Prop where
  log : ∀ p ∈ s.vars, p.2.log = .empty (NUM_BLOCKS - 1)
  calls : ∀ name, callsFor name s.backend = []

end MatLogger2

/-- The logger in one mode, from when it is set and as long as it is kept. -/
def loggerIn (α : Type) (opt : Options) (mode : Mode) : System (MatLogger2 α) (Result α) where
  init s := (logger α opt).Reachable s ∧ s.bufferMode = mode ∧ Unused s
  step s rs s' := ∃ op s₁ vars, Op.keeps mode op ∧ s.call op = some (s₁, rs) ∧
    vars.Perm s₁.vars ∧ s' = { s₁ with vars }

theorem logger_of_loggerIn {opt : Options} {mode : Mode} {s : MatLogger2 α}
    (h : (loggerIn α opt mode).Reachable s) : (logger α opt).Reachable s := by
  refine h.inv (I := (logger α opt).Reachable) (fun s h0 => And.left h0) ?_
  rintro s es s' ⟨hist, tr, hr⟩ ⟨op, s₁, vars, -, hc, hp, rfl⟩
  exact ⟨_, _, hr.next ⟨op, s₁, vars, hc, hp, rfl⟩⟩

namespace MatLogger2

variable {s s' : MatLogger2 α} {mode : Mode} {name : StdString} {b : ℕ}
variable {vb vb' : VariableBuffer α} {tr es : List (Result α)} {backend calls : List (BackendCall α)}

/-- The account of one variable with blocks of `b` samples. -/
structure Account (mode : Mode) (name : StdString) (tr : List (Result α))
    (backend : List (BackendCall α)) (b : ℕ) (vb : VariableBuffer α) : Prop where
  pos : 0 < b
  whole : Whole b vb
  returns : ∀ a ∈ addsFor name tr, a.ret = .ok (decide (a.data.size = vb.rows * vb.cols))
  history : ∃ blocks, List.Forall₂ (IsWrite vb) blocks (callsFor name backend) ∧
    BlockLog.History NUM_BLOCKS b (decide (mode = .circularBuffer)) (acceptedFor name tr) blocks
      (discardedFor name tr) vb.log

/-- A run so far, and where it has led. -/
structure Accounted (mode : Mode) (tr : List (Result α)) (s : MatLogger2 α) : Prop where
  inMode : s.bufferMode = mode
  tidy : Tidy mode s.vars
  each : ∀ name vb, (name, vb) ∈ s.vars → ∃ b, Account mode name tr s.backend b vb
  others : ∀ name, name ∉ s.vars.map Prod.fst →
    addsFor name tr = [] ∧ callsFor name s.backend = []
  silent : mode = .circularBuffer → ∀ name, callsFor name s.backend = []

theorem Account.quiet (a : Account mode name tr backend b vb) (hes : addsFor name es = []) :
    Account mode name (tr ++ es) backend b vb := by
  obtain ⟨blocks, hw, hh⟩ := a.history
  refine ⟨a.pos, a.whole, ?_, blocks, hw, ?_⟩
  · rw [addsFor_append, hes, List.append_nil]
    exact a.returns
  · rw [acceptedFor, discardedFor, addsFor_append, hes, List.append_nil]
    exact hh

theorem Account.set (a : Account mode name tr backend b vb) (mode' : Mode) (callback : Bool) :
    Account mode name tr backend b ((vb.setOnBlockAvailable callback).setBufferMode mode') :=
  ⟨a.pos, whole_set a.whole mode' callback, a.returns, a.history⟩

theorem Account.calls_nil (a : Account mode name tr backend b vb) (h : callsFor name calls = []) :
    Account mode name tr (backend ++ calls) b vb := by
  obtain ⟨blocks, hw, hh⟩ := a.history
  refine ⟨a.pos, a.whole, a.returns, blocks, ?_, hh⟩
  rw [callsFor_append, h, List.append_nil]
  exact hw

/-- An accepted sample has the variable's shape. -/
theorem Account.accepted_length (a : Account mode name tr backend b vb) :
    ∀ x ∈ acceptedFor name tr, x.length = vb.rows * vb.cols := by
  intro x hx
  obtain ⟨c, hc, hacc⟩ := List.mem_filterMap.mp hx
  rw [AddCall.accepted, a.returns c hc] at hacc
  by_cases hsize : c.data.size = vb.rows * vb.cols
  · rw [decide_eq_true hsize] at hacc
    rw [← Option.some.inj hacc, ← hsize]
    exact c.data.length_data
  · rw [decide_eq_false hsize] at hacc
    cases hacc

/-- The account after a call of `add_elem`. -/
theorem Account.added (a : Account mode name tr backend b vb) (hm : vb.bufferMode = mode)
    (data : Eigen.MatrixXd α) :
    Account mode name
      (tr ++ [.added name data (vb.addElem data).ret (vb.addElem data).discarded]) backend b
      (vb.addElem data).vb := by
  obtain ⟨blocks, hw, hh⟩ := a.history
  have hover : vb.overwrites = decide (mode = .circularBuffer) := by rw [overwrites, hm]
  have hadds := addsFor_added name name data (vb.addElem data).ret (vb.addElem data).discarded
  rw [if_pos rfl] at hadds
  have hsame := (addElem_whole a.pos a.whole data).2
  have hw' : List.Forall₂ (IsWrite (vb.addElem data).vb) blocks (callsFor name backend) :=
    hw.imp fun _ _ h => h.congr hsame.symm
  by_cases hsize : data.size = vb.rows * vb.cols
  · obtain ⟨hret, hlost, hbecomes⟩ := addElem_spec a.whole a.pos hsize
    refine ⟨a.pos, hbecomes.whole, fun c hc => ?_, blocks, hw', ?_⟩
    · rw [hsame.rows, hsame.cols]
      rw [addsFor_append, hadds] at hc
      rcases List.mem_append.mp hc with hc | hc
      · exact a.returns c hc
      · rw [List.mem_singleton.mp hc, hret, decide_eq_true hsize]
    · have hacc : acceptedFor name [Result.added name data (vb.addElem data).ret
          (vb.addElem data).discarded] = [data.data] := by
        rw [acceptedFor, hadds, hret]
        rfl
      have hdis : discardedFor name [Result.added name data (vb.addElem data).ret
          (vb.addElem data).discarded] = vb.log.lost b vb.overwrites := by
        rw [discardedFor, hadds, hlost]
        simp
      rw [acceptedFor_append, discardedFor_append, hacc, hdis, hbecomes.log, hover]
      exact hh.add data.data
  · have he := addElem_refused hsize
    have hadd : ∀ c ∈ addsFor name (tr ++ [.added name data (vb.addElem data).ret
        (vb.addElem data).discarded]), c.ret = .ok (decide (c.data.size = vb.rows * vb.cols)) := by
      intro c hc
      rw [addsFor_append, hadds] at hc
      rcases List.mem_append.mp hc with hc | hc
      · exact a.returns c hc
      · rw [List.mem_singleton.mp hc, he, decide_eq_false hsize]
    refine ⟨a.pos, by rw [he]; exact a.whole, by rw [hsame.rows, hsame.cols]; exact hadd, blocks,
      hw', ?_⟩
    have hacc : AddCall.accepted ⟨data, .ok false, []⟩ = none := rfl
    rw [acceptedFor, discardedFor, addsFor_append, hadds, he]
    simp only [List.filterMap_append, List.filterMap_cons_none hacc, List.filterMap_nil,
      List.flatMap_append, List.flatMap_cons, List.flatMap_nil, List.append_nil]
    exact hh

/-- Events and calls of the backend that are not about the variables. -/
theorem Accounted.quiet (a : Accounted mode tr s) (calls : List (BackendCall α))
    (hm : s'.bufferMode = s.bufferMode) (hv : s'.vars = s.vars) (hb : s'.backend = s.backend ++ calls)
    (hes : ∀ name, addsFor name es = []) (hcalls : ∀ name, callsFor name calls = []) :
    Accounted mode (tr ++ es) s' := by
  refine ⟨hm.trans a.inMode, hv ▸ a.tidy, fun name vb h => ?_, fun name h => ?_, fun h name => ?_⟩
  · rw [hv] at h
    obtain ⟨b, ha⟩ := a.each name vb h
    rw [hb]
    exact ⟨b, (ha.quiet (hes name)).calls_nil (hcalls name)⟩
  · rw [hv] at h
    obtain ⟨hadd, hcall⟩ := a.others name h
    rw [hb, addsFor_append, callsFor_append, hadd, hcall, hes, hcalls]
    exact ⟨rfl, rfl⟩
  · rw [hb, callsFor_append, a.silent h, hcalls]
    rfl

theorem Accounted.perm (a : Accounted mode tr s) {vars : List (StdString × VariableBuffer α)}
    (h : vars.Perm s.vars) : Accounted mode tr { s with vars } :=
  ⟨a.inMode, a.tidy.perm h, fun name vb hm => a.each name vb (h.subset hm),
    fun name hn => a.others name fun hm => hn ((h.map Prod.fst).symm.subset hm), a.silent⟩

theorem Accounted.setOnBlockAvailable (a : Accounted mode tr s) (callback : Bool) :
    Accounted mode tr (s.setOnDataAvailableCallback callback) := by
  refine ⟨a.inMode, a.tidy.setOnBlockAvailable callback, fun name vb hm => ?_, fun name hn => ?_,
    a.silent⟩
  · obtain ⟨⟨n, v⟩, hp, he⟩ := List.mem_map.mp hm
    cases he
    obtain ⟨b, ha⟩ := a.each n v hp
    exact ⟨b, ha.set v.bufferMode callback⟩
  · refine a.others name fun h => hn ?_
    rw [setOnDataAvailableCallback, List.map_map]
    exact h

theorem Accounted.setBufferMode (a : Accounted mode tr s) :
    Accounted mode tr (s.setBufferMode mode) := by
  refine ⟨rfl, a.tidy.setBufferMode mode, fun name vb hm => ?_, fun name hn => ?_, a.silent⟩
  · obtain ⟨⟨n, v⟩, hp, he⟩ := List.mem_map.mp hm
    cases he
    obtain ⟨b, ha⟩ := a.each n v hp
    exact ⟨b, ha.set mode v.onBlockAvailable⟩
  · refine a.others name fun h => hn ?_
    rw [MatLogger2.setBufferMode, List.map_map]
    exact h

/-- A new variable starts with an empty account. -/
theorem Accounted.emplace (a : Accounted mode tr s) (mem : Allocator α) {varName : StdString}
    (hnew : s.find varName = none) {rows cols : ℕ} (hr : 0 < rows) (hc : 0 < cols)
    (hsize : rows * cols < 2 ^ 31) (bufferSize : ℕ) :
    Accounted mode tr (s.emplace mem varName rows cols bufferSize) := by
  have t := a.tidy
  rw [← a.inMode] at t
  have t' := t.emplace mem hnew hr hc hsize bufferSize
  rw [a.inMode] at t'
  refine ⟨a.inMode, t', fun name vb hm => ?_, fun name hn => ?_, a.silent⟩
  · simp only [MatLogger2.emplace, List.mem_cons, Prod.mk.injEq] at hm
    rcases hm with ⟨rfl, rfl⟩ | hm
    · obtain ⟨hadd, hcall⟩ := a.others name (find_eq_none.mp hnew)
      obtain ⟨w, hlog⟩ := whole_make name rows cols (max 1 (bufferSize / NUM_BLOCKS))
        (le_max_left 1 _) (mem _ _)
      refine ⟨_, le_max_left 1 _, whole_set w _ _, ?_, [], ?_, ?_⟩
      · rw [hadd]
        simp
      · show List.Forall₂ _ [] (callsFor name s.backend)
        rw [hcall]
        exact .nil
      · rw [acceptedFor, discardedFor, hadd]
        exact hlog ▸ .start
    · exact a.each name vb hm
  · simp only [MatLogger2.emplace, List.map_cons, List.mem_cons, not_or] at hn
    exact a.others name hn.2

theorem Accounted.create (a : Accounted mode tr s) {mem : Allocator α} {varName : StdString}
    {rows cols bufferSize : ℤ} {ok : Bool}
    (h : s.create mem varName rows cols bufferSize = some (s', ok)) : Accounted mode tr s' := by
  cases ok with
  | false =>
    obtain rfl := create_false h
    exact a
  | true =>
    obtain ⟨hnew, hr, hc, hlt, rfl⟩ := create_true h
    exact a.emplace mem hnew (Int.pos_iff_toNat_pos.mp hr) (Int.pos_iff_toNat_pos.mp hc)
      (toNat_mul_lt hr hc hlt) _

theorem Accounted.addElem (a : Accounted mode tr s) (hf : s.find name = some vb)
    (data : Eigen.MatrixXd α) :
    Accounted mode (tr ++ [.added name data (vb.addElem data).ret (vb.addElem data).discarded])
      (s.update name (vb.addElem data).vb) := by
  have hmem := mem_of_find hf
  obtain ⟨b, ha⟩ := a.each name vb hmem
  refine ⟨a.inMode, a.tidy.update hf (addElem_whole ha.pos ha.whole data).2 fun b hb w =>
    (addElem_whole hb w data).1, fun n v hm => ?_, fun n hn => ?_, a.silent⟩
  · obtain ⟨⟨n', v'⟩, hp, he⟩ := List.mem_map.mp hm
    by_cases hne : n' = name
    · rw [if_pos hne] at he
      cases he
      subst hne
      exact ⟨b, ha.added (a.tidy.mode _ hmem) data⟩
    · rw [if_neg hne] at he
      cases he
      obtain ⟨b', ha'⟩ := a.each n v hp
      refine ⟨b', ha'.quiet ?_⟩
      rw [addsFor_added, if_neg (Ne.symm hne)]
  · rw [update_keys] at hn
    have hne : name ≠ n := by
      rintro rfl
      exact hn (List.mem_map_of_mem hmem)
    rw [addsFor_append, addsFor_added, if_neg hne, List.append_nil]
    exact a.others n hn

theorem Accounted.add (a : Accounted mode tr s) {mem : Allocator α} {data : Eigen.MatrixXd α}
    {r : Option (Outcome α)} (h : s.add mem name data = some (s', r)) :
    Accounted mode (tr ++ [addResult name data r]) s' := by
  have hfind : ∀ {s₁ found}, s.findOrCreate mem name (toInt data.rows) (toInt data.cols) =
      some (s₁, found) → Accounted mode tr s₁ := by
    intro s₁ found hf
    rcases findOrCreate_cases hf with ⟨rfl, -, -⟩ | ⟨hc, -, -⟩
    · exact a
    · exact a.create hc
  unfold MatLogger2.add at h
  split at h
  · cases h
  · rename_i s₁ hf
    cases h
    exact (hfind hf).quiet [] rfl rfl (List.append_nil _).symm (fun _ => rfl) fun _ => rfl
  · rename_i s₁ vb hf
    cases h
    have a₁ := hfind hf
    have t := a.tidy
    rw [← a.inMode] at t
    obtain ⟨-, -, hfound⟩ := findOrCreate_tidy t hf
    exact a₁.addElem hfound.symm data

/-- A pass in producer-consumer mode moves the queued blocks of each variable to
the backend. -/
theorem Accounted.flush (a : Accounted mode tr s) :
    Accounted mode (tr ++ [.flushed s.flushAvailableData.2]) s.flushAvailableData.1 := by
  have hsaved : ∀ name (q : List (StdString × MatData α)),
      callsFor name (q.map fun p => BackendCall.writeContainer p.1 p.2) = [] := by
    intro name q
    simp [callsFor, List.filter_map, Function.comp_def, BackendCall.isFor]
  cases mode with
  | circularBuffer =>
    obtain ⟨what, he⟩ := writeVars_circular a.tidy ⟨[], 0⟩
    refine a.quiet (s.matdataQueue.map fun p => .writeContainer p.1 p.2) rfl ?_ ?_
      (fun _ => rfl) fun name => hsaved name _
    · simp only [flushAvailableData, he]
    · simp only [flushAvailableData, he, List.append_nil]
  | producerConsumer =>
    obtain ⟨vars', acc, he, hev, hw⟩ := writeVars_spec a.tidy ⟨[], 0⟩
    have hfst : s.flushAvailableData.1 = { s with
        vars := vars'
        matdataQueue := []
        backend := s.backend ++ s.matdataQueue.map (fun p => .writeContainer p.1 p.2) ++ acc.calls } := by
      simp only [flushAvailableData, he]
    have hquiet : ∀ name, addsFor name [Result.flushed (α := α) s.flushAvailableData.2] = [] :=
      fun _ => rfl
    rw [hfst]
    refine ⟨a.inMode, a.tidy.evolves hev, fun name vb' hm => ?_, fun name hn => ?_, nofun⟩
    · obtain ⟨⟨n, vb⟩, hp, hkey, hb⟩ := evolves_mem' hev hm
      obtain rfl : name = n := hkey
      obtain ⟨b, ha⟩ := a.each name vb hp
      obtain ⟨blocks, hws, hh⟩ := (ha.quiet (hquiet name)).history
      obtain ⟨calls, hc, hws'⟩ := hw.each name vb hp
      have hbecomes := hb b ha.whole
      refine ⟨b, ha.pos, hbecomes.whole, ?_, blocks ++ vb.log.queue, ?_, ?_⟩
      · rw [hbecomes.same.rows, hbecomes.same.cols]
        exact (ha.quiet (hquiet name)).returns
      · rw [callsFor_append, callsFor_append, hsaved, List.append_nil, hc, callsFor_nil,
          List.nil_append]
        exact (List.rel_append hws hws').imp fun _ _ h => h.congr hbecomes.same.symm
      · rw [hbecomes.log]
        exact hh.drain
    · rw [evolves_keys hev] at hn
      obtain ⟨hadd, hcall⟩ := a.others name hn
      rw [addsFor_append, hadd, callsFor_append, callsFor_append, hsaved, hcall, hw.other name hn]
      exact ⟨rfl, rfl⟩

theorem Accounted.call (a : Accounted mode tr s) {op : Op α} (hk : op.keeps mode)
    (h : s.call op = some (s', es)) : Accounted mode (tr ++ es) s' := by
  cases op with
  | create mem varName rows cols bufferSize =>
    obtain ⟨⟨s₁, ok⟩, hc, he⟩ := Option.map_eq_some_iff.mp h
    cases he
    exact (a.create hc).quiet [] rfl rfl (List.append_nil _).symm (fun _ => rfl)
      fun _ => rfl
  | add mem varName data =>
    obtain ⟨⟨s₁, r⟩, hc, he⟩ := Option.map_eq_some_iff.mp h
    cases he
    exact a.add hc
  | save varName varData =>
    cases h
    exact a.quiet [] rfl rfl (List.append_nil _).symm (fun _ => rfl) fun _ => rfl
  | flushAvailableData =>
    cases h
    exact a.flush
  | setBufferMode m =>
    cases h
    obtain rfl : m = mode := hk
    rw [List.append_nil]
    exact a.setBufferMode
  | setOnDataAvailableCallback callback =>
    cases h
    rw [List.append_nil]
    exact a.setOnBlockAvailable callback

theorem accounted_unused (h : Tidy s.bufferMode s.vars) (hm : s.bufferMode = mode)
    (hu : Unused s) : Accounted mode [] s := by
  refine ⟨hm, hm ▸ h, fun name vb hv => ?_, fun name _ => ⟨rfl, hu.calls name⟩,
    fun _ => hu.calls⟩
  obtain ⟨b, hb, w⟩ := h.whole _ hv
  refine ⟨b, hb, w, nofun, [], ?_, ?_⟩
  · rw [hu.calls]
    exact .nil
  · rw [hu.log _ hv]
    exact .start

/-- Along every run in one mode all variables' accounts are kept. -/
theorem accounted_run {opt : Options} {hist : List (MatLogger2 α)}
    (h : (loggerIn α opt mode).Run hist tr s) : Accounted mode tr s := by
  refine h.inv ?_ ?_
  · rintro s ⟨hr, hm, hu⟩
    exact accounted_unused (reachable_tidy hr) hm hu
  · rintro tr s es s' a ⟨op, s₁, vars, hk, hc, hp, rfl⟩
    exact (a.call hk hc).perm hp

/-! Runs can be made of any variable and any samples for it. -/

section Runs

variable {opt : Options} {hist : List (MatLogger2 α)}

theorem run_call (op : Op α) (h : (loggerIn α opt mode).Run hist tr s) (hk : op.keeps mode)
    (hc : s.call op = some (s', es)) : (loggerIn α opt mode).Run (hist ++ [s']) (tr ++ es) s' :=
  h.next ⟨op, s', s'.vars, hk, hc, .refl _, rfl⟩

/-- An allocator that clears its memory. -/
def zeroed : Allocator ℕ := fun dim n _ => ⟨List.replicate n (List.replicate dim 0), by
  simp only [List.length_replicate, true_and]
  intro col hc
  rw [List.eq_of_mem_replicate hc, List.length_replicate]⟩

/-- A logger with one variable, which has not called its backend. -/
structure Single (name : StdString) (vb : VariableBuffer α) (s : MatLogger2 α) : Prop where
  vars : s.vars = [(name, vb)]
  matdataQueue : s.matdataQueue = []
  backend : s.backend = []

theorem Single.mem (h : Single name vb s) : (name, vb) ∈ s.vars := by simp [h.vars]

theorem Single.find (h : Single name vb s) : s.find name = some vb := by
  simp [MatLogger2.find, h.vars]

/-- Samples that all fit are kept. -/
theorem Accounted.discardedFor_nil (acc : Accounted .producerConsumer tr s)
    (hm : (name, vb) ∈ s.vars)
    (hle : (acceptedFor name tr).length ≤ NUM_BLOCKS * vb.current.getSize) :
    discardedFor name tr = [] := by
  obtain ⟨b, a⟩ := acc.each name vb hm
  obtain rfl : vb.current.getSize = b := a.whole.size _
  obtain ⟨blocks, -, hh⟩ := a.history
  exact (hh.cut_of_le a.pos (by decide) hle).1

theorem init_make (opt : Options) (mode : Mode) :
    (loggerIn α opt mode).init ((make opt).setBufferMode mode) :=
  ⟨⟨_, _, (System.Run.start rfl).next ⟨.setBufferMode mode, _, [], rfl, .refl _, rfl⟩⟩, rfl, nofun,
    fun _ => rfl⟩

theorem run_create (opt : Options) (mode : Mode) (mem : Allocator α) (name : StdString)
    {rows cols bufferSize : ℤ} (hr : 0 < rows) (hc : 0 < cols) (hb : 0 < bufferSize)
    (hlt : rows * cols < 2 ^ 31) :
    ∃ hist tr s vb, (loggerIn α opt mode).Run hist tr s ∧ Single name vb s ∧
      vb.rows = rows.toNat ∧ vb.cols = cols.toNat ∧
      Whole (max 1 (bufferSize.toNat / NUM_BLOCKS)) vb ∧ addsFor name tr = [] := by
  have hcreate := create_of_valid (s := (make opt).setBufferMode mode) mem hr hc hb hlt
    (find_eq_none.mpr (List.not_mem_nil (a := name)))
  have hrun := run_call (.create mem name rows cols bufferSize) (.start (init_make opt mode)) trivial
    (congrArg (Option.map _) hcreate)
  obtain ⟨w, -⟩ := whole_make name rows.toNat cols.toNat (max 1 (bufferSize.toNat / NUM_BLOCKS))
    (le_max_left 1 _) (mem _ _)
  obtain ⟨-, hrows, hcols⟩ := make_dims name rows.toNat cols.toNat
    (max 1 (bufferSize.toNat / NUM_BLOCKS)) (le_max_left 1 _) (mem _ _)
  exact ⟨_, _, _, _, hrun, ⟨rfl, rfl, rfl⟩, hrows, hcols, whole_set w _ _, rfl⟩

/-- One more sample for the variable. -/
theorem run_add (h : (loggerIn α opt mode).Run hist tr s) (mem : Allocator α)
    (hs : Single name vb s) (data : Eigen.MatrixXd α) :
    ∃ hist' s', (loggerIn α opt mode).Run hist'
      (tr ++ [.added name data (vb.addElem data).ret (vb.addElem data).discarded]) s' ∧
      Single name (vb.addElem data).vb s' := by
  have hfound := findOrCreate_found hs.find mem (toInt data.rows) (toInt data.cols)
  have hadd : s.call (.add mem name data) = some (s.update name (vb.addElem data).vb,
      [.added name data (vb.addElem data).ret (vb.addElem data).discarded]) := by
    simp only [MatLogger2.call, MatLogger2.add, hfound]
    rfl
  refine ⟨_, _, run_call (.add mem name data) h trivial hadd, ?_, hs.matdataQueue, hs.backend⟩
  simp [MatLogger2.update, hs.vars]

theorem run_addAll (mem : Allocator α) (xs : List (Eigen.MatrixXd α)) :
    ∀ {hist tr s vb}, (loggerIn α opt mode).Run hist tr s → Single name vb s →
      Whole b vb → (∀ x ∈ xs, x.size = vb.rows * vb.cols) →
      ∃ hist' tr' s' vb', (loggerIn α opt mode).Run hist' tr' s' ∧ Single name vb' s' ∧
        Whole b vb' ∧ SameVariable vb vb' ∧
        acceptedFor name tr' = acceptedFor name tr ++ xs.map (·.data) := by
  induction xs with
  | nil =>
    intro hist tr s vb h hs w hx
    exact ⟨hist, tr, s, vb, h, hs, w, .refl vb, (List.append_nil _).symm⟩
  | cons x xs ih =>
    intro hist tr s vb h hs w hx
    obtain ⟨b', ha⟩ := (accounted_run h).each name vb hs.mem
    obtain rfl : b' = b := (ha.whole.size 0).symm.trans (w.size 0)
    obtain ⟨hist₁, s₁, h₁, hs₁⟩ := run_add h mem hs x
    obtain ⟨hret, -, hbecomes⟩ := addElem_spec w ha.pos (hx x List.mem_cons_self)
    obtain ⟨hist', tr', s', vb', h', hs', w', hsame, hacc⟩ := ih h₁ hs₁ hbecomes.whole fun y hy => by
      rw [hbecomes.same.rows, hbecomes.same.cols]
      exact hx y (List.mem_cons_of_mem x hy)
    refine ⟨hist', tr', s', vb', h', hs', w', hbecomes.same.trans hsame, ?_⟩
    rw [hacc, acceptedFor_append, List.map_cons, List.append_assoc, acceptedFor, acceptedFor,
      addsFor_added, if_pos rfl, hret]
    rfl

/-- A new logger with one variable, to which these samples have been added. -/
theorem run_samples (opt : Options) (mode : Mode) (mem : Allocator α) (name : StdString)
    (rows cols bufferSize : ℤ) (hr : 0 < rows) (hc : 0 < cols) (hb : 0 < bufferSize)
    (hlt : rows * cols < 2 ^ 31) (xs : List (Eigen.MatrixXd α))
    (hx : ∀ x ∈ xs, x.size = rows.toNat * cols.toNat) :
    ∃ hist tr s vb, (loggerIn α opt mode).Run hist tr s ∧ Single name vb s ∧
      vb.rows = rows.toNat ∧ vb.cols = cols.toNat ∧
      vb.current.getSize = max 1 (bufferSize.toNat / NUM_BLOCKS) ∧
      acceptedFor name tr = xs.map (·.data) := by
  obtain ⟨_, tr, _, vb, h, hs, hrows, hcols, w, hadds⟩ := run_create opt mode mem name hr hc hb hlt
  obtain ⟨hist, tr', s, vb', h', hs', w', hsame, hacc⟩ := run_addAll mem xs h hs w (by
    rw [hrows, hcols]
    exact hx)
  refine ⟨hist, tr', s, vb', h', hs', hsame.rows.trans hrows, hsame.cols.trans hcols, w'.size _, ?_⟩
  rw [hacc, acceptedFor, hadds]
  rfl

end Runs

end MatLogger2
end XBot
