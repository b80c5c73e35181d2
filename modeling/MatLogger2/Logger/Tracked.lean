import MatLogger2.Logger.Shared
import MatLogger2.VarBuffer.Room

/-! Each variable of a logger that two threads share goes through a run of its own threads, whose
events are those that carry its name, and the calls of `write` under its name are for the blocks
that the consumer has read. -/

namespace XBot

open VariableBuffer MatLogger2 Transition

variable {α : Type}

section Step

variable {s s' : Threads α} {es : List (Event α)} {a : Act α}

def Act.isProducer : Act α → Bool
  | .callAddElem _ | .callFlushToQueue | .producer => true
  | .callReadBlock | .consumer => false

/-- A step of the producer leaves the consumer where it is. -/
theorem step_consumer (own : Owned s) (hm : s.vb.bufferMode = .producerConsumer)
    (ha : a.isProducer = true) (h : s.step a = some (s', es)) : s'.consumer = s.consumer := by
  obtain ⟨vb, p, c⟩ := s
  cases a with
  | callAddElem data => cases p <;> cases h; rfl
  | callFlushToQueue => cases p <;> cases h; rfl
  | producer => exact (producerStep_frame own hm h).1
  | callReadBlock => cases ha
  | consumer => cases ha

/-- A step of the consumer leaves the producer where it is. -/
theorem step_producer (ha : a.isProducer = false) (h : s.step a = some (s', es)) :
    s'.producer = s.producer := by
  obtain ⟨vb, p, c⟩ := s
  cases a with
  | callAddElem data => cases ha
  | callFlushToQueue => cases ha
  | producer => cases ha
  | callReadBlock =>
    cases c with
    | idle => cases hm : vb.bufferMode <;> simp only [Threads.step, hm] at h <;> cases h <;> rfl
    | _ => cases h
  | consumer => exact (consumerStep_frame h).producer

end Step

/-- A block that `read_block` has returned is written with its valid samples. -/
theorem isWrite_read {vb : VariableBuffer α} {block : List (List α)} {valid : ℕ}
    (h : ReadShaped (vb.rows * vb.cols) ⟨some block, valid⟩) :
    IsWrite vb (block.take valid) (writeCall vb block valid) := by
  obtain ⟨hcol, hvalid⟩ := h.some block rfl
  have hlen : (block.take valid).length = valid := List.length_take_of_le hvalid
  refine ⟨block, ?_, ?_, hcol⟩
  · rw [hlen]
  · rw [hlen]

/-- A variable in the logger, with its own events and the calls that the backend has got. -/
structure Tracked (name : StdString) (es : List (Event α)) (calls : List (BackendCall α))
    (t : Threads α) : Prop where
  named : t.vb.name = name
  shaped : Shaped t.vb
  run : ∃ rows cols b hist, (threads α rows cols b .producerConsumer).Run hist es t
  written : List.Forall₂ (IsWrite t.vb) (readBlocks es) (callsFor name calls)
  ne_nil : ∀ block ∈ readBlocks es, block ≠ []

namespace Tracked

variable {name : StdString} {es es' : List (Event α)} {calls calls' : List (BackendCall α)}
variable {t t' : Threads α} {a : Act α}

theorem step (h : Tracked name es calls t) (ha : t.step a = some (t', es'))
    (hw : List.Forall₂ (IsWrite t.vb) (readBlocks es') (callsFor name calls'))
    (hne : ∀ block ∈ readBlocks es', block ≠ []) : Tracked name (es ++ es') (calls ++ calls') t' := by
  have hsame := step_same ha
  obtain ⟨rows, cols, b, hist, hr⟩ := h.run
  refine ⟨hsame.name.trans h.named, h.shaped.congr hsame, ⟨rows, cols, b, _, hr.next ⟨a, ha⟩⟩, ?_, ?_⟩
  · rw [readBlocks_append, callsFor_append]
    exact (List.rel_append h.written hw).imp fun _ _ hb => hb.congr hsame.symm
  · rw [readBlocks_append]
    exact List.forall_mem_append.mpr ⟨h.ne_nil, hne⟩

/-- Calls for others. -/
theorem quiet (h : Tracked name es calls t) (hc : callsFor name calls' = []) :
    Tracked name es (calls ++ calls') t := by
  refine ⟨h.named, h.shaped, h.run, ?_, h.ne_nil⟩
  rw [callsFor_append, hc, List.append_nil]
  exact h.written

theorem mode (h : Tracked name es calls t) : t.vb.bufferMode = .producerConsumer := by
  obtain ⟨rows, cols, b, hist, hr⟩ := h.run
  exact (sharing_run hr).kept.mode

theorem owned (h : Tracked name es calls t) : Owned t := by
  obtain ⟨rows, cols, b, hist, hr⟩ := h.run
  exact (sharing_run hr).kept.owned

/-- What the next step returns from `read_block`. -/
theorem reads (h : Tracked name es calls t) (ha : t.step a = some (t', es')) :
    readResults es' = [] ∨ t'.consumer = .idle ∧
      ∃ r, readResults es' = [r] ∧ ReadShaped (t'.vb.rows * t'.vb.cols) r := by
  obtain ⟨rows, cols, b, hist, hr⟩ := h.run
  have hs := sharing_run hr
  have hsame := step_same ha
  have hdim : t.vb.rows * t.vb.cols = rows * cols := by rw [hs.rows, hs.cols]
  rw [hsame.rows, hsame.cols, hdim]
  exact (columns_step hs.columns hdim hs.kept.owned hs.kept.ordered ha).2

/-- A variable that has just been put into the map. -/
theorem start {rows cols b : ℕ} (hb : 0 < b) (storage : BlockId → Memory α (rows * cols) b)
    (callback : Bool) (hr : 0 < rows) (hc : 0 < cols) (hsize : rows * cols < 2 ^ 31)
    (hnone : callsFor name calls = []) :
    Tracked name [] calls (Threads.start name rows cols b hb storage .producerConsumer callback) := by
  obtain ⟨hname, hrows, hcols⟩ := make_dims name rows cols b hb storage
  refine ⟨hname, ⟨?_, ?_, ?_⟩, ⟨rows, cols, b, _, .start ⟨name, hb, storage, callback, rfl⟩⟩, ?_,
    nofun⟩
  · exact hrows.symm ▸ hr
  · exact hcols.symm ▸ hc
  · exact (congrArg₂ (· * ·) hrows hcols).trans_lt hsize
  · rw [hnone]
    exact .nil

end Tracked

namespace MatLogger2

variable {s : MatLogger2 α} {name : StdString} {vb : VariableBuffer α}

theorem mem_update {p : StdString × VariableBuffer α} (h : p ∈ (s.update name vb).vars) :
    p = (name, vb) ∨ p.1 ≠ name ∧ p ∈ s.vars := by
  obtain ⟨q, hq, rfl⟩ := List.mem_map.mp h
  split_ifs with hn
  · exact .inl (by rw [hn])
  · exact .inr ⟨hn, hq⟩

theorem update_of_find (hnd : (s.vars.map Prod.fst).Nodup) (hf : s.find name = some vb) :
    s.update name vb = s := by
  have hmap : (s.vars.map fun p => if p.1 = name then (p.1, vb) else p) = s.vars := by
    refine (List.map_congr_left fun p hp => ?_).trans s.vars.map_id
    split_ifs with hn
    · rw [List.inj_on_of_nodup_map hnd hp (mem_of_find hf) hn, id]
    · rfl
  rw [update, hmap]

end MatLogger2

namespace Shared

/-- What holds of the logger between two steps of its threads. -/
structure Inv (tr : List (LoggerEvent α)) (s : Shared α) : Prop where
  mode : s.logger.bufferMode = .producerConsumer
  nodup : (s.logger.vars.map Prod.fst).Nodup
  each : ∀ name vb, (name, vb) ∈ s.logger.vars →
    Tracked name (eventsAt name tr) s.logger.backend (s.threads name vb)
  others : ∀ name, name ∉ s.logger.vars.map Prod.fst →
    eventsAt name tr = [] ∧ callsFor name s.logger.backend = []
  containers : containers s.logger.backend ++ s.logger.matdataQueue = savedBefore tr

/-! Where the threads are. -/

theorem user_inside_idle (name : StdString) (todo : List StdString) (ret : Bool) :
    (User.flushToQueueAll todo ret (.idle : Producer α)).inside name = .idle := by
  cases todo with
  | nil => rfl
  | cons n todo => exact ite_self _

theorem flusher_inside_idle (name : StdString) (todo : List StdString) (bytes : ℤ) :
    (Flusher.vars todo bytes (.idle : Consumer α)).inside name = .idle := by
  cases todo with
  | nil => rfl
  | cons n todo => exact ite_self _

section Inside

variable (name : StdString) (p : Producer α)

theorem inside_afterAdd : (afterAdd name p).inside name = p ∧
    ∀ other, other ≠ name → (afterAdd name p).inside other = .idle := by
  cases p with
  | idle => exact ⟨rfl, fun _ _ => rfl⟩
  | _ => exact ⟨if_pos rfl, fun other h => if_neg h.symm⟩

theorem inside_afterFlushToQueue (todo : List StdString) (ret ok : Bool) :
    (afterFlushToQueue name todo ret ok p).inside name = p ∧
      ∀ other, other ≠ name → (afterFlushToQueue name todo ret ok p).inside other = .idle := by
  cases p with
  | idle => exact ⟨user_inside_idle name todo _, fun other _ => user_inside_idle other todo _⟩
  | _ => exact ⟨if_pos rfl, fun other h => if_neg h.symm⟩

end Inside

variable {tr : List (LoggerEvent α)} {s s' : Shared α} {name : StdString} {a : XBot.Act α}
variable {t : Threads α} {es : List (Event α)} {calls : List (BackendCall α)}

/-- A step of one thread at one variable, with what the backend is called for. -/
theorem Inv.at (inv : Inv tr s) (calls : List (BackendCall α)) (h : s.varStep name a = some (t, es))
    (hlogger : s'.logger = { s.logger.update name t.vb with backend := s.logger.backend ++ calls })
    (hin : s'.user.inside name = t.producer ∧ s'.flusher.inside name = t.consumer)
    (hout : ∀ other, other ≠ name → s'.user.inside other = s.user.inside other ∧
      s'.flusher.inside other = s.flusher.inside other)
    (hw : List.Forall₂ (IsWrite t.vb) (readBlocks es) calls)
    (hne : ∀ block ∈ readBlocks es, block ≠ []) : Inv (tr ++ es.map (.var name)) s' := by
  obtain ⟨vb, hf, hstep⟩ := Option.bind_eq_some_iff.mp h
  have htracked := inv.each name vb (mem_of_find hf)
  have hsame := step_same hstep
  have hname : t.vb.name = name := hsame.name.trans htracked.named
  have hfor : ∀ n, callsFor n calls = if name = n then calls else [] := by
    intro n
    rw [callsFor_isWrite hw, hname]
  have hkeys : s'.logger.vars.map Prod.fst = s.logger.vars.map Prod.fst := by
    rw [hlogger]
    exact update_keys s.logger name t.vb
  refine ⟨?_, hkeys ▸ inv.nodup, fun n vb' hm => ?_, fun n hn => ?_, ?_⟩
  · rw [hlogger]
    exact inv.mode
  · have hback : s'.logger.backend = s.logger.backend ++ calls := by rw [hlogger]
    have hvars : s'.logger.vars = (s.logger.update name t.vb).vars := by rw [hlogger]
    rw [hvars] at hm
    rw [hback, eventsAt_append]
    rcases mem_update hm with he | ⟨hn, hm⟩
    · cases he
      have ht : s'.threads name t.vb = t := by rw [threads, hin.1, hin.2]
      rw [eventsAt_self, ht]
      refine htracked.step hstep ?_ hne
      rw [hfor name, if_pos rfl]
      exact hw.imp fun _ _ hb => hb.congr hsame
    · have ht : s'.threads n vb' = s.threads n vb' := by
        rw [threads, (hout n hn).1, (hout n hn).2, threads]
      rw [eventsAt_other n es (Ne.symm hn), List.append_nil, ht]
      refine (inv.each n vb' hm).quiet ?_
      rw [hfor n, if_neg (Ne.symm hn)]
  · rw [hkeys] at hn
    have hne : name ≠ n := by
      rintro rfl
      exact hn (List.mem_map_of_mem (mem_of_find hf))
    obtain ⟨hev, hcalls⟩ := inv.others n hn
    rw [hlogger, eventsAt_append, eventsAt_other n es hne, callsFor_append, hfor n, if_neg hne, hev,
      hcalls]
    exact ⟨rfl, rfl⟩
  · rw [hlogger, savedBefore_append, savedBefore_var, List.append_nil, containers_append,
      containers_isWrite hw, List.append_nil]
    exact inv.containers

/-- A step that leaves every variable alone, and each thread where it is in its calls. -/
theorem Inv.frame {es : List (LoggerEvent α)} (inv : Inv tr s)
    (hmode : s'.logger.bufferMode = s.logger.bufferMode) (hvars : s'.logger.vars = s.logger.vars)
    (hin : ∀ n, s'.user.inside n = s.user.inside n ∧ s'.flusher.inside n = s.flusher.inside n)
    (hes : ∀ n, eventsAt n es = [])
    (hback : s'.logger.backend = s.logger.backend ++ calls) (hcalls : ∀ n, callsFor n calls = [])
    (hcont : XBot.containers calls ++ s'.logger.matdataQueue =
      s.logger.matdataQueue ++ savedBefore es) : Inv (tr ++ es) s' := by
  refine ⟨hmode.trans inv.mode, hvars ▸ inv.nodup, fun n vb hm => ?_, fun n hn => ?_, ?_⟩
  · have ht : s'.threads n vb = s.threads n vb := by
      rw [threads, (hin n).1, (hin n).2, threads]
    rw [eventsAt_append, hes n, List.append_nil, hback, ht]
    exact (inv.each n vb (hvars ▸ hm)).quiet (hcalls n)
  · obtain ⟨hev, hc⟩ := inv.others n (hvars ▸ hn)
    rw [eventsAt_append, hes n, hback, callsFor_append, hcalls n, hev, hc]
    exact ⟨rfl, rfl⟩
  · rw [hback, containers_append, List.append_assoc, hcont, ← List.append_assoc, inv.containers,
      savedBefore_append]

/-- `create` makes a variable only when the other thread is not at the variables. -/
theorem create_true {mem : Allocator α} {varName : StdString} {rows cols bufferSize : ℤ}
    {l : MatLogger2 α} (h : s.create mem varName rows cols bufferSize = some (l, true)) :
    s.flusher.locksVars = false ∧ s.logger.create mem varName rows cols bufferSize = some (l, true) := by
  rw [create] at h
  split_ifs at h with hlocks
  refine ⟨?_, h⟩
  obtain ⟨-, hr, hc, -⟩ := MatLogger2.create_true h
  by_contra hl
  have hb : ¬ bufferSizeFor s.logger.opt rows cols bufferSize > 0 := fun hb =>
    hlocks ⟨by simpa using hl, hr, hc, hb⟩
  rw [MatLogger2.create, if_neg (by omega), if_pos (by tauto)] at h
  cases h

theorem create_false {mem : Allocator α} {varName : StdString} {rows cols bufferSize : ℤ}
    {l : MatLogger2 α} (h : s.create mem varName rows cols bufferSize = some (l, false)) :
    l = s.logger := by
  rw [create] at h
  split_ifs at h
  exact MatLogger2.create_false h

theorem inside_of_unlocked (h : s.flusher.locksVars = false) (n : StdString) :
    s.flusher.inside n = .idle := by
  cases hf : s.flusher with
  | vars todo bytes c =>
    rw [hf] at h
    cases h
  | _ => rfl

/-- A new variable starts with both threads outside. -/
theorem Inv.create (inv : Inv tr s) (hu : s.user = .outside) {mem : Allocator α}
    {varName : StdString} {rows cols bufferSize : ℤ} {l : MatLogger2 α} {ok : Bool}
    (h : s.create mem varName rows cols bufferSize = some (l, ok)) : Inv tr { s with logger := l } := by
  cases ok with
  | false => exact create_false h ▸ inv
  | true =>
    obtain ⟨hl, h⟩ := create_true h
    obtain ⟨hnew, hr, hc, hlt, rfl⟩ := MatLogger2.create_true h
    have hkey := find_eq_none.mp hnew
    obtain ⟨hev, hcalls⟩ := inv.others varName hkey
    refine ⟨inv.mode, List.nodup_cons.mpr ⟨hkey, inv.nodup⟩, fun n vb hm => ?_, fun n hn => ?_,
      inv.containers⟩
    · rcases List.mem_cons.mp hm with he | hm
      · cases he
        rw [hev, threads, hu, inside_of_unlocked hl, inv.mode]
        exact Tracked.start _ _ _ (Int.pos_iff_toNat_pos.mp hr) (Int.pos_iff_toNat_pos.mp hc)
          (toNat_mul_lt hr hc hlt) hcalls
      · exact inv.each n vb hm
    · exact inv.others n fun hm => hn (List.mem_cons_of_mem _ hm)

/-- The state of a variable and what it keeps, at a step there. -/
theorem Inv.tracked (inv : Inv tr s) (h : s.varStep name a = some (t, es)) : ∃ vb,
    s.logger.find name = some vb ∧ (s.threads name vb).step a = some (t, es) ∧
      Tracked name (eventsAt name tr) s.logger.backend (s.threads name vb) := by
  obtain ⟨vb, hf, hstep⟩ := Option.bind_eq_some_iff.mp h
  exact ⟨vb, hf, hstep, inv.each name vb (mem_of_find hf)⟩

theorem readResults_user {u u' : Threads α} (ha : a.isProducer = true)
    (h : u.step a = some (u', es)) : readResults es = [] := by
  obtain ⟨vb, p, c⟩ := u
  cases a with
  | callAddElem data => cases p <;> cases h; rfl
  | callFlushToQueue => cases p <;> cases h; rfl
  | producer => exact results_producer h
  | callReadBlock => cases ha
  | consumer => cases ha

/-- A step of the producer thread at one variable. -/
theorem Inv.userAt (inv : Inv tr s) (user : User α) (ha : a.isProducer = true)
    (h : s.varStep name a = some (t, es)) (hin : user.inside name = t.producer)
    (hout : ∀ other, other ≠ name → user.inside other = s.user.inside other) :
    Inv (tr ++ es.map (.var name)) { s with logger := s.logger.update name t.vb, user := user } := by
  obtain ⟨vb, hf, hstep, htracked⟩ := inv.tracked h
  have hc := step_consumer htracked.owned htracked.mode ha hstep
  have hblocks : readBlocks es = [] := by
    rw [readBlocks, readResults_user ha hstep]
    rfl
  refine inv.at [] h ?_ ⟨hin, hc.symm⟩ (fun other hne => ⟨hout other hne, rfl⟩) ?_ ?_
  · rw [List.append_nil]
    rfl
  · rw [hblocks]
    exact .nil
  · simp [hblocks]

/-- A step of the consumer thread at one variable. -/
theorem Inv.flusherAt {todo : List StdString} {bytes : ℤ} {c : Consumer α} (inv : Inv tr s)
    (hfl : s.flusher = .vars (name :: todo) bytes c) (ha : a.isProducer = false)
    (h : s.varStep name a = some (t, es)) :
    Inv (tr ++ es.map (.var name)) (s.afterRead name todo bytes t (readResults es)) := by
  obtain ⟨vb, hf, hstep, htracked⟩ := inv.tracked h
  have hp : s.user.inside name = t.producer := (step_producer ha hstep).symm
  have hout : ∀ other, other ≠ name → s.flusher.inside other = .idle := by
    intro other hne
    rw [hfl]
    exact if_neg hne.symm
  -- without a block nothing is written
  have hquiet : readBlocks es = [] → ∀ flusher : Flusher α, flusher.inside name = t.consumer →
      (∀ other, other ≠ name → flusher.inside other = .idle) →
      Inv (tr ++ es.map (.var name))
        { s with logger := s.logger.update name t.vb, flusher := flusher } := by
    intro hblocks flusher hself hother
    refine inv.at [] h ?_ ⟨hp, hself⟩ (fun other hne => ⟨rfl, ?_⟩) ?_ ?_
    · rw [List.append_nil]
      rfl
    · rw [hout other hne]
      exact hother other hne
    · rw [hblocks]
      exact .nil
    · simp [hblocks]
  rcases htracked.reads hstep with hr | ⟨hc, ⟨data, valid⟩, hr, hshape⟩
  · rw [hr]
    refine hquiet ?_ _ (if_pos rfl) fun other hne => if_neg hne.symm
    rw [readBlocks, hr]
    rfl
  · have hidle : ∀ todo bytes, (Flusher.vars todo bytes .idle).inside name = t.consumer := by
      intro todo bytes
      rw [hc]
      exact flusher_inside_idle name todo bytes
    rw [hr]
    cases data with
    | none =>
      have hvalid : valid = 0 := hshape.none rfl
      refine hquiet ?_ _ (hidle todo bytes) fun other _ => flusher_inside_idle other todo bytes
      rw [readBlocks, hr, hvalid]
      rfl
    | some block =>
      rw [afterRead]
      split_ifs with hpos
      · have hblocks : readBlocks es = [block.take valid] := by
          rw [readBlocks, hr]
          simp [ReadResult.ret, hpos, ReadResult.samples]
        have hlen : (block.take valid).length = valid :=
          List.length_take_of_le (hshape.some block rfl).2
        refine inv.at [writeCall t.vb block valid] h rfl ⟨hp, hidle _ _⟩
          (fun other hne => ⟨rfl, ?_⟩) ?_ ?_
        · rw [hout other hne]
          exact flusher_inside_idle other _ _
        · rw [hblocks]
          exact .cons (isWrite_read hshape) .nil
        · rw [hblocks, List.forall_mem_singleton]
          exact List.length_pos_iff.mp (hlen.symm ▸ hpos)
      · refine hquiet ?_ _ (hidle todo bytes) fun other _ => flusher_inside_idle other todo bytes
        rw [readBlocks, hr]
        simp [ReadResult.ret, hpos]

/-- `add` reaches its call of `add_elem`. -/
theorem Inv.addElem (inv : Inv tr s) (hu : s.user = .outside) {vb : VariableBuffer α}
    (hf : s.logger.find name = some vb) (data : Eigen.MatrixXd α) :
    Inv tr { s with user := .add name (.adding data) } := by
  have hv : s.varStep name (.callAddElem data) =
      some (⟨vb, .adding data, s.flusher.inside name⟩, []) := by
    rw [varStep, hf, Option.bind_some, threads, hu]
    rfl
  have hinv := inv.userAt (.add name (.adding data)) rfl hv (if_pos rfl) fun other hne => by
    rw [hu]
    exact if_neg hne.symm
  rw [update_of_find inv.nodup hf, List.map_nil, List.append_nil] at hinv
  exact hinv

end Shared

end XBot
