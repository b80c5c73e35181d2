import MatLogger2.Logger.Interleaved
import MatLogger2.VarBuffer.Settled

/-! What `flush_available_data` promises while another thread goes on adding: at its return, the
backend has been called for all containers that had been saved and for all samples that had left
the current blocks when it was called. -/

namespace XBot

open VariableBuffer MatLogger2 Transition Ledger

variable {α : Type}

namespace Shared

/-- What a step does to a variable that is there after it. -/
inductive Moves (s s' : Shared α) (es : List (LoggerEvent α)) (name : StdString)
    (vb' : VariableBuffer α) : Prop
  | created : name ∉ s.logger.vars.map Prod.fst → eventsAt name es = [] → Moves s s' es name vb'
  | kept (vb : VariableBuffer α) : (name, vb) ∈ s.logger.vars →
      s'.threads name vb' = s.threads name vb → eventsAt name es = [] → Moves s s' es name vb'
  | stepped (vb : VariableBuffer α) (a : XBot.Act α) : (name, vb) ∈ s.logger.vars →
      (s.threads name vb).step a = some (s'.threads name vb', eventsAt name es) →
      Moves s s' es name vb'

variable {tr es : List (LoggerEvent α)} {s s' : Shared α} {name : StdString} {vb' : VariableBuffer α}

/-- A step that leaves the variables alone, and each thread where it is in its calls. -/
theorem Moves.frame (hvars : s'.logger.vars = s.logger.vars)
    (hin : ∀ n, s'.user.inside n = s.user.inside n ∧ s'.flusher.inside n = s.flusher.inside n)
    (hes : ∀ n, eventsAt n es = []) (hm : (name, vb') ∈ s'.logger.vars) :
    Moves s s' es name vb' := by
  refine .kept vb' (hvars ▸ hm) ?_ (hes name)
  rw [threads, (hin name).1, (hin name).2, threads]

/-- A step of one thread at one variable. -/
theorem Moves.at {n : StdString} {a : XBot.Act α} {t : Threads α} {evs : List (Event α)}
    (h : s.varStep n a = some (t, evs)) (hvars : s'.logger.vars = (s.logger.update n t.vb).vars)
    (hin : s'.user.inside n = t.producer ∧ s'.flusher.inside n = t.consumer)
    (hout : ∀ other, other ≠ n → s'.user.inside other = s.user.inside other ∧
      s'.flusher.inside other = s.flusher.inside other)
    (hm : (name, vb') ∈ s'.logger.vars) : Moves s s' (evs.map (.var n)) name vb' := by
  obtain ⟨vb, hf, hstep⟩ := Option.bind_eq_some_iff.mp h
  rw [hvars] at hm
  rcases mem_update hm with he | ⟨hn, hm⟩
  · cases he
    refine .stepped vb a (mem_of_find hf) ?_
    have ht : s'.threads name t.vb = t := by rw [threads, hin.1, hin.2]
    rw [eventsAt_self, ht]
    exact hstep
  · refine .kept vb' hm ?_ (eventsAt_other name evs (Ne.symm hn))
    rw [threads, (hout name hn).1, (hout name hn).2, threads]

/-- A step of the producer thread at one variable. -/
theorem Moves.userAt {n : StdString} {a : XBot.Act α} {t : Threads α} {evs : List (Event α)}
    {user : User α} (inv : Inv tr s) (ha : a.isProducer = true)
    (h : s.varStep n a = some (t, evs)) (hin : user.inside n = t.producer)
    (hout : ∀ other, other ≠ n → user.inside other = s.user.inside other)
    (hm : (name, vb') ∈ (s.logger.update n t.vb).vars) :
    Moves s { s with logger := s.logger.update n t.vb, user := user } (evs.map (.var n)) name
      vb' := by
  obtain ⟨vb, -, hstep, htracked⟩ := inv.tracked h
  have hc := step_consumer htracked.owned htracked.mode ha hstep
  exact .at h rfl ⟨hin, hc.symm⟩ (fun other hne => ⟨hout other hne, rfl⟩) hm

theorem inside_afterRead (s : Shared α) (name : StdString) (todo : List StdString) (bytes : ℤ)
    {t : Threads α} {rs : List (ReadResult α)} (hr : rs = [] ∨ t.consumer = .idle) :
    (s.afterRead name todo bytes t rs).user = s.user ∧
      (s.afterRead name todo bytes t rs).logger.vars = (s.logger.update name t.vb).vars ∧
      (s.afterRead name todo bytes t rs).flusher.inside name = t.consumer ∧
      ∀ other, other ≠ name → (s.afterRead name todo bytes t rs).flusher.inside other = .idle := by
  have hidle : ∀ other (todo : List StdString) bytes,
      (Flusher.vars todo bytes (.idle : Consumer α)).inside other = .idle :=
    fun other todo bytes => flusher_inside_idle other todo bytes
  cases rs with
  | nil => exact ⟨rfl, rfl, if_pos rfl, fun other hne => if_neg hne.symm⟩
  | cons r rs =>
    have hc := hr.resolve_left (List.cons_ne_nil _ _)
    obtain ⟨data, valid⟩ := r
    cases data with
    | none => exact ⟨rfl, rfl, (hidle _ _ _).trans hc.symm, fun other _ => hidle other _ _⟩
    | some block =>
      rw [afterRead]
      split_ifs
      · exact ⟨rfl, rfl, (hidle _ _ _).trans hc.symm, fun other _ => hidle other _ _⟩
      · exact ⟨rfl, rfl, (hidle _ _ _).trans hc.symm, fun other _ => hidle other _ _⟩

theorem Moves.create {mem : Allocator α} {varName : StdString} {rows cols bufferSize : ℤ}
    {ok : Bool} (h : s.create mem varName rows cols bufferSize = some (s'.logger, ok))
    (hin : ∀ n ∈ s.logger.vars.map Prod.fst,
      s'.user.inside n = s.user.inside n ∧ s'.flusher.inside n = s.flusher.inside n)
    (hes : ∀ n, eventsAt n es = []) (hm : (name, vb') ∈ s'.logger.vars) :
    Moves s s' es name vb' := by
  have hkept : (name, vb') ∈ s.logger.vars → Moves s s' es name vb' := by
    intro hm
    obtain ⟨hu, hf⟩ := hin name (List.mem_map_of_mem hm)
    refine .kept vb' hm ?_ (hes name)
    rw [threads, hu, hf, threads]
  cases ok with
  | false => exact hkept (create_false h ▸ hm)
  | true =>
    obtain ⟨-, h⟩ := create_true h
    obtain ⟨hnew, -, -, -, he⟩ := MatLogger2.create_true h
    rw [he] at hm
    rcases List.mem_cons.mp hm with he | hm
    · cases he
      exact .created (find_eq_none.mp hnew) (hes _)
    · exact hkept hm

theorem Moves.callAdd (inv : Inv tr s) (hu : s.user = .outside) {mem : Allocator α} {varName : StdString}
    {data : Eigen.MatrixXd α} (h : s.callAdd mem varName data = some (s', es))
    (hm : (name, vb') ∈ s'.logger.vars) : Moves s s' es name vb' := by
  rw [Shared.callAdd] at h
  cases hf : s.logger.find varName with
  | some vb =>
    simp only [hf] at h
    cases h
    have hv : s.varStep varName (.callAddElem data) =
        some (⟨vb, .adding data, s.flusher.inside varName⟩, []) := by
      rw [varStep, hf, Option.bind_some, threads, hu]
      rfl
    refine .at hv ?_ ⟨if_pos rfl, rfl⟩ (fun other hne => ⟨?_, rfl⟩) hm
    · rw [update_of_find inv.nodup hf]
    · rw [hu]
      exact if_neg hne.symm
  | none =>
    simp only [hf] at h
    obtain ⟨⟨l, ok⟩, hc, he⟩ := Option.map_eq_some_iff.mp h
    have hother : ∀ n ∈ s.logger.vars.map Prod.fst,
        (User.add varName (.adding data)).inside n = s.user.inside n := by
      intro n hn
      rw [hu]
      refine if_neg ?_
      rintro rfl
      exact find_eq_none.mp hf hn
    cases ok with
    | true =>
      cases he
      exact .create hc (fun n hn => ⟨hother n hn, rfl⟩) (fun _ => rfl) hm
    | false =>
      cases he
      exact .create hc (fun _ _ => ⟨rfl, rfl⟩) (fun _ => rfl) hm

theorem Moves.userStep (inv : Inv tr s) (h : s.userStep = some (s', es))
    (hm : (name, vb') ∈ s'.logger.vars) : Moves s s' es name vb' := by
  rw [Shared.userStep] at h
  cases hu : s.user with
  | outside =>
    rw [hu] at h
    cases h
  | add n p =>
    simp only [hu] at h
    obtain ⟨⟨t, evs⟩, hv, he⟩ := Option.map_eq_some_iff.mp h
    cases he
    obtain ⟨hself, hout⟩ := inside_afterAdd n t.producer
    refine .userAt inv rfl hv hself (fun other hne => ?_) hm
    rw [hout other hne, hu]
    exact (if_neg hne.symm).symm
  | flushToQueueAll todo ret p =>
    cases todo with
    | nil =>
      simp only [hu] at h
      cases h
      refine .frame rfl (fun n => ⟨?_, rfl⟩) (fun _ => rfl) hm
      rw [hu]
      rfl
    | cons n todo =>
      simp only [hu] at h
      obtain ⟨⟨t, evs⟩, hv, he⟩ := Option.map_eq_some_iff.mp h
      cases he
      obtain ⟨hself, hout⟩ := inside_afterFlushToQueue n t.producer todo ret (flushedTrue evs)
      refine .userAt inv ?_ hv hself (fun other hne => ?_) hm
      · cases p <;> rfl
      · rw [hout other hne, hu]
        exact (if_neg hne.symm).symm

/-- A step of the consumer thread inside `read_block`. -/
theorem Moves.readAt (inv : Inv tr s) {n : StdString} {todo : List StdString} {bytes : ℤ}
    {c : Consumer α} (hfl : s.flusher = .vars (n :: todo) bytes c) {a : XBot.Act α}
    (ha : a.isProducer = false) {t : Threads α} {evs : List (Event α)}
    (h : s.varStep n a = some (t, evs))
    (hm : (name, vb') ∈ (s.afterRead n todo bytes t (readResults evs)).logger.vars) :
    Moves s (s.afterRead n todo bytes t (readResults evs)) (evs.map (.var n)) name vb' := by
  obtain ⟨vb, -, hstep, htracked⟩ := inv.tracked h
  have hr : readResults evs = [] ∨ t.consumer = .idle := (htracked.reads hstep).imp_right And.left
  obtain ⟨huser, hvars, hself, hother⟩ := inside_afterRead s n todo bytes hr
  have hp : s.user.inside n = t.producer := (step_producer ha hstep).symm
  refine .at h hvars ⟨?_, hself⟩ (fun other hne => ⟨by rw [huser], ?_⟩) hm
  · rw [huser]
    exact hp
  · rw [hother other hne, hfl]
    exact (if_neg hne.symm).symm

theorem Moves.flusherStep (inv : Inv tr s) {order : List StdString}
    (h : s.flusherStep order = some (s', es)) (hm : (name, vb') ∈ s'.logger.vars) :
    Moves s s' es name vb' := by
  rw [Shared.flusherStep] at h
  cases hfl : s.flusher with
  | outside =>
    rw [hfl] at h
    cases h
  | containers =>
    cases hq : s.logger.matdataQueue with
    | nil =>
      simp only [hfl, hq] at h
      cases h
      exact .frame rfl (fun n => ⟨rfl, by rw [hfl]; rfl⟩) (fun _ => rfl) hm
    | cons p rest =>
      simp only [hfl, hq] at h
      cases h
      exact .frame rfl (fun n => ⟨rfl, by rw [hfl]⟩) (fun _ => rfl) hm
  | lockVars =>
    simp only [hfl] at h
    split_ifs at h
    cases h
    refine .frame rfl (fun n => ⟨rfl, ?_⟩) (fun _ => rfl) hm
    rw [hfl]
    exact flusher_inside_idle n order 0
  | vars todo bytes c =>
    cases todo with
    | nil =>
      simp only [hfl] at h
      cases h
      exact .frame rfl (fun n => ⟨rfl, by rw [hfl]; rfl⟩) (fun _ => rfl) hm
    | cons n todo =>
      simp only [hfl] at h
      obtain ⟨⟨t, evs⟩, hv, he⟩ := Option.map_eq_some_iff.mp h
      cases he
      refine .readAt inv hfl ?_ hv hm
      cases c <;> rfl

/-- Each variable that is there after a step has just been created, or has been left alone, or has
made a step of its threads. -/
theorem Moves.step {a : Act α} (inv : Inv tr s) (h : s.step a = some (s', es))
    (hm : (name, vb') ∈ s'.logger.vars) : Moves s s' es name vb' := by
  cases a with
  | create mem varName rows cols bufferSize =>
    cases hu : s.user with
    | outside =>
      simp only [Shared.step, hu] at h
      obtain ⟨⟨l, ok⟩, hc, he⟩ := Option.map_eq_some_iff.mp h
      cases he
      exact .create hc (fun n _ => ⟨by rw [hu], rfl⟩) (fun _ => rfl) hm
    | _ => simp [Shared.step, hu] at h
  | callAdd mem varName data =>
    cases hu : s.user with
    | outside =>
      simp only [Shared.step, hu] at h
      exact .callAdd inv hu h hm
    | _ => simp [Shared.step, hu] at h
  | save varName varData =>
    simp only [Shared.step] at h
    split at h
    · cases h
    · cases h
      exact .frame rfl (fun _ => ⟨rfl, rfl⟩) (fun _ => rfl) hm
    · cases h
  | callFlushToQueueAll order =>
    cases hu : s.user with
    | outside =>
      simp only [Shared.step, hu] at h
      split_ifs at h
      cases h
      refine .frame rfl (fun n => ⟨?_, rfl⟩) (fun _ => rfl) hm
      rw [hu]
      exact user_inside_idle n order true
    | _ => simp [Shared.step, hu] at h
  | user => exact .userStep inv h hm
  | callFlushAvailableData =>
    cases hfl : s.flusher with
    | outside =>
      simp only [Shared.step, hfl] at h
      cases h
      exact .frame rfl (fun n => ⟨rfl, by rw [hfl]; rfl⟩) (fun _ => rfl) hm
    | _ => simp [Shared.step, hfl] at h
  | flusher order => exact .flusherStep inv h hm

/-- The producer thread takes the step. -/
def Act.isUser : Act α → Bool
  | .callFlushAvailableData | .flusher _ => false
  | _ => true

/-- What a step of the producer thread leaves alone. -/
structure UserFrame (s : Shared α) (es : List (LoggerEvent α)) (s' : Shared α) : Prop where
  flusher : s'.flusher = s.flusher
  backend : s'.logger.backend = s.logger.backend
  keys : s.logger.vars.map Prod.fst ⊆ s'.logger.vars.map Prod.fst
  returns : ∀ bytes, LoggerEvent.flushed bytes ∉ es

theorem UserFrame.of_vars (hf : s'.flusher = s.flusher) (hb : s'.logger.backend = s.logger.backend)
    (hv : s'.logger.vars.map Prod.fst = s.logger.vars.map Prod.fst)
    (hr : ∀ bytes, LoggerEvent.flushed bytes ∉ es) : UserFrame s es s' :=
  ⟨hf, hb, hv ▸ List.Subset.refl _, hr⟩

theorem UserFrame.create {mem : Allocator α} {varName : StdString} {rows cols bufferSize : ℤ}
    {l : MatLogger2 α} {ok : Bool} (h : s.create mem varName rows cols bufferSize = some (l, ok))
    (user : User α) (hr : ∀ bytes, LoggerEvent.flushed bytes ∉ es) :
    UserFrame s es { s with logger := l, user := user } := by
  cases ok with
  | false =>
    obtain rfl := create_false h
    exact .of_vars rfl rfl rfl hr
  | true =>
    obtain ⟨-, h⟩ := create_true h
    obtain ⟨-, -, -, -, rfl⟩ := MatLogger2.create_true h
    exact ⟨rfl, rfl, List.subset_cons_self _ _, hr⟩

theorem UserFrame.userStep (h : s.userStep = some (s', es)) : UserFrame s es s' := by
  rw [Shared.userStep] at h
  cases hu : s.user with
  | outside =>
    rw [hu] at h
    cases h
  | add n p =>
    simp only [hu] at h
    obtain ⟨⟨t, evs⟩, -, he⟩ := Option.map_eq_some_iff.mp h
    cases he
    exact .of_vars rfl rfl (update_keys _ _ _) (by simp)
  | flushToQueueAll todo ret p =>
    cases todo with
    | nil =>
      simp only [hu] at h
      cases h
      exact .of_vars rfl rfl rfl (by simp)
    | cons n todo =>
      simp only [hu] at h
      obtain ⟨⟨t, evs⟩, -, he⟩ := Option.map_eq_some_iff.mp h
      cases he
      exact .of_vars rfl rfl (update_keys _ _ _) (by simp)

theorem UserFrame.step {a : Act α} (ha : a.isUser = true) (h : s.step a = some (s', es)) :
    UserFrame s es s' := by
  cases a with
  | create mem varName rows cols bufferSize =>
    cases hu : s.user with
    | outside =>
      simp only [Shared.step, hu] at h
      obtain ⟨⟨l, ok⟩, hc, he⟩ := Option.map_eq_some_iff.mp h
      cases he
      exact .create hc _ (by simp)
    | _ => simp [Shared.step, hu] at h
  | callAdd mem varName data =>
    cases hu : s.user with
    | outside =>
      simp only [Shared.step, hu, Shared.callAdd] at h
      split at h
      · cases h
        exact .of_vars rfl rfl rfl (by simp)
      · obtain ⟨⟨l, ok⟩, hc, he⟩ := Option.map_eq_some_iff.mp h
        split_ifs at he <;> cases he <;> exact .create hc _ (by simp)
    | _ => simp [Shared.step, hu] at h
  | save varName varData =>
    simp only [Shared.step] at h
    split at h <;> cases h
    exact .of_vars rfl rfl rfl (by simp)
  | callFlushToQueueAll order =>
    cases hu : s.user with
    | outside =>
      simp only [Shared.step, hu] at h
      split_ifs at h
      cases h
      exact .of_vars rfl rfl rfl (by simp)
    | _ => simp [Shared.step, hu] at h
  | user => exact .userStep h
  | callFlushAvailableData => cases ha
  | flusher order => cases ha

/-- The containers `saved` and the samples `g` of all variables but those of the names `todo` have
been handed over. -/
def Handed (saved : List (StdString × MatData α)) (g : StdString → List (List α))
    (todo : List StdString) (tr : List (LoggerEvent α)) (s : Shared α) : Prop :=
  saved <+: XBot.containers s.logger.backend ∧
    ∀ name, name ∉ todo → g name <+: delivered (eventsAt name tr)

/-- How far a flush has come that was called when `saved` and `g` were to be written. -/
def Progress (saved : List (StdString × MatData α)) (g : StdString → List (List α))
    (tr : List (LoggerEvent α)) (s : Shared α) : Prop :=
  match s.flusher with
  | .outside | .containers => True
  | .lockVars => saved <+: XBot.containers s.logger.backend
  | .vars todo _ _ => Handed saved g todo tr s

structure Draining (saved : List (StdString × MatData α)) (g : StdString → List (List α))
    (tr : List (LoggerEvent α)) (s : Shared α) : Prop where
  bound : ∀ name vb, (name, vb) ∈ s.logger.vars →
    Bound (g name) (eventsAt name tr) (s.threads name vb)
  known : ∀ name, name ∉ s.logger.vars.map Prod.fst → g name = []
  past : saved <+: savedBefore tr
  progress : Progress saved g tr s

variable {saved : List (StdString × MatData α)} {g : StdString → List (List α)}

theorem Handed.mono {todo : List StdString} (h : Handed saved g todo tr s)
    (hb : XBot.containers s.logger.backend <+: XBot.containers s'.logger.backend) :
    Handed saved g todo (tr ++ es) s' := by
  refine ⟨h.1.trans hb, fun name hn => (h.2 name hn).trans ?_⟩
  rw [eventsAt_append, delivered_append]
  exact List.prefix_append _ _

theorem Draining.bound_step (d : Draining saved g tr s) (inv : Inv tr s) {a : Act α}
    (h : s.step a = some (s', es)) (name : StdString) (vb' : VariableBuffer α)
    (hm : (name, vb') ∈ s'.logger.vars) :
    Bound (g name) (eventsAt name (tr ++ es)) (s'.threads name vb') := by
  cases Moves.step inv h hm with
  | created hn he => exact d.known name hn ▸ Bound.nil
  | kept vb hv ht he =>
    rw [eventsAt_append, he, List.append_nil, ht]
    exact d.bound name vb hv
  | stepped vb a hv hs =>
    obtain ⟨rows, cols, b, hist, hr⟩ := (inv.each name vb hv).run
    have k := (sharing_run hr).kept
    rw [eventsAt_append]
    exact (d.bound name vb hv).step k.ordered k.owned k.mode hs

theorem Draining.userStep (d : Draining saved g tr s) (hf : UserFrame s es s') :
    Progress saved g (tr ++ es) s' := by
  have hp := d.progress
  rw [Progress] at hp ⊢
  rw [hf.flusher]
  cases hfl : s.flusher with
  | vars todo bytes c =>
    rw [hfl] at hp
    exact Handed.mono hp (by rw [hf.backend])
  | lockVars =>
    rw [hfl] at hp
    simpa only [hf.backend] using hp
  | _ => trivial

theorem vars_afterRead (n : StdString) (todo : List StdString) (bytes : ℤ) (t : Threads α)
    (rs : List (ReadResult α)) :
    (s.afterRead n todo bytes t rs).logger.vars = (s.logger.update n t.vb).vars := by
  fun_cases afterRead s n todo bytes t rs <;> rfl

theorem user_afterRead (n : StdString) (todo : List StdString) (bytes : ℤ) (t : Threads α)
    (rs : List (ReadResult α)) : (s.afterRead n todo bytes t rs).user = s.user := by
  fun_cases afterRead s n todo bytes t rs <;> rfl

theorem containers_afterRead (n : StdString) (todo : List StdString) (bytes : ℤ) (t : Threads α)
    (rs : List (ReadResult α)) : XBot.containers (s.afterRead n todo bytes t rs).logger.backend =
      XBot.containers s.logger.backend := by
  fun_cases afterRead s n todo bytes t rs
  case case3 block valid rs hpos =>
    have hnil : XBot.containers [writeCall t.vb block valid] = [] := by
      rw [writeCall]
      split_ifs <;> rfl
    rw [containers_append, hnil, List.append_nil]
  all_goals rfl

/-- The loop leaves a variable only when it has found its queue empty. -/
theorem flusher_afterRead (s : Shared α) (n : StdString) (todo : List StdString) (bytes : ℤ)
    (t : Threads α) {rs : List (ReadResult α)}
    (hnone : ∀ r ∈ rs, r.data = none → r.validElements = 0) :
    ∃ bytes' c, (s.afterRead n todo bytes t rs).flusher = .vars (n :: todo) bytes' c ∨
      (s.afterRead n todo bytes t rs).flusher = .vars todo bytes' c ∧ ∃ r ∈ rs, r.ret = false := by
  fun_cases afterRead s n todo bytes t rs
  · exact ⟨_, _, .inl rfl⟩
  · refine ⟨_, _, .inr ⟨rfl, _, List.mem_cons_self, ?_⟩⟩
    simpa [ReadResult.ret] using hnone _ List.mem_cons_self rfl
  · exact ⟨_, _, .inl rfl⟩
  case case4 block valid rs hzero =>
    refine ⟨_, _, .inr ⟨rfl, _, List.mem_cons_self, ?_⟩⟩
    simpa [ReadResult.ret] using hzero

/-- The progress of a flush by one step inside `read_block`. -/
theorem Draining.readAt (d : Draining saved g tr s) (inv : Inv tr s) {n : StdString}
    {todo : List StdString} {bytes : ℤ} {c : Consumer α} (hfl : s.flusher = .vars (n :: todo) bytes c)
    {a : XBot.Act α} {t : Threads α} {evs : List (Event α)} (h : s.varStep n a = some (t, evs)) :
    Progress saved g (tr ++ evs.map (.var n)) (s.afterRead n todo bytes t (readResults evs)) := by
  obtain ⟨vb, hf, hstep, htracked⟩ := inv.tracked h
  obtain ⟨rows, cols, b, hist, hr⟩ := htracked.run
  have hnone : ∀ r ∈ readResults evs, r.data = none → r.validElements = 0 := by
    intro r hr
    rcases htracked.reads hstep with he | ⟨-, r', he, hshape⟩
    · rw [he] at hr
      cases hr
    · rw [he, List.mem_singleton] at hr
      exact hr ▸ hshape.none
  have hp : Handed saved g (n :: todo) tr s := by
    have := d.progress
    rwa [Progress, hfl] at this
  have hp' : Handed saved g (n :: todo) (tr ++ evs.map (.var n))
      (s.afterRead n todo bytes t (readResults evs)) := by
    refine hp.mono ?_
    rw [containers_afterRead]
  obtain ⟨bytes', c', hstay | ⟨hleft, r, hr', hret⟩⟩ := flusher_afterRead s n todo bytes t hnone
  · rw [Progress, hstay]
    exact hp'
  · rw [Progress, hleft]
    have hempty := (Loaded.run hr).nothing htracked.mode hstep hr' hret
    refine ⟨hp'.1, fun name hn => ?_⟩
    rcases eq_or_ne name n with rfl | hne
    · refine ((d.bound name vb (mem_of_find hf)).empty hempty).trans ?_
      rw [eventsAt_append, delivered_append]
      exact List.prefix_append _ _
    · exact hp'.2 name (by simp [hne, hn])

/-- The progress of a flush by one step of its thread. -/
theorem Draining.flusherStep (d : Draining saved g tr s) (inv : Inv tr s) {order : List StdString}
    (h : s.flusherStep order = some (s', es)) : Progress saved g (tr ++ es) s' := by
  have hp := d.progress
  rw [Progress] at hp
  rw [Shared.flusherStep] at h
  cases hfl : s.flusher with
  | outside =>
    rw [hfl] at h
    cases h
  | containers =>
    cases hq : s.logger.matdataQueue with
    | nil =>
      simp only [hfl, hq] at h
      cases h
      have hall := inv.containers
      rw [hq, List.append_nil] at hall
      have hpast := d.past
      rwa [← hall] at hpast
    | cons p rest =>
      simp only [hfl, hq] at h
      cases h
      trivial
  | lockVars =>
    simp only [hfl] at h
    rw [hfl] at hp
    split_ifs at h with horder
    cases h
    refine ⟨hp, fun name hn => ?_⟩
    rw [d.known name fun hm => hn (horder.mem_iff.mpr hm)]
    exact List.nil_prefix
  | vars todo bytes c =>
    cases todo with
    | nil =>
      simp only [hfl] at h
      cases h
      trivial
    | cons n todo =>
      simp only [hfl] at h
      obtain ⟨⟨t, evs⟩, hv, he⟩ := Option.map_eq_some_iff.mp h
      cases he
      exact d.readAt inv hfl hv

/-- No step takes back a variable or a call for a container, and a flush returns when its loop has
left all variables. -/
structure Grows (s : Shared α) (es : List (LoggerEvent α)) (s' : Shared α) : Prop where
  keys : s.logger.vars.map Prod.fst ⊆ s'.logger.vars.map Prod.fst
  containers : XBot.containers s.logger.backend <+: XBot.containers s'.logger.backend
  returns : ∀ bytes, LoggerEvent.flushed bytes ∈ es → ∃ bytes c, s.flusher = .vars [] bytes c

theorem Grows.of_keys (hk : s'.logger.vars.map Prod.fst = s.logger.vars.map Prod.fst)
    (hc : XBot.containers s.logger.backend <+: XBot.containers s'.logger.backend)
    (hr : ∀ bytes, LoggerEvent.flushed bytes ∉ es) : Grows s es s' :=
  ⟨hk ▸ List.Subset.refl _, hc, fun bytes hb => absurd hb (hr bytes)⟩

theorem Grows.flusherStep {order : List StdString} (h : s.flusherStep order = some (s', es)) :
    Grows s es s' := by
  rw [Shared.flusherStep] at h
  cases hfl : s.flusher with
  | outside =>
    rw [hfl] at h
    cases h
  | containers =>
    cases hq : s.logger.matdataQueue with
    | nil =>
      simp only [hfl, hq] at h
      cases h
      exact .of_keys rfl (List.prefix_refl _) (by simp)
    | cons p rest =>
      simp only [hfl, hq] at h
      cases h
      refine .of_keys rfl ?_ (by simp)
      rw [containers_append]
      exact List.prefix_append _ _
  | lockVars =>
    simp only [hfl] at h
    split_ifs at h
    cases h
    exact .of_keys rfl (List.prefix_refl _) (by simp)
  | vars todo bytes c =>
    cases todo with
    | nil =>
      simp only [hfl] at h
      cases h
      exact ⟨List.Subset.refl _, List.prefix_refl _, fun _ _ => ⟨bytes, c, hfl⟩⟩
    | cons n todo =>
      simp only [hfl] at h
      obtain ⟨⟨t, evs⟩, -, he⟩ := Option.map_eq_some_iff.mp h
      cases he
      refine .of_keys ?_ ?_ (by simp)
      · rw [vars_afterRead, update_keys]
      · rw [containers_afterRead]

theorem Grows.step {a : Act α} (h : s.step a = some (s', es)) : Grows s es s' := by
  cases ha : a.isUser with
  | true =>
    have hf := UserFrame.step ha h
    exact ⟨hf.keys, by rw [hf.backend], fun bytes hb => absurd hb (hf.returns bytes)⟩
  | false =>
    cases a with
    | callFlushAvailableData =>
      cases hfl : s.flusher with
      | outside =>
        simp only [Shared.step, hfl] at h
        cases h
        exact .of_keys rfl (List.prefix_refl _) (by simp)
      | _ => simp [Shared.step, hfl] at h
    | flusher order => exact .flusherStep h
    | _ => cases ha

theorem Draining.step (d : Draining saved g tr s) (inv : Inv tr s) {a : Act α}
    (h : s.step a = some (s', es)) : Draining saved g (tr ++ es) s' := by
  refine ⟨d.bound_step inv h, fun name hn => d.known name fun hm => hn ((Grows.step h).keys hm), ?_, ?_⟩
  · rw [savedBefore_append]
    exact d.past.trans (List.prefix_append _ _)
  · cases ha : a.isUser with
    | true => exact d.userStep (.step ha h)
    | false =>
      cases a with
      | callFlushAvailableData =>
        cases hfl : s.flusher with
        | outside =>
          simp only [Shared.step, hfl] at h
          cases h
          trivial
        | _ => simp [Shared.step, hfl] at h
      | flusher order => exact d.flusherStep inv h
      | _ => cases ha

/-- The samples that have left the current block of a variable. -/
def settled (tr : List (LoggerEvent α)) (s : Shared α) (name : StdString) : List (List α) :=
  (s.logger.find name).elim [] fun vb =>
    delivered (eventsAt name tr) ++ (s.threads name vb).queued

theorem find_of_nodup {l : MatLogger2 α} (hnd : (l.vars.map Prod.fst).Nodup)
    {vb : VariableBuffer α} (hm : (name, vb) ∈ l.vars) : l.find name = some vb := by
  cases hf : l.find name with
  | none => exact absurd (List.mem_map_of_mem hm) (find_eq_none.mp hf)
  | some vb' =>
    have he := List.inj_on_of_nodup_map hnd (mem_of_find hf) hm rfl
    rw [(Prod.mk.inj he).2]

theorem settled_of_mem (inv : Inv tr s) {vb : VariableBuffer α} (hm : (name, vb) ∈ s.logger.vars) :
    settled tr s name = delivered (eventsAt name tr) ++ (s.threads name vb).queued := by
  rw [settled, find_of_nodup inv.nodup hm, Option.elim_some]

theorem Draining.start (inv : Inv tr s) (hf : s.flusher = .outside) :
    Draining (savedBefore tr) (settled tr s) tr s := by
  refine ⟨fun name vb hm => ?_, fun name hn => ?_, List.prefix_refl _, ?_⟩
  · rw [settled_of_mem inv hm]
    refine .start ?_
    rw [threads, hf]
    rfl
  · rw [settled, find_eq_none.mpr hn]
    rfl
  · rw [Progress, hf]
    trivial

end Shared

section Results

variable {opt : Options} {hist hist' : List (Shared α)} {tr tr' : List (LoggerEvent α)}
variable {s s' : Shared α}

/-- A run that goes on with a flush from its call to its return. -/
theorem Shared.Handed.run (h : (shared α opt).Run hist tr s) (hf : s.flusher = .outside)
    (h' : ((shared α opt).startingAt s).Run hist' tr' s') {bytes : ℤ}
    (hb : LoggerEvent.flushed bytes ∈ tr') : Shared.Inv (tr ++ tr') s' ∧
      s.logger.vars.map Prod.fst ⊆ s'.logger.vars.map Prod.fst ∧
      Shared.Handed (savedBefore tr) (Shared.settled tr s) [] (tr ++ tr') s' := by
  have hinv := Shared.Inv.run h
  have key : Shared.Inv (tr ++ tr') s' ∧
      Shared.Draining (savedBefore tr) (Shared.settled tr s) (tr ++ tr') s' ∧
      s.logger.vars.map Prod.fst ⊆ s'.logger.vars.map Prod.fst ∧
      (LoggerEvent.flushed bytes ∈ tr' →
        Shared.Handed (savedBefore tr) (Shared.settled tr s) [] (tr ++ tr') s') := by
    clear hb
    induction h' with
    | start hs =>
      obtain rfl := hs
      rw [List.append_nil]
      exact ⟨hinv, .start hinv hf, List.Subset.refl _, by simp⟩
    | @next hist' tr' es s₁ s₂ hr hstep ih =>
      obtain ⟨hinv₁, d, hkeys, hdone⟩ := ih
      obtain ⟨a, ha⟩ := hstep
      have hg := Shared.Grows.step ha
      rw [← List.append_assoc]
      refine ⟨hinv₁.step ha, d.step hinv₁ ha, List.Subset.trans hkeys hg.keys, fun hmem => ?_⟩
      rcases List.mem_append.mp hmem with hmem | hmem
      · exact (hdone hmem).mono hg.containers
      · obtain ⟨bytes', c, hfl⟩ := hg.returns bytes hmem
        have hp := d.progress
        rw [Shared.Progress, hfl] at hp
        exact hp.mono hg.containers
  exact ⟨key.1, key.2.2.1, key.2.2.2 hb⟩

/-- What has been handed over has been written. -/
theorem Shared.Inv.left_written (inv : Shared.Inv tr s) (inv' : Shared.Inv (tr ++ tr') s')
    (hkeys : s.logger.vars.map Prod.fst ⊆ s'.logger.vars.map Prod.fst)
    (hall : Shared.Handed (savedBefore tr) (Shared.settled tr s) [] (tr ++ tr') s') {name : StdString}
    {vb : VariableBuffer α} (hm : (name, vb) ∈ s.logger.vars) : ∃ left written payloads,
      Lossy (discarded (eventsAt name tr)) (accepted (eventsAt name tr))
        (left ++ (s.threads name vb).filling) ∧ left <+: written ∧
      (callsFor name s'.logger.backend).mapM BackendCall.payload = some payloads ∧
      payloads.flatten = written.flatten := by
  obtain ⟨⟨n, vb'⟩, hm', he⟩ := List.mem_map.mp (hkeys (List.mem_map_of_mem hm))
  obtain rfl : n = name := he
  have hwritten := (inv'.each n vb' hm').written
  have hleft := hall.2 n List.not_mem_nil
  rw [Shared.settled_of_mem inv hm] at hleft
  refine ⟨_, _, _, ?_, hleft, payloads_isWrite hwritten, ?_⟩
  · rw [List.append_assoc]
    exact (inv.each n vb hm).lossy
  · rw [← List.flatten_flatten, flatten_readBlocks]

/-- Whatever the other thread has done meanwhile, at the return of `flush_available_data` the backend
has been called for all that had been saved, and for all samples that had been accepted and neither
dropped nor kept in the current block, at its call. -/
theorem flush_complete (h : (shared α opt).Run hist tr s) (hf : s.flusher = .outside)
    (h' : ((shared α opt).startingAt s).Run hist' tr' s') {bytes : ℤ}
    (hb : LoggerEvent.flushed bytes ∈ tr') : savedBefore tr <+: containers s'.logger.backend ∧
      ∀ name vb, (name, vb) ∈ s.logger.vars → ∃ left written payloads,
        Lossy (discarded (eventsAt name tr)) (accepted (eventsAt name tr))
          (left ++ (s.threads name vb).filling) ∧ left <+: written ∧
        (callsFor name s'.logger.backend).mapM BackendCall.payload = some payloads ∧
        payloads.flatten = written.flatten := by
  obtain ⟨inv', hkeys, hall⟩ := Shared.Handed.run h hf h' hb
  exact ⟨hall.1, fun name vb hm => (Shared.Inv.run h).left_written inv' hkeys hall hm⟩

/-- What `flush_available_data` returns. -/
def LoggerEvent.bytes : LoggerEvent α → Option ℤ
  | .flushed bytes => some bytes
  | _ => none

/-- Neither the loop over the containers nor that over the variables has been entered. -/
def Flusher.isOutside : Flusher α → Bool
  | .outside => true
  | _ => false

/-- A flush is called when the first scalar has been pushed and the second has not been accepted. -/
theorem exec_flush : ∃ s tr s' tr', exec Shared.step (.start ⟨20, 20⟩ false) (crossing.take 17) =
      some (s, tr) ∧ exec Shared.step s (crossing.drop 17) = some (s', tr') ∧
    s.flusher = .outside ∧ (∃ vb, s.logger.vars = [([120], vb)] ∧
      (s.threads [120] vb).filling = []) ∧ accepted (eventsAt [120] tr) = [[5]] ∧
    discarded (eventsAt [120] tr) = [] ∧ LoggerEvent.flushed 8 ∈ tr' := by
  have hex : ((exec Shared.step (.start ⟨20, 20⟩ false) (crossing.take 17)).bind fun p =>
      (exec Shared.step p.1 (crossing.drop 17)).map fun q =>
        decide (p.1.flusher.isOutside = true ∧
          p.1.logger.vars.map (fun v => (v.1, (p.1.threads v.1 v.2).filling)) = [([120], [])] ∧
          accepted (eventsAt [120] p.2) = [[5]] ∧ discarded (eventsAt [120] p.2) = [] ∧
          q.2.filterMap LoggerEvent.bytes = [8])) = some true := by
    decide +kernel
  obtain ⟨⟨s, tr⟩, h, hex⟩ := Option.bind_eq_some_iff.mp hex
  obtain ⟨⟨s', tr'⟩, h', hs⟩ := Option.map_eq_some_iff.mp hex
  obtain ⟨hout, hvars, hacc, hdis, hbytes⟩ := of_decide_eq_true hs
  obtain ⟨⟨n, vb⟩, hl, he⟩ := List.map_eq_singleton_iff.mp hvars
  obtain ⟨rfl, hfill⟩ := Prod.mk.inj he
  refine ⟨s, tr, s', tr', h, h', ?_, ⟨vb, hl, hfill⟩, hacc, hdis, ?_⟩
  · cases hf : s.flusher with
    | outside => rfl
    | _ =>
      simp only [hf] at hout
      cases hout
  · have hmem : (8 : ℤ) ∈ tr'.filterMap LoggerEvent.bytes := by simp [hbytes]
    obtain ⟨e, he, hb⟩ := List.mem_filterMap.mp hmem
    cases e with
    | flushed bytes =>
      cases hb
      exact he
    | _ => cases hb

theorem flush_complete_crossing : ∃ hist tr s hist' tr' s' payloads,
    (shared ℕ ⟨20, 20⟩).Run hist tr s ∧
    ((shared ℕ ⟨20, 20⟩).startingAt s).Run hist' tr' s' ∧ LoggerEvent.flushed 8 ∈ tr' ∧
    (callsFor [120] s'.logger.backend).mapM BackendCall.payload = some payloads ∧
    [5] <+: payloads.flatten := by
  obtain ⟨s, tr, s', tr', h, h', hf, ⟨vb, hvars, hfill⟩, hacc, hdis, hb⟩ := exec_flush
  have hstep : ∀ s a s' es, Shared.step s a = some (s', es) →
      (shared ℕ ⟨20, 20⟩).step s es s' := fun _ a _ _ ha => ⟨a, ha⟩
  obtain ⟨hist, hr⟩ := System.Run.exec hstep (.start ⟨false, rfl⟩) h
  obtain ⟨hist', hr'⟩ := System.Run.exec (S := (shared ℕ ⟨20, 20⟩).startingAt s) hstep (.start rfl) h'
  obtain ⟨left, written, payloads, hlossy, hpre, hpay, hflat⟩ :=
    (flush_complete hr hf hr' hb).2 [120] vb (by simp [hvars])
  rw [List.nil_append, hfill, List.append_nil, hacc, hdis] at hlossy
  rw [hlossy.eq_of_nil] at hpre
  refine ⟨_, _, s, _, _, s', payloads, hr, hr', hb, hpay, ?_⟩
  obtain ⟨rest, rfl⟩ := hpre
  exact ⟨rest.flatten, hflat.symm⟩

end Results

end XBot
