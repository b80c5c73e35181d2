import MatLogger2.Backend.Cube
import MatLogger2.Backend.Denotes

/-! What the file holds of a saved container when the logger is gone. `save` puts it into a queue;
a pass writes it later and does not look at the outcome, and a name that is taken stays so. -/

namespace XBot

open Matio VariableBuffer Transition MatLogger2

variable {α : Type}

/-- A new logger and its calls, each on record with what it has returned. -/
def session (α : Type) (opt : Options) : System (MatLogger2 α) (Op α × List (Result α)) where
  init s := s = MatLogger2.make opt
  step s es s' := ∃ op rs s₁ vars, Op.keeps .producerConsumer op ∧ s.call op = some (s₁, rs) ∧
    vars.Perm s₁.vars ∧ es = [(op, rs)] ∧ s' = { s₁ with vars }

/-- What a call has saved. -/
def savedBy : Op α × List (Result α) → Option (StdString × MatData α)
  | (.save varName varData, [.saved true]) => some (varName, varData)
  | _ => none

def saves (tr : List (Op α × List (Result α))) : List (StdString × MatData α) :=
  tr.filterMap savedBy

def results (tr : List (Op α × List (Result α))) : List (Result α) := tr.flatMap Prod.snd

theorem saves_append (tr tr' : List (Op α × List (Result α))) :
    saves (tr ++ tr') = saves tr ++ saves tr' := List.filterMap_append

namespace MatLogger2

variable {s s' : MatLogger2 α} {opt : Options} {hist : List (MatLogger2 α)}
variable {tr : List (Op α × List (Result α))}

theorem loggerIn_of_session (h : (session α opt).Run hist tr s) :
    ∃ hist', (loggerIn α opt .producerConsumer).Run hist' (results tr) s := by
  refine h.inv (I := fun tr s => ∃ hist', (loggerIn α opt .producerConsumer).Run hist' (results tr) s)
    ?_ ?_
  · rintro s rfl
    exact ⟨_, .start ⟨⟨_, _, .start rfl⟩, rfl, nofun, fun _ => rfl⟩⟩
  · rintro tr s es s' ⟨hist', hr⟩ ⟨op, rs, s₁, vars, hk, hc, hp, rfl, rfl⟩
    have happend : results (tr ++ [(op, rs)]) = results tr ++ rs := by
      rw [results, List.flatMap_append, List.flatMap_singleton]
      rfl
    exact ⟨_, happend ▸ hr.next ⟨op, s₁, vars, hk, hc, hp, rfl⟩⟩

theorem create_saved {mem : Allocator α} {varName : StdString} {rows cols bufferSize : ℤ} {ok : Bool}
    (h : s.create mem varName rows cols bufferSize = some (s', ok)) :
    s'.backend = s.backend ∧ s'.matdataQueue = s.matdataQueue := by
  cases ok with
  | false =>
    obtain rfl := create_false h
    exact ⟨rfl, rfl⟩
  | true =>
    obtain ⟨-, -, -, -, rfl⟩ := create_true h
    exact ⟨rfl, rfl⟩

theorem add_saved {mem : Allocator α} {varName : StdString} {data : Eigen.MatrixXd α}
    {r : Option (Outcome α)} (h : s.add mem varName data = some (s', r)) :
    s'.backend = s.backend ∧ s'.matdataQueue = s.matdataQueue := by
  have hfind : ∀ {s₁ found}, s.findOrCreate mem varName (toInt data.rows) (toInt data.cols) =
      some (s₁, found) → s₁.backend = s.backend ∧ s₁.matdataQueue = s.matdataQueue := by
    intro s₁ found hf
    rcases findOrCreate_cases hf with ⟨rfl, -, -⟩ | ⟨hc, -, -⟩
    · exact ⟨rfl, rfl⟩
    · exact create_saved hc
  unfold MatLogger2.add at h
  split at h
  · cases h
  · rename_i hf
    cases h
    exact hfind hf
  · rename_i hf
    cases h
    obtain ⟨hb, hq⟩ := hfind hf
    exact ⟨hb, hq⟩

/-- Without samples nothing is written for a variable. -/
theorem no_calls {overwrite : Bool} {b : ℕ} (hb : 0 < b) {vb : VariableBuffer α}
    {blocks : List (List (List α))} {ds : List (List α)}
    (hh : BlockLog.History NUM_BLOCKS b overwrite [] blocks ds vb.log)
    {calls : List (BackendCall α)}
    (hw : List.Forall₂ (IsWrite vb) (blocks ++ vb.log.blocks) calls) : calls = [] := by
  obtain ⟨-, c⟩ := hh.cut_of_le hb (by decide) (Nat.zero_le _)
  have hflat := List.append_eq_nil_iff.mp c.flatten
  obtain ⟨rfl, hq⟩ := List.append_eq_nil_iff.mp (c.nil hflat.2)
  rw [BlockLog.blocks, hq, hflat.2] at hw
  exact List.forall₂_nil_left_iff.mp hw

end MatLogger2

/-- The file holds a value under a name. -/
def Held (f : MatFile α) (name : StdString) (value : MatData α) : Prop :=
  ∃ m, f.read name = some m ∧ MatioBackend.Denotes m value

namespace MatLogger2

variable (lib : Library α) (heap : Heap)

/-- What a call has to find. A value that is saved has to be one that the file can hold, and there is
no variable of its name in the file, nor one that waits to be written. -/
def Meets (s : MatLogger2 α) : Op α → Prop
  | .create _ varName _ _ _ => IsLink (cstr varName)
  | .add _ varName _ => IsLink (cstr varName)
  | .save varName varData =>
    MatData.Each MatData.WellFormed varData ∧ MatData.Each MatData.Storable varData ∧
      (∀ f readOnly, file lib heap s.backend = some ⟨some f, readOnly⟩ → f.Free varName) ∧
      ∀ p ∈ s.matdataQueue, cstr p.1 ≠ cstr varName
  | _ => True

/-- A session in which each call finds what it has to. -/
def carefulSession (opt : Options) : System (MatLogger2 α) (Op α × List (Result α)) where
  init := (session α opt).init
  step s es s' := (∀ e ∈ es, Meets lib heap s e.1) ∧ (session α opt).step s es s'

/-- Values that can be written one after the other. -/
def Waiting (f : MatFile α) (queue : List (StdString × MatData α)) : Prop :=
  queue.Pairwise (fun p q => cstr p.1 ≠ cstr q.1) ∧
    ∀ p ∈ queue, f.find (cstr p.1) = none ∧ MatData.Each MatData.WellFormed p.2 ∧
      MatData.Each MatData.Storable p.2

/-- A value is in the file for good. -/
def InFile (f : MatFile α) (p : StdString × MatData α) : Prop :=
  ∃ m, f.Fixed (cstr p.1) m ∧ MatioBackend.Denotes m p.2

/-- What has been saved waits, and can be written, or is in the file for good. -/
def Safe (tr : List (Op α × List (Result α))) (s : MatLogger2 α) : Prop :=
  ∃ f, file lib heap s.backend = some ⟨some f, false⟩ ∧ Waiting f s.matdataQueue ∧
    ∀ p ∈ saves tr, p ∈ s.matdataQueue ∨ InFile f p

variable {lib heap} {s s' : MatLogger2 α} {opt : Options} {hist : List (MatLogger2 α)}
variable {tr : List (Op α × List (Result α))} {f f' : MatFile α}
variable {queue : List (StdString × MatData α)}

theorem InFile.of_frame {p : StdString × MatData α} (h : InFile f p)
    (hf : ∀ key, (∃ m, f.Fixed key m) → MatFile.SameAt f f' key) : InFile f' p := by
  obtain ⟨m, hm, hd⟩ := h
  exact ⟨m, hm.of_same (hf _ ⟨m, hm⟩), hd⟩

/-- A value that can be written gets into the file. -/
theorem perform_container (lib : Library α) (heap : Heap) {p : StdString × MatData α}
    (hfree : f.find (cstr p.1) = none) (hwf : MatData.Each MatData.WellFormed p.2)
    (hstorable : MatData.Each MatData.Storable p.2) :
    ∃ m, MatioBackend.perform lib heap ⟨some f, false⟩ (.writeContainer p.1 p.2) =
        some ⟨some (f.put (cstr p.1) m false), false⟩ ∧ MatioBackend.Denotes m p.2 := by
  obtain ⟨m, hm, hdenotes⟩ := MatioBackend.denotes_stored heap hwf hstorable (cstr p.1)
  have hname : (MatioBackend.makeMatvar heap (cstr p.1) p.2).nameOf = cstr p.1 := by
    rw [MatioBackend.nameOf_makeMatvar, cstr_cstr]
  have hwrite := MatFile.write_new lib (by rw [hname]; exact hfree) hm
  rw [hname] at hwrite
  refine ⟨m, ?_, hdenotes⟩
  simp only [MatioBackend.perform, MatioBackend.writeContainer, hwrite]

/-- The values that wait get into the file. -/
theorem perform_queue (lib : Library α) (heap : Heap) (h : Waiting f queue) : ∃ f',
    (queue.map fun p => BackendCall.writeContainer p.1 p.2).foldlM
        (MatioBackend.perform lib heap) ⟨some f, false⟩ = some ⟨some f', false⟩ ∧
      (∀ key, (∃ m, f.Fixed key m) → MatFile.SameAt f f' key) ∧ ∀ p ∈ queue, InFile f' p := by
  induction queue generalizing f with
  | nil => exact ⟨f, rfl, fun key _ => .refl f key, by simp⟩
  | cons p queue ih =>
    obtain ⟨hapart, hnew⟩ := h
    rw [List.pairwise_cons] at hapart
    rw [List.forall_mem_cons] at hnew
    obtain ⟨⟨hfree, hwf, hstorable⟩, hnew⟩ := hnew
    obtain ⟨m, hp, hdenotes⟩ := perform_container lib heap hfree hwf hstorable
    have hrest : Waiting (f.put (cstr p.1) m false) queue := by
      refine ⟨hapart.2, fun q hq => ⟨?_, (hnew q hq).2⟩⟩
      rw [MatFile.find_put, if_neg (hapart.1 q hq).symm]
      exact (hnew q hq).1
    obtain ⟨f', hall, hkeep, hin⟩ := ih hrest
    have hfixed := MatFile.fixed_put f (cstr p.1) m
    refine ⟨f', ?_, fun key hkey => ?_, ?_⟩
    · rw [List.map_cons, List.foldlM_cons, hp]
      exact hall
    · obtain ⟨m', hm'⟩ := hkey
      have hne : key ≠ cstr p.1 := by
        rintro rfl
        rw [hm'.1] at hfree
        cases hfree
      have hsame := MatFile.sameAt_put f hne m false
      exact hsame.trans (hkeep key ⟨m', hm'.of_same hsame⟩)
    · rw [List.forall_mem_cons]
      exact ⟨⟨m, hfixed.of_same (hkeep _ ⟨m, hfixed⟩), hdenotes⟩, hin⟩

theorem sound_of_accounted {mode : Mode} {rs : List (Result α)} (acc : Accounted mode rs s) :
    ∀ call ∈ s.backend, call.Sound := by
  refine sound_of_calls fun n hn => ?_
  by_cases hm : n ∈ s.vars.map Prod.fst
  · obtain ⟨⟨n, vb⟩, hmem, rfl⟩ := List.mem_map.mp hm
    obtain ⟨b, a⟩ := acc.each n vb hmem
    obtain ⟨blocks, hw, -⟩ := a.history
    exact ⟨vb, blocks, hw⟩
  · exact absurd (acc.others n hm).2 hn

theorem file_append (calls calls' : List (BackendCall α)) :
    file lib heap (calls ++ calls') =
      (file lib heap calls).bind fun s => calls'.foldlM (MatioBackend.perform lib heap) s :=
  List.foldlM_append

/-- A call that neither saves nor writes. -/
theorem Safe.call (h : Safe lib heap tr s) {es : List (Op α × List (Result α))} (hs : saves es = [])
    (hb : s'.backend = s.backend) (hq : s'.matdataQueue = s.matdataQueue) :
    Safe lib heap (tr ++ es) s' := by
  rw [Safe, saves_append, hs, List.append_nil, hb, hq]
  exact h

/-- A value that is saved waits. -/
theorem Safe.save (h : Safe lib heap tr s) {varName : StdString} {varData : MatData α}
    (hm : Meets lib heap s (.save varName varData)) :
    Safe lib heap (tr ++ [(.save varName varData, [.saved true])]) (s.save varName varData).1 := by
  obtain ⟨f, hf, ⟨hapart, hnew⟩, hsaved⟩ := h
  obtain ⟨hwf, hstorable, hfree, hqueue⟩ := hm
  refine ⟨f, hf, ⟨?_, ?_⟩, ?_⟩
  · refine List.pairwise_append.mpr ⟨hapart, List.pairwise_singleton _ _, fun p hp q hq => ?_⟩
    cases List.mem_singleton.mp hq
    exact hqueue p hp
  · intro p hp
    rcases List.mem_append.mp hp with hp | hp
    · exact hnew p hp
    · cases List.mem_singleton.mp hp
      exact ⟨(hfree f false hf).2, hwf, hstorable⟩
  · intro p hp
    rw [saves_append] at hp
    rcases List.mem_append.mp hp with hp | hp
    · exact (hsaved p hp).imp_left (List.mem_append_left _)
    · exact .inl (List.mem_append_right _ hp)

/-- Where something is handed over, and the queue first, what waits gets into the file and what is
there stays. -/
theorem Safe.handing (h : Safe lib heap tr s) (hsound : ∀ call ∈ s'.backend, call.Sound)
    (hq : QueueFirst s s') : Safe lib heap tr s' := by
  obtain ⟨f, hf, hwait, hsaved⟩ := h
  rcases hq with ⟨hb, hq⟩ | ⟨hq, writes, -, hb⟩
  · rw [Safe, hb, hq]
    exact ⟨f, hf, hwait, hsaved⟩
  · obtain ⟨f₁, hf₁, hkeep₁, hin₁⟩ := perform_queue lib heap hwait
    rw [hb, List.forall_mem_append] at hsound
    obtain ⟨f', hf', hkeep'⟩ := MatioBackend.perform_frame lib heap hsound.2 f₁
    refine ⟨f', ?_, ?_, fun p hp => .inr ?_⟩
    · rw [hb, file_append, file_append, hf, Option.bind_some, hf₁, Option.bind_some, hf']
    · rw [hq]
      exact ⟨.nil, by simp⟩
    · have hin : InFile f₁ p := (hsaved p hp).elim (hin₁ p) fun h => h.of_frame hkeep₁
      exact hin.of_frame fun key hkey => hkeep' key (.inr hkey)

/-- In a careful session, all that has been saved is safe. -/
theorem safe_run (h : (carefulSession lib heap opt).Run hist tr s) :
    (∃ hist', (session α opt).Run hist' tr s) ∧ Safe lib heap tr s := by
  refine h.inv (I := fun tr s => (∃ hist', (session α opt).Run hist' tr s) ∧ Safe lib heap tr s) ?_ ?_
  · rintro s rfl
    exact ⟨⟨_, .start rfl⟩, .empty, rfl, ⟨.nil, by simp [make]⟩, by simp [saves]⟩
  · rintro tr s es s' ⟨⟨hist', hr⟩, hsafe⟩ ⟨hmeets, hstep⟩
    have hr' := hr.next hstep
    refine ⟨⟨_, hr'⟩, ?_⟩
    obtain ⟨_, hlogger⟩ := loggerIn_of_session hr
    obtain ⟨_, hlogger'⟩ := loggerIn_of_session hr'
    have hsound := sound_of_accounted (accounted_run hlogger')
    have t := (accounted_run hlogger).tidy
    obtain ⟨op, rs, s₁, vars, -, hc, -, rfl, rfl⟩ := hstep
    have hm := hmeets _ (List.mem_singleton_self _)
    cases op with
    | create mem varName rows cols bufferSize =>
      obtain ⟨⟨s₂, ok⟩, hcreate, he⟩ := Option.map_eq_some_iff.mp hc
      cases he
      obtain ⟨hb, hq⟩ := create_saved hcreate
      exact hsafe.call rfl hb hq
    | add mem varName data =>
      obtain ⟨⟨s₂, r⟩, hadd, he⟩ := Option.map_eq_some_iff.mp hc
      cases he
      obtain ⟨hb, hq⟩ := add_saved hadd
      exact hsafe.call rfl hb hq
    | save varName varData =>
      cases hc
      exact hsafe.save hm
    | flushAvailableData =>
      obtain ⟨s₂, bytes, he, hh, -⟩ := flushAvailableData_spec t
      have hc : some (s.flushAvailableData.1, [Result.flushed s.flushAvailableData.2]) =
          some (s₁, rs) := hc
      rw [he] at hc
      cases hc
      have hsafe' : Safe lib heap tr { s₂ with vars } := hsafe.handing hsound hh.first
      exact hsafe'.call rfl rfl rfl
    | setBufferMode m =>
      cases hc
      exact hsafe.call rfl rfl rfl
    | setOnDataAvailableCallback callback =>
      cases hc
      exact hsafe.call rfl rfl rfl

/-- At the end of a careful session, the file holds all that has been saved. -/
theorem saved_held (lib : Library α) (heap : Heap)
    (h : (carefulSession lib heap opt).Run hist tr s) :
    ∃ s' f, (∀ fuel, s.destroy (fuel + 2) = some (s', none)) ∧
      file lib heap s'.backend = some ⟨some f, false⟩ ∧
      ∀ name value, (name, value) ∈ saves tr → Held f name value := by
  obtain ⟨⟨hist', hr⟩, hsafe⟩ := safe_run h
  obtain ⟨_, hlogger⟩ := loggerIn_of_session hr
  have acc := accounted_run hlogger
  have t := acc.tidy
  rw [← acc.inMode] at t
  obtain ⟨s', hd, -, hother, hall⟩ := destroy_accounts acc
  have hsound : ∀ call ∈ s'.backend, call.Sound := sound_of_calls fun n hn => by
    by_cases hm : n ∈ s.vars.map Prod.fst
    · obtain ⟨⟨n, vb⟩, hmem, rfl⟩ := List.mem_map.mp hm
      obtain ⟨b, blocks, -, -, -, hw⟩ := hall n vb hmem
      exact ⟨vb, _, hw⟩
    · exact absurd (hother n hm) hn
  obtain ⟨hq, hfirst⟩ := destroy_queueFirst t hd
  obtain ⟨f, hf, -, hsaved⟩ := hsafe.handing hsound hfirst
  refine ⟨s', f, hd, hf, fun name value hs => ?_⟩
  obtain ⟨m, hm, hdenotes⟩ : InFile f (name, value) := by
    refine (hsaved _ hs).resolve_left ?_
    rw [hq]
    exact List.not_mem_nil
  exact ⟨m, hm.1, hdenotes⟩

theorem session_save (h : (session α opt).Run hist tr s) (name : StdString) (value : MatData α) :
    (session α opt).Run (hist ++ [(s.save name value).1])
      (tr ++ [(.save name value, [.saved true])]) (s.save name value).1 :=
  h.next ⟨.save name value, [.saved true], (s.save name value).1, s.vars, trivial, rfl, .refl _, rfl,
    rfl⟩

/-- A call of a careful session. -/
theorem careful_next (h : (carefulSession lib heap opt).Run hist tr s) (op : Op α)
    {rs : List (Result α)} (hk : Op.keeps .producerConsumer op) (hc : s.call op = some (s', rs))
    (hm : Meets lib heap s op) :
    (carefulSession lib heap opt).Run (hist ++ [s']) (tr ++ [(op, rs)]) s' :=
  h.next ⟨by simpa using hm, op, rs, s', s'.vars, hk, hc, .refl _, rfl, rfl⟩

/-- A struct is saved and written, and then a text, which the destructor writes. -/
theorem saved_held_two : ∃ (hist : List (MatLogger2 ℕ)) (s : MatLogger2 ℕ),
    (carefulSession .strict .zeros ⟨20, 20⟩).Run hist
      [(.save [120] (.struct [([97], .number 1)]), [.saved true]),
        (.flushAvailableData, [.flushed (.ok 0)]), (.save [121] (.text [109]), [.saved true])] s ∧
      ∃ s' f, s.destroy 2 = some (s', none) ∧ file .strict .zeros s'.backend = some ⟨some f, false⟩ ∧
        Held f [120] (.struct [([97], .number 1)]) ∧ Held f [121] (.text [109]) := by
  have h₀ : (carefulSession .strict .zeros ⟨20, 20⟩).Run _ _ (make (α := ℕ) ⟨20, 20⟩) := .start rfl
  have h₁ := careful_next h₀ (.save [120] (.struct [([97], .number 1)])) trivial rfl <| by
    refine ⟨?_, ?_, fun f readOnly hf => ?_, by simp [make]⟩
    · exact .struct ⟨by decide, by decide⟩ (by simpa using .number trivial)
    · exact .struct ⟨by decide, by decide⟩ (by simpa using .number trivial)
    · cases hf
      exact ⟨by decide, rfl⟩
  have h₂ := careful_next h₁ .flushAvailableData trivial rfl trivial
  have h₃ := careful_next h₂ (.save [121] (.text [109])) trivial rfl <| by
    refine ⟨.text trivial, .text (by simp [MatData.Storable, Ascii]), fun f readOnly hf => ?_, by simp⟩
    cases hf
    refine ⟨by decide, (MatFile.sameAt_write .strict (f := .empty) (.inl ?_)).1⟩
    rw [MatioBackend.nameOf_makeMatvar]
    decide
  obtain ⟨s', f, hd, hf, hheld⟩ := saved_held .strict .zeros h₃
  exact ⟨_, _, h₃, s', f, hd 0, hf, hheld _ _ (by simp [saves, savedBy]),
    hheld _ _ (by simp [saves, savedBy])⟩

/-- The second of two values under one name is lost. -/
theorem resaved_lost :
    ∃ (hist : List (MatLogger2 ℕ)) (s s' : MatLogger2 ℕ) (f : MatFile ℕ),
      (session ℕ ⟨20, 20⟩).Run hist ([(.save [120] (.number 1), [.saved true])] ++
        [(.save [120] (.number 2), [.saved true])]) s ∧
      s.destroy 2 = some (s', none) ∧ file .strict .zeros s'.backend = some ⟨some f, false⟩ ∧
      ¬ Held f [120] (.number 2) ∧ Held f [120] (.number 1) := by
  have h := session_save (session_save (.start rfl : (session ℕ ⟨20, 20⟩).Run _ _ _) [120] (.number 1))
    [120] (.number 2)
  refine ⟨_, _, _, .put .empty [120] (.double [120] [1, 1] (some [1])) false, h, rfl, rfl, ?_, _, rfl,
    .number⟩
  rintro ⟨m, hm, hd⟩
  obtain ⟨name, rfl⟩ := MatioBackend.eq_of_denotes_number hd
  cases hm

end MatLogger2
end XBot
