import MatLogger2.Backend.Saved

/-! Loggers that have one file open after another, each by `load` but perhaps the first. What the
samples of a vector variable become in the file, from one logger to the next, and what stays there
that no logger has written to. -/

namespace XBot

open Matio VariableBuffer Transition MatLogger2

variable {α : Type}

namespace MatioBackend

variable (lib : Library α) (heap : Heap) {f f' : MatFile α} {vb : VariableBuffer α}
variable {name : StdString} {rows : ℕ} {xs : List (List α)}

end MatioBackend

/-- All names are links: those of the variables, those of what has been saved, and those of the
fields in it. -/
structure Linked (vars : List (StdString × VariableBuffer α)) (saved : List (StdString × MatData α)) :
    Prop where
  vars : ∀ p ∈ vars, IsLink (cstr p.1)
  saved : ∀ p ∈ saved, IsLink (cstr p.1) ∧ MatData.Each MatData.Linked p.2

/-- The life of a logger: its mode, what its calls have returned, and what it is when it is
destructed. -/
structure Life (α : Type) where
  mode : Mode
  tr : List (Result α)
  s : MatLogger2 α

namespace Life

variable (life : Life α) (name : StdString)

/-- What the logger has saved. -/
def saved : List (StdString × MatData α) := containers life.s.backend ++ life.s.matdataQueue

/-- The logger writes nothing under that name but samples of `rows` elements of a vector variable. -/
structure Serves (rows : ℕ) : Prop where
  vector : ∀ vb, (name, vb) ∈ life.s.vars → vb.cols = 1 ∧ vb.rows = rows
  vars : ∀ p ∈ life.s.vars, cstr p.1 = cstr name → p.1 = name
  saved : ∀ p ∈ life.saved, cstr p.1 ≠ cstr name

/-- No sample has been accepted and no container saved that is written under that key. -/
structure Spares (key : StdString) : Prop where
  vars : ∀ p ∈ life.s.vars, cstr p.1 = key → acceptedFor p.1 life.tr = []
  saved : ∀ p ∈ life.saved, cstr p.1 ≠ key

/-- The accepted samples in their order, but for those that were discarded. -/
structure Keeps (kept : List (List α)) : Prop where
  sublist : kept.Sublist (acceptedFor name life.tr)
  perm : (acceptedFor name life.tr).Perm (kept ++ discardedFor name life.tr)

/-- Where nothing was discarded, all accepted samples are kept. -/
theorem Keeps.all {life : Life α} {name : StdString} {kept : List (List α)}
    (h : life.Keeps name kept) (hd : discardedFor name life.tr = []) :
    kept = acceptedFor name life.tr := by
  have hlen := h.perm.length_eq
  rw [hd, List.append_nil] at hlen
  exact h.sublist.eq_of_length hlen.symm

end Life

/-- A file that loggers open one after the other. A step is the life of a logger, with its destructor;
all names under which it may write are links. -/
def logbook (lib : Library α) (heap : Heap) (f₀ : MatFile α) : System (MatFile α) (Life α) where
  init f := f = f₀
  step f es f' := ∃ opt life hist s', (loggerIn α opt life.mode).Run hist life.tr life.s ∧
    Linked life.s.vars life.saved ∧ (∀ fuel, life.s.destroy (fuel + 2) = some (s', none)) ∧ es = [life] ∧
    s'.backend.foldlM (MatioBackend.perform lib heap) ⟨some f, false⟩ = some ⟨some f', false⟩

namespace MatLogger2

/-- Calls for the samples of some variables, and for some containers. -/
structure CallsOf (vars : List (StdString × VariableBuffer α)) (saved : List (StdString × MatData α))
    (calls : List (BackendCall α)) : Prop where
  containers : containers calls = saved
  others : ∀ name, name ∉ vars.map Prod.fst → callsFor name calls = []
  each : ∀ name vb, (name, vb) ∈ vars → ∃ blocks, List.Forall₂ (IsWrite vb) blocks (callsFor name calls)

namespace CallsOf

variable {vars : List (StdString × VariableBuffer α)} {saved : List (StdString × MatData α)}
variable {calls : List (BackendCall α)} {call : BackendCall α} {name : StdString}

theorem sound (h : CallsOf vars saved calls) : ∀ call ∈ calls, call.Sound := by
  refine sound_of_calls fun n hn => ?_
  by_cases hm : n ∈ vars.map Prod.fst
  · obtain ⟨⟨n, vb⟩, hmem, rfl⟩ := List.mem_map.mp hm
    exact ⟨vb, h.each n vb hmem⟩
  · exact absurd (h.others n hm) hn

/-- A call is for a container that has been saved, or for the samples of a variable. -/
theorem target_cases (h : CallsOf vars saved calls) (hc : call ∈ calls) :
    (∃ p ∈ saved, call = .writeContainer p.1 p.2) ∨
      ∃ p ∈ vars, call ∈ callsFor p.1 calls ∧ call.target = cstr p.1 := by
  cases call with
  | writeContainer n d =>
    refine .inl ⟨(n, d), ?_, rfl⟩
    rw [← h.containers]
    exact List.mem_filterMap.mpr ⟨_, hc, rfl⟩
  | write n data rows cols slices =>
    have hmem : BackendCall.write n data rows cols slices ∈ callsFor n calls :=
      List.mem_filter.mpr ⟨hc, by simp [BackendCall.isFor]⟩
    have hkey : n ∈ vars.map Prod.fst := by
      by_contra hno
      rw [h.others n hno] at hmem
      cases hmem
    obtain ⟨p, hp, rfl⟩ := List.mem_map.mp hkey
    exact .inr ⟨p, hp, hmem, rfl⟩

end CallsOf

theorem callsOf_destroy {mode : Mode} {tr : List (Result α)} {s s' : MatLogger2 α}
    (acc : Accounted mode tr s) (hd : ∀ fuel, s.destroy (fuel + 2) = some (s', none)) :
    CallsOf s.vars (containers s.backend ++ s.matdataQueue) s'.backend := by
  obtain ⟨s'', hd', hcont, hother, hall⟩ := destroy_accounts acc
  cases (hd 0).symm.trans (hd' 0)
  refine ⟨hcont, hother, fun name vb hm => ?_⟩
  obtain ⟨b, blocks, -, -, -, hw⟩ := hall name vb hm
  exact ⟨_, hw⟩

end MatLogger2

namespace Life

variable {life : Life α} {name : StdString} {rows : ℕ} {s' : MatLogger2 α} {f f' : MatFile α}
variable {xs : List (List α)} {lib : Library α} {heap : Heap}

/-- What the logger has nothing for stays as it is. -/
theorem spares (acc : Accounted life.mode life.tr life.s)
    (hd : ∀ fuel, life.s.destroy (fuel + 2) = some (s', none)) {key : StdString}
    (hs : life.Spares key)
    (h : s'.backend.foldlM (MatioBackend.perform lib heap) ⟨some f, false⟩ = some ⟨some f', false⟩) :
    f'.find key = f.find key := by
  obtain ⟨f₁, hall', hframe⟩ := MatioBackend.perform_frame lib heap (callsOf_destroy acc hd).sound f
  cases hall'.symm.trans h
  refine (hframe key (.inl fun call hc ht => ?_)).1
  rcases (callsOf_destroy acc hd).target_cases hc with ⟨p, hp, rfl⟩ | ⟨⟨n, vb⟩, hp, hmem, hpt⟩
  · exact hs.saved p hp ht
  · obtain ⟨s'', hd', -, -, hall⟩ := destroy_accounts acc
    cases (hd 0).symm.trans (hd' 0)
    obtain ⟨b, blocks, a, -, hh, hw⟩ := hall n vb hp
    rw [hs.vars _ hp (hpt.symm.trans ht)] at hh
    rw [no_calls a.pos hh hw] at hmem
    cases hmem

end Life

section Logbook

variable {f₀ f : MatFile α} {hist : List (MatFile α)} {tr : List (Life α)}
variable {name : StdString} {rows : ℕ} {xs : List (List α)}

/-- Every logger can be destructed, whatever the file has. -/
theorem logbook_next {lib : Library α} {heap : Heap} (h : (logbook lib heap f₀).Run hist tr f)
    {opt : Options} {life : Life α} {hist' : List (MatLogger2 α)}
    (hrun : (loggerIn α opt life.mode).Run hist' life.tr life.s)
    (hlinks : Linked life.s.vars life.saved) :
    ∃ f', (logbook lib heap f₀).Run (hist ++ [f']) (tr ++ [life]) f' := by
  have acc := accounted_run hrun
  obtain ⟨s', hd, -⟩ := destroy_accounts acc
  obtain ⟨f', hfold, -⟩ := MatioBackend.perform_frame lib heap (callsOf_destroy acc hd).sound f
  exact ⟨f', h.next ⟨opt, life, hist', s', hrun, hlinks, hd, rfl, hfold⟩⟩

end Logbook

/-- The life of a logger with one variable, none of whose samples are dropped. -/
theorem life_samples {rows : ℕ} (hr : 0 < rows) (hlt : rows < 2 ^ 31)
    {name : StdString} (hname : IsLink (cstr name)) (xs : List (Eigen.MatrixXd ℕ))
    (hx : ∀ x ∈ xs, x.size = rows) (hle : xs.length ≤ 20) :
    ∃ life : Life ℕ, (∃ hist, (loggerIn ℕ ⟨20, 20⟩ life.mode).Run hist life.tr life.s) ∧
      Linked life.s.vars life.saved ∧ life.Serves name rows ∧
      acceptedFor name life.tr = xs.map (·.data) ∧ discardedFor name life.tr = [] ∧
      ∀ key, key ≠ cstr name → life.Spares key := by
  obtain ⟨hist, tr, s, vb, h, hs, hrows, hcols, hsize, hacc⟩ := run_samples ⟨20, 20⟩
    .producerConsumer zeroed name rows 1 20 (by omega) (by decide) (by decide) (by omega) xs
    (by simpa using hx)
  have hsize : vb.current.getSize = 1 := hsize
  have hdis := (accounted_run h).discardedFor_nil hs.mem (by
    rw [hacc, hsize, List.length_map]
    exact hle)
  have hvars : ∀ p ∈ s.vars, p = (name, vb) := by simp [hs.vars]
  have hsaved : containers s.backend ++ s.matdataQueue = [] := by
    simp [hs.backend, hs.matdataQueue, containers]
  refine ⟨⟨.producerConsumer, tr, s⟩, ⟨hist, h⟩, ⟨fun p hp => ?_, ?_⟩,
    ⟨fun v hv => ?_, fun p hp _ => ?_, ?_⟩, hacc, hdis, fun key hkey => ⟨fun p hp he => ?_, ?_⟩⟩
  · rwa [hvars p hp]
  · intro p hp
    rw [Life.saved, hsaved] at hp
    cases hp
  · cases hvars _ hv
    exact ⟨hcols, hrows⟩
  · rw [hvars p hp]
  · intro p hp
    rw [Life.saved, hsaved] at hp
    cases hp
  · rw [hvars p hp] at he
    exact absurd he.symm hkey
  · intro p hp
    rw [Life.saved, hsaved] at hp
    cases hp

/-- A file that another program has left. -/
def foreign : MatFile ℕ := ⟨[([121], .double [121] [1, 1] (some [9]))], []⟩

/-- Two loggers on that file, one after the other. -/
theorem logbook_two : ∃ (hist : List (MatFile ℕ)) (tr : List (Life ℕ)) (f : MatFile ℕ),
    (logbook .strict .zeros foreign).Run hist tr f ∧ (∀ life ∈ tr, life.Serves [120] 1) ∧
      (∀ life ∈ tr, life.Spares [121]) ∧
      tr.map (fun life => acceptedFor [120] life.tr) = [[[5], [6]], [[7]]] ∧
      ∀ life ∈ tr, discardedFor [120] life.tr = [] := by
  have hname : IsLink (cstr [120]) := by decide
  obtain ⟨l₁, ⟨h₁, hr₁⟩, hl₁, hs₁, ha₁, hd₁, hsp₁⟩ := life_samples Nat.one_pos (by decide) hname
    [⟨1, 1, [5], rfl⟩, ⟨1, 1, [6], rfl⟩] (by decide) (by decide)
  obtain ⟨l₂, ⟨h₂, hr₂⟩, hl₂, hs₂, ha₂, hd₂, hsp₂⟩ := life_samples Nat.one_pos (by decide) hname
    [⟨1, 1, [7], rfl⟩] (by decide) (by decide)
  have h₀ : (logbook .strict .zeros foreign).Run [foreign] [] foreign := .start rfl
  obtain ⟨f₁, hf₁⟩ := logbook_next h₀ hr₁ hl₁
  obtain ⟨f₂, hf₂⟩ := logbook_next hf₁ hr₂ hl₂
  refine ⟨_, _, f₂, hf₂, ?_, ?_, ?_, ?_⟩
  · simp [hs₁, hs₂]
  · simpa using ⟨hsp₁ [121] (by decide), hsp₂ [121] (by decide)⟩
  · simp [ha₁, ha₂]
  · simp [hd₁, hd₂]

section Logbook

variable {f₀ f : MatFile α} {hist : List (MatFile α)} {tr : List (Life α)}
variable {name : StdString} {rows : ℕ} {xs : List (List α)}

/-- What no logger has samples or containers for stays in the file as it was. -/
theorem logbook_spares {lib : Library α} {heap : Heap} (h : (logbook lib heap f₀).Run hist tr f)
    {key : StdString} (hs : ∀ life ∈ tr, life.Spares key) : f.find key = f₀.find key := by
  induction h with
  | start h0 => rw [h0]
  | next hr hstep ih =>
    obtain ⟨opt, life, hist', s', hrun, -, hd, rfl, hfold⟩ := hstep
    rw [Life.spares (accounted_run hrun) hd (hs life (by simp)) hfold]
    exact ih fun l hl => hs l (List.mem_append_left _ hl)

theorem logbook_spares_two : ∃ (tr : List (Life ℕ)) (f : MatFile ℕ),
    tr.map (fun life => acceptedFor [120] life.tr) = [[[5], [6]], [[7]]] ∧
      f.find [121] = foreign.find [121] := by
  obtain ⟨hist, tr, f, h, -, hs, hacc, -⟩ := logbook_two
  exact ⟨tr, f, hacc, logbook_spares h hs⟩

end Logbook

end XBot
