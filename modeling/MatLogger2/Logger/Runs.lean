import MatLogger2.Logger.Writes
import MatLogger2.Lib.Transition

/-! The logger used from one thread: any sequence of its calls, on any variables,
in either mode. Between two calls its variables are tidy. -/

namespace XBot

open VariableBuffer Transition

variable {α : Type}

namespace MatLogger2

inductive Op (α : Type)
  | create (mem : Allocator α) (varName : StdString) (rows cols bufferSize : ℤ)
  | add (mem : Allocator α) (varName : StdString) (data : Eigen.MatrixXd α)
  | save (varName : StdString) (varData : MatData α)
  | flushAvailableData
  | setBufferMode (mode : Mode)
  | setOnDataAvailableCallback (callback : Bool)

/-- What a call has returned. A call of `add` without a variable is `refused`; with
one it returns what `add_elem` does. -/
inductive Result (α : Type)
  | created (varName : StdString) (ok : Bool)
  | refused (varName : StdString) (data : Eigen.MatrixXd α)
  | added (varName : StdString) (data : Eigen.MatrixXd α) (ret : Except String Bool)
    (discarded : List (List α))
  | saved (ok : Bool)
  | flushed (ret : Except String ℤ)

def addResult (varName : StdString) (data : Eigen.MatrixXd α) : Option (Outcome α) → Result α
  | none => .refused varName data
  | some r => .added varName data r.ret r.discarded

def call (s : MatLogger2 α) : Op α → Option (MatLogger2 α × List (Result α))
  | .create mem varName rows cols bufferSize =>
    (s.create mem varName rows cols bufferSize).map fun r => (r.1, [.created varName r.2])
  | .add mem varName data =>
    (s.add mem varName data).map fun r => (r.1, [addResult varName data r.2])
  | .save varName varData =>
    let (s, ok) := s.save varName varData
    some (s, [.saved ok])
  | .flushAvailableData =>
    let (s, ret) := s.flushAvailableData
    some (s, [.flushed ret])
  | .setBufferMode mode => some (s.setBufferMode mode, [])
  | .setOnDataAvailableCallback callback => some (s.setOnDataAvailableCallback callback, [])

end MatLogger2

/-- A new logger and its calls; the map may order its variables anew at any time. -/
def logger (α : Type) (opt : Options) : System (MatLogger2 α) (MatLogger2.Result α) where
  init s := s = MatLogger2.make opt
  step s rs s' := ∃ op s₁ vars, s.call op = some (s₁, rs) ∧ vars.Perm s₁.vars ∧ s' = { s₁ with vars }

namespace MatLogger2

variable {s s' : MatLogger2 α} {mode : Mode} {vars vars' : List (StdString × VariableBuffer α)}

theorem Tidy.perm (t : Tidy mode vars) (h : vars'.Perm vars) : Tidy mode vars' :=
  ⟨(h.map Prod.fst).nodup_iff.mpr t.nodup, fun p hp => t.named p (h.subset hp),
    fun p hp => t.mode p (h.subset hp), fun p hp => t.shaped p (h.subset hp),
    fun p hp => t.whole p (h.subset hp)⟩

theorem whole_set {b : ℕ} {vb : VariableBuffer α} (w : Whole b vb) (mode : Mode) (callback : Bool) :
    Whole b ((vb.setOnBlockAvailable callback).setBufferMode mode) :=
  ⟨w.owned, w.size, w.column, w.filled⟩

theorem Tidy.setBufferMode (t : Tidy mode vars) (mode' : Mode) :
    Tidy mode' (vars.map fun p => (p.1, p.2.setBufferMode mode')) := by
  refine ⟨?_, ?_, ?_, ?_, ?_⟩
  · rw [List.map_map]
    exact t.nodup
  all_goals
    simp only [List.forall_mem_map]
    intro p hp
  · exact t.named p hp
  · rfl
  · exact ⟨(t.shaped p hp).rows, (t.shaped p hp).cols, (t.shaped p hp).size⟩
  · obtain ⟨b, hb, w⟩ := t.whole p hp
    exact ⟨b, hb, w.owned, w.size, w.column, w.filled⟩

theorem Tidy.setOnBlockAvailable (t : Tidy mode vars) (callback : Bool) :
    Tidy mode (vars.map fun p => (p.1, p.2.setOnBlockAvailable callback)) := by
  refine ⟨?_, ?_, ?_, ?_, ?_⟩
  · rw [List.map_map]
    exact t.nodup
  all_goals
    simp only [List.forall_mem_map]
    intro p hp
  · exact t.named p hp
  · exact t.mode p hp
  · exact ⟨(t.shaped p hp).rows, (t.shaped p hp).cols, (t.shaped p hp).size⟩
  · obtain ⟨b, hb, w⟩ := t.whole p hp
    exact ⟨b, hb, w.owned, w.size, w.column, w.filled⟩

theorem find_eq_none {name : StdString} : s.find name = none ↔ name ∉ s.vars.map Prod.fst := by
  rw [find, List.lookup_eq_none_iff]
  simp only [List.mem_map, not_exists, not_and, bne_iff_ne, ne_eq]
  exact ⟨fun h p hp he => h p hp he.symm, fun h p hp he => h p hp he.symm⟩

theorem mem_of_find {name : StdString} {vb : VariableBuffer α} (h : s.find name = some vb) :
    (name, vb) ∈ s.vars := by
  obtain ⟨l₁, l₂, hl, -⟩ := List.lookup_eq_some_iff.mp h
  rw [hl]
  simp

theorem find_of_mem {name : StdString} {vb : VariableBuffer α} (t : Tidy mode s.vars)
    (h : (name, vb) ∈ s.vars) : s.find name = some vb := by
  cases hf : s.find name with
  | none => exact absurd (List.mem_map_of_mem h) (find_eq_none.mp hf)
  | some vb' =>
    have hinj := List.inj_on_of_nodup_map t.nodup h (mem_of_find hf) rfl
    rw [(Prod.mk.inj hinj).2]

theorem Tidy.emplace (t : Tidy s.bufferMode s.vars) (mem : Allocator α) {varName : StdString}
    (hnew : s.find varName = none) {rows cols : ℕ} (hr : 0 < rows) (hc : 0 < cols)
    (hsize : rows * cols < 2 ^ 31) (bufferSize : ℕ) :
    Tidy s.bufferMode (s.emplace mem varName rows cols bufferSize).vars := by
  obtain ⟨w, -⟩ := whole_make varName rows cols (max 1 (bufferSize / NUM_BLOCKS)) (le_max_left 1 _)
    (mem _ _)
  obtain ⟨hname, hrows, hcols⟩ := make_dims varName rows cols (max 1 (bufferSize / NUM_BLOCKS))
    (le_max_left 1 _) (mem _ _)
  refine ⟨List.nodup_cons.mpr ⟨find_eq_none.mp hnew, t.nodup⟩, ?_, ?_, ?_, ?_⟩
  all_goals
    simp only [MatLogger2.emplace, List.forall_mem_cons]
    generalize VariableBuffer.make varName rows cols _ _ (mem _ _) = vb at w hname hrows hcols ⊢
  · exact ⟨hname, t.named⟩
  · exact ⟨rfl, t.mode⟩
  · refine ⟨⟨?_, ?_, ?_⟩, t.shaped⟩
    · exact hrows.symm ▸ hr
    · exact hcols.symm ▸ hc
    · exact (congrArg₂ (· * ·) hrows hcols).trans_lt hsize
  · exact ⟨⟨_, le_max_left 1 _, whole_set w _ _⟩, t.whole⟩

theorem update_keys (s : MatLogger2 α) (name : StdString) (vb : VariableBuffer α) :
    (s.update name vb).vars.map Prod.fst = s.vars.map Prod.fst := by
  rw [MatLogger2.update, List.map_map]
  refine List.map_congr_left fun p _ => ?_
  simp only [Function.comp]
  split_ifs <;> rfl

theorem find_update_of_ne {name name' : StdString} {vb : VariableBuffer α} (h : name' ≠ name) :
    (s.update name vb).find name' = s.find name' := by
  rw [MatLogger2.find, MatLogger2.find, MatLogger2.update]
  induction s.vars with
  | nil => rfl
  | cons p vars ih =>
    obtain ⟨k, v⟩ := p
    rw [List.map_cons]
    by_cases hk : k = name
    · have hne : (name' == k) = false := beq_eq_false_iff_ne.mpr (hk ▸ h)
      rw [if_pos hk, List.lookup_cons, List.lookup_cons, hne]
      exact ih
    · rw [if_neg hk, List.lookup_cons, List.lookup_cons, ih]

theorem Tidy.update (t : Tidy mode s.vars) {name : StdString} {vb vb' : VariableBuffer α}
    (hf : s.find name = some vb) (hsame : SameVariable vb vb')
    (hw : ∀ b, 0 < b → Whole b vb → Whole b vb') : Tidy mode (s.update name vb').vars := by
  have hmem := mem_of_find hf
  refine ⟨?_, ?_, ?_, ?_, ?_⟩
  · rw [update_keys]
    exact t.nodup
  all_goals
    simp only [MatLogger2.update, List.forall_mem_map]
    intro p hp
    split_ifs with hn
  · rw [hsame.name, hn]
    exact t.named _ hmem
  · exact t.named p hp
  · rw [hsame.bufferMode]
    exact t.mode _ hmem
  · exact t.mode p hp
  · exact (t.shaped _ hmem).congr hsame
  · exact t.shaped p hp
  · obtain ⟨b, hb, w⟩ := t.whole _ hmem
    exact ⟨b, hb, hw b hb w⟩
  · exact t.whole p hp

theorem toNat_mul_lt {rows cols : ℤ} (hr : 0 < rows) (hc : 0 < cols) (h : rows * cols < 2 ^ 31) :
    rows.toNat * cols.toNat < 2 ^ 31 := by
  have he : ((rows.toNat * cols.toNat : ℕ) : ℤ) = rows * cols := by
    rw [Nat.cast_mul, Int.toNat_of_nonneg hr.le, Int.toNat_of_nonneg hc.le]
  omega

theorem create_tidy (t : Tidy s.bufferMode s.vars) {mem : Allocator α} {varName : StdString}
    {rows cols bufferSize : ℤ} {ok : Bool}
    (h : s.create mem varName rows cols bufferSize = some (s', ok)) :
    s'.bufferMode = s.bufferMode ∧ Tidy s.bufferMode s'.vars := by
  cases ok with
  | false =>
    obtain rfl := create_false h
    exact ⟨rfl, t⟩
  | true =>
    obtain ⟨hnew, hr, hc, hlt, rfl⟩ := create_true h
    exact ⟨rfl, t.emplace mem hnew (Int.pos_iff_toNat_pos.mp hr) (Int.pos_iff_toNat_pos.mp hc)
      (toNat_mul_lt hr hc hlt) _⟩

theorem findOrCreate_found {name : StdString} {vb : VariableBuffer α} (hf : s.find name = some vb)
    (mem : Allocator α) (rows cols : ℤ) : s.findOrCreate mem name rows cols = some (s, some vb) := by
  rw [findOrCreate]
  split
  · rename_i vb' hf'
    rw [hf] at hf'
    rw [Option.some.inj hf']
  · rename_i hf'
    rw [hf] at hf'
    cases hf'

/-- What `find_or_create` can have done. -/
theorem findOrCreate_cases {mem : Allocator α} {varName : StdString} {rows cols : ℤ}
    {found : Option (VariableBuffer α)}
    (h : s.findOrCreate mem varName rows cols = some (s', found)) :
    (s' = s ∧ found = s.find varName ∧ (found = none → s.create mem varName rows cols =
      some (s, false))) ∨
    (s.create mem varName rows cols = some (s', true) ∧ found = s'.find varName ∧ found.isSome) := by
  rw [findOrCreate] at h
  split at h
  · rename_i vb hf
    cases h
    exact .inl ⟨rfl, hf.symm, by simp⟩
  · rename_i hf
    split at h
    · cases h
    · rename_i s₁ hc
      cases h
      obtain rfl := create_false hc
      exact .inl ⟨rfl, hf.symm, fun _ => hc⟩
    · rename_i s₁ hc
      rw [findOrCreate] at h
      split at h
      · rename_i vb hf'
        cases h
        exact .inr ⟨hc, hf'.symm, rfl⟩
      · rename_i hf'
        obtain ⟨-, -, -, -, rfl⟩ := create_true hc
        have := s.find_emplace mem varName rows.toNat cols.toNat
          (bufferSizeFor s.opt rows cols (-1)).toNat
        rw [hf'] at this
        cases this

theorem findOrCreate_tidy (t : Tidy s.bufferMode s.vars) {mem : Allocator α} {varName : StdString}
    {rows cols : ℤ} {found : Option (VariableBuffer α)}
    (h : s.findOrCreate mem varName rows cols = some (s', found)) :
    s'.bufferMode = s.bufferMode ∧ Tidy s.bufferMode s'.vars ∧ found = s'.find varName := by
  rcases findOrCreate_cases h with ⟨rfl, hf, -⟩ | ⟨hc, hf, -⟩
  · exact ⟨rfl, t, hf⟩
  · obtain ⟨hm, t'⟩ := create_tidy t hc
    exact ⟨hm, t', hf⟩

theorem addElem_whole {b : ℕ} {vb : VariableBuffer α} (hb : 0 < b) (w : Whole b vb)
    (data : Eigen.MatrixXd α) :
    Whole b (vb.addElem data).vb ∧ SameVariable vb (vb.addElem data).vb := by
  by_cases h : data.size = vb.rows * vb.cols
  · obtain ⟨-, -, hbecomes⟩ := addElem_spec w hb h
    exact ⟨hbecomes.whole, hbecomes.same⟩
  · rw [addElem_refused h]
    exact ⟨w, .refl vb⟩

theorem add_tidy (t : Tidy s.bufferMode s.vars) {mem : Allocator α} {varName : StdString}
    {data : Eigen.MatrixXd α} {ret : Option (Outcome α)}
    (h : s.add mem varName data = some (s', ret)) :
    s'.bufferMode = s.bufferMode ∧ Tidy s.bufferMode s'.vars := by
  unfold add at h
  split at h
  · cases h
  · rename_i s₁ hf
    cases h
    obtain ⟨hm, t', -⟩ := findOrCreate_tidy t hf
    exact ⟨hm, t'⟩
  · rename_i s₁ vb hf
    cases h
    obtain ⟨hm, t', hfound⟩ := findOrCreate_tidy t hf
    obtain ⟨b, hb, w⟩ := t'.whole _ (mem_of_find hfound.symm)
    exact ⟨hm, t'.update hfound.symm (addElem_whole hb w data).2 fun b hb w =>
      (addElem_whole hb w data).1⟩

/-- In circular mode the first variable throws, and nothing has been read. -/
theorem writeVars_circular (t : Tidy .circularBuffer vars) (acc : Written α) :
    ∃ what, writeVars vars acc = (vars, acc, what) := by
  cases vars with
  | nil => exact ⟨none, rfl⟩
  | cons p vars =>
    obtain ⟨name, vb⟩ := p
    have hm : vb.overwrites = true := decide_eq_true (t.mode (name, vb) List.mem_cons_self)
    have he : writeBlocks vb acc =
        (vb, acc, some "cannot call read_block() when in circular_buffer mode!") := by
      rw [writeBlocks]
      split
      · rename_i he
        rw [readBlock_circular hm] at he
        cases he
        rfl
      · rename_i he
        rw [readBlock_circular hm] at he
        cases he
      · rename_i he
        rw [readBlock_circular hm] at he
        cases he
    exact ⟨_, by simp only [writeVars, he]; rfl⟩

theorem flushAvailableData_tidy (t : Tidy s.bufferMode s.vars) :
    Tidy s.bufferMode (s.flushAvailableData).1.vars := by
  have hv : (s.flushAvailableData).1.vars = (writeVars s.vars ⟨[], 0⟩).1 := rfl
  rw [hv]
  cases hm : s.bufferMode with
  | producerConsumer =>
    rw [hm] at t
    obtain ⟨vars', acc', he, hev, -⟩ := writeVars_spec t ⟨[], 0⟩
    rw [he]
    exact t.evolves hev
  | circularBuffer =>
    rw [hm] at t
    obtain ⟨what, he⟩ := writeVars_circular t ⟨[], 0⟩
    rw [he]
    exact t

theorem call_tidy (t : Tidy s.bufferMode s.vars) {op : Op α} {rs : List (Result α)}
    (h : s.call op = some (s', rs)) : Tidy s'.bufferMode s'.vars := by
  cases op with
  | create mem varName rows cols bufferSize =>
    obtain ⟨⟨s₁, ok⟩, hc, he⟩ := Option.map_eq_some_iff.mp h
    cases he
    obtain ⟨hm, t'⟩ := create_tidy t hc
    exact hm ▸ t'
  | add mem varName data =>
    obtain ⟨⟨s₁, ret⟩, hc, he⟩ := Option.map_eq_some_iff.mp h
    cases he
    obtain ⟨hm, t'⟩ := add_tidy t hc
    exact hm ▸ t'
  | save varName varData => cases h; exact t
  | flushAvailableData => cases h; exact flushAvailableData_tidy t
  | setBufferMode mode => cases h; exact t.setBufferMode mode
  | setOnDataAvailableCallback callback => cases h; exact t.setOnBlockAvailable callback

theorem reachable_tidy {opt : Options} (h : (logger α opt).Reachable s) :
    Tidy s.bufferMode s.vars := by
  refine h.inv (I := fun s => Tidy s.bufferMode s.vars) ?_ ?_
  · rintro s rfl
    exact ⟨.nil, nofun, nofun, nofun, nofun⟩
  · rintro s rs s' t ⟨op, s₁, vars, hc, hp, rfl⟩
    exact (call_tidy t hc).perm hp

end MatLogger2
end XBot
