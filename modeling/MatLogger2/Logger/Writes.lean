import MatLogger2.Logger.Model
import MatLogger2.VarBuffer.CallSpecs

/-! What one pass over the variables hands to the backend: for each variable one
call of `write` for each block of its read queue. -/

namespace XBot

open VariableBuffer

variable {α : Type}

/-- A call of `write` for the variable of that name. -/
def BackendCall.isFor (name : StdString) : BackendCall α → Bool
  | .write varName _ _ _ _ => varName = name
  | .writeContainer _ _ => false

def BackendCall.container : BackendCall α → Option (StdString × MatData α)
  | .write _ _ _ _ _ => none
  | .writeContainer name data => some (name, data)

def containers (calls : List (BackendCall α)) : List (StdString × MatData α) :=
  calls.filterMap BackendCall.container

@[simp] theorem containers_append (calls calls' : List (BackendCall α)) :
    containers (calls ++ calls') = containers calls ++ containers calls' :=
  List.filterMap_append

def callsFor (name : StdString) (calls : List (BackendCall α)) : List (BackendCall α) :=
  calls.filter (·.isFor name)

@[simp] theorem callsFor_nil (name : StdString) : callsFor name ([] : List (BackendCall α)) = [] :=
  rfl

@[simp] theorem callsFor_append (name : StdString) (calls calls' : List (BackendCall α)) :
    callsFor name (calls ++ calls') = callsFor name calls ++ callsFor name calls' :=
  List.filter_append ..

/-- A call of `write` with the samples of a block, at the start of memory whose
columns have the shape of the variable. -/
def IsWrite (vb : VariableBuffer α) (block : List (List α)) (call : BackendCall α) : Prop :=
  ∃ data : List (List α), call = MatLogger2.writeCall vb data block.length ∧
    data.take block.length = block ∧ ∀ col ∈ data, col.length = vb.rows * vb.cols

theorem writeCall_congr {vb vb' : VariableBuffer α} (h : SameVariable vb vb')
    (data : List (List α)) (valid : ℕ) :
    MatLogger2.writeCall vb' data valid = MatLogger2.writeCall vb data valid := by
  simp only [MatLogger2.writeCall, h.name, h.rows, h.cols]

theorem IsWrite.congr {vb vb' : VariableBuffer α} (h : SameVariable vb vb')
    {block : List (List α)} {call : BackendCall α} (hw : IsWrite vb' block call) :
    IsWrite vb block call := by
  obtain ⟨data, rfl, ht, hc⟩ := hw
  exact ⟨data, writeCall_congr h _ _, ht, by rwa [h.rows, h.cols] at hc⟩

theorem isFor_writeCall (vb : VariableBuffer α) (data : List (List α)) (valid : ℕ)
    (name : StdString) : (MatLogger2.writeCall vb data valid).isFor name = decide (vb.name = name) := by
  unfold MatLogger2.writeCall
  split_ifs <;> rfl

theorem isWrite_of_mem {vb : VariableBuffer α} {blocks : List (List (List α))}
    {calls : List (BackendCall α)} (h : List.Forall₂ (IsWrite vb) blocks calls) :
    ∀ call ∈ calls, ∃ block, IsWrite vb block call := by
  induction h with
  | nil => nofun
  | @cons block call _ _ hw _ ih =>
    rw [List.forall_mem_cons]
    exact ⟨⟨block, hw⟩, ih⟩

theorem callsFor_isWrite {vb : VariableBuffer α} {blocks : List (List (List α))}
    {calls : List (BackendCall α)} (h : List.Forall₂ (IsWrite vb) blocks calls) (name : StdString) :
    callsFor name calls = if vb.name = name then calls else [] := by
  have hall : ∀ call ∈ calls, call.isFor name = decide (vb.name = name) := by
    intro call hc
    obtain ⟨block, data, rfl, -⟩ := isWrite_of_mem h call hc
    exact isFor_writeCall vb data _ name
  split_ifs with hn
  · exact List.filter_eq_self.mpr fun call hc => by rw [hall call hc, decide_eq_true hn]
  · exact List.filter_eq_nil_iff.mpr fun call hc => by simp [hall call hc, hn]

namespace MatLogger2

variable {b : ℕ} {vb : VariableBuffer α}

/-- A pass over one variable writes its queued blocks in order and frees them. -/
theorem writeBlocks_spec (w : Whole b vb) (hm : vb.overwrites = false) (acc : Written α) :
    ∃ vb' acc' calls, writeBlocks vb acc = (vb', acc', none) ∧
      Becomes b vb vb' vb.log.drain ∧
      acc'.calls = acc.calls ++ calls ∧ List.Forall₂ (IsWrite vb) vb.log.queue calls ∧
      (vb.log.queue = [] → acc' = acc) := by
  unfold BlockLog.drain
  generalize hq : vb.log.queue = queue
  induction queue generalizing vb acc with
  | nil =>
    refine ⟨vb, acc, [], ?_, ⟨w, ?_, .refl vb⟩, by simp, .nil, fun _ => rfl⟩
    · rw [writeBlocks]
      split
      · rename_i he
        simp [readBlock_nil hm hq] at he
      · rename_i he
        simp only [readBlock_nil hm hq, Prod.mk.injEq] at he
        rw [he.1]
      · rename_i he
        simp [readBlock_nil hm hq] at he
    · show vb.log = ⟨[], vb.log.current, vb.log.free⟩
      rw [← hq]
  | cons block rest ih =>
    obtain ⟨data, hret, htake, hcol, h⟩ := readBlock_cons w hm hq
    have hne : 0 < block.length := by
      have := (w.fits.queued block (by simp [hq])).1
      exact List.length_pos_iff.mpr this
    have hm' : vb.readBlock.1.overwrites = false := by
      simpa [overwrites, h.same.bufferMode] using hm
    have hcall := writeCall_congr h.same data block.length
    obtain ⟨vb', acc', calls, he, hbecomes, hcalls, hwrites, -⟩ := ih h.whole hm'
      { calls := acc.calls ++ [writeCall vb.readBlock.1 data block.length]
        bytes := toInt (acc.bytes + vb.rows * vb.cols * block.length * 8) } (by rw [h.log])
    refine ⟨vb', acc', writeCall vb data block.length :: calls, ?_, ⟨hbecomes.whole, ?_, ?_⟩, ?_, ?_,
      nofun⟩
    · rw [writeBlocks]
      split
      · rename_i he'
        simp [Prod.ext_iff, hret] at he'
      · rename_i he'
        simp [Prod.ext_iff, hret] at he'
      · rename_i he'
        obtain ⟨rfl, he'⟩ := Prod.ext_iff.mp he'
        rw [hret, Except.ok.injEq, ReadResult.mk.injEq, Option.some.injEq] at he'
        obtain ⟨rfl, rfl⟩ := he'
        rw [if_pos hne]
        exact he
    · rw [hbecomes.log, h.log]
      simp only [List.length_cons, BlockLog.mk.injEq, true_and]
      omega
    · exact h.same.trans hbecomes.same
    · rw [hcalls, hcall]
      simp
    · refine .cons ⟨data, rfl, htake, hcol⟩ ?_
      exact hwrites.imp fun _ _ hw => hw.congr h.same

/-- The dimensions that `create` admits. -/
structure Shaped (vb : VariableBuffer α) : Prop where
  rows : 0 < vb.rows
  cols : 0 < vb.cols
  size : vb.rows * vb.cols < 2 ^ 31

/-- What holds of the variables between two calls of the logger. -/
structure Tidy (mode : Mode) (vars : List (StdString × VariableBuffer α)) : Prop where
  nodup : (vars.map Prod.fst).Nodup
  named : ∀ p ∈ vars, p.2.name = p.1
  mode : ∀ p ∈ vars, p.2.bufferMode = mode
  shaped : ∀ p ∈ vars, Shaped p.2
  whole : ∀ p ∈ vars, ∃ b, 0 < b ∧ Whole b p.2

theorem Shaped.congr {vb vb' : VariableBuffer α} (h : Shaped vb) (hs : SameVariable vb vb') :
    Shaped vb' :=
  ⟨hs.rows ▸ h.rows, hs.cols ▸ h.cols, by rw [hs.rows, hs.cols]; exact h.size⟩

/-- One variable before and after a pass that does `f` to its log. -/
def Evolves (f : BlockLog (List α) → BlockLog (List α)) (p p' : StdString × VariableBuffer α) : Prop :=
  p'.1 = p.1 ∧ ∀ b, Whole b p.2 → Becomes b p.2 p'.2 (f p.2.log)

variable {mode : Mode} {vars vars' : List (StdString × VariableBuffer α)}
variable {f : BlockLog (List α) → BlockLog (List α)}

theorem Tidy.tail {p : StdString × VariableBuffer α} (t : Tidy mode (p :: vars)) :
    Tidy mode vars :=
  ⟨(List.nodup_cons.mp t.nodup).2, fun q hq => t.named q (List.mem_cons_of_mem p hq),
    fun q hq => t.mode q (List.mem_cons_of_mem p hq),
    fun q hq => t.shaped q (List.mem_cons_of_mem p hq),
    fun q hq => t.whole q (List.mem_cons_of_mem p hq)⟩

theorem Tidy.head_notMem {name : StdString} (t : Tidy mode ((name, vb) :: vars)) :
    name ∉ vars.map Prod.fst := (List.nodup_cons.mp t.nodup).1

theorem evolves_keys (h : List.Forall₂ (Evolves f) vars vars') :
    vars'.map Prod.fst = vars.map Prod.fst := by
  induction h with
  | nil => rfl
  | cons he _ ih => rw [List.map_cons, List.map_cons, he.1, ih]

theorem evolves_mem (h : List.Forall₂ (Evolves f) vars vars') {name : StdString}
    {vb : VariableBuffer α} (hm : (name, vb) ∈ vars) :
    ∃ vb', (name, vb') ∈ vars' ∧ ∀ b, Whole b vb → Becomes b vb vb' (f vb.log) := by
  induction h with
  | nil => cases hm
  | @cons p p' vars vars' he _ ih =>
    rcases List.mem_cons.mp hm with rfl | hm
    · exact ⟨p'.2, List.mem_cons.mpr (.inl (Prod.ext he.1.symm rfl)), he.2⟩
    · obtain ⟨vb', hm', hb⟩ := ih hm
      exact ⟨vb', List.mem_cons_of_mem p' hm', hb⟩

/-- Every variable after a pass comes from one before it. -/
theorem evolves_mem' (h : List.Forall₂ (Evolves f) vars vars')
    {p' : StdString × VariableBuffer α} (hm : p' ∈ vars') : ∃ p ∈ vars, Evolves f p p' := by
  induction h with
  | nil => cases hm
  | @cons p q vars vars' he _ ih =>
    rcases List.mem_cons.mp hm with rfl | hm
    · exact ⟨p, List.mem_cons_self, he⟩
    · obtain ⟨p, hp, hpe⟩ := ih hm
      exact ⟨p, List.mem_cons_of_mem _ hp, hpe⟩

theorem Tidy.evolves (t : Tidy mode vars) (h : List.Forall₂ (Evolves f) vars vars') :
    Tidy mode vars' := by
  have hall : ∀ p' ∈ vars', p'.2.name = p'.1 ∧ p'.2.bufferMode = mode ∧ Shaped p'.2 ∧
      ∃ b, 0 < b ∧ Whole b p'.2 := by
    intro p' hp'
    obtain ⟨p, hp, hkey, hb⟩ := evolves_mem' h hp'
    obtain ⟨b, hpos, w⟩ := t.whole p hp
    have hbecomes := hb b w
    exact ⟨(hbecomes.same.name.trans (t.named p hp)).trans hkey.symm,
      hbecomes.same.bufferMode.trans (t.mode p hp), (t.shaped p hp).congr hbecomes.same, b, hpos,
      hbecomes.whole⟩
  exact ⟨by rw [evolves_keys h]; exact t.nodup, fun p hp => (hall p hp).1,
    fun p hp => (hall p hp).2.1, fun p hp => (hall p hp).2.2.1, fun p hp => (hall p hp).2.2.2⟩

theorem overwrites_of_mode (h : vb.bufferMode = .producerConsumer) : vb.overwrites = false := by
  simp [overwrites, h]

/-- The calls that a pass adds to those made before it. -/
structure Wrote (vars : List (StdString × VariableBuffer α)) (acc acc' : Written α) : Prop where
  each : ∀ name vb, (name, vb) ∈ vars → ∃ calls,
    callsFor name acc'.calls = callsFor name acc.calls ++ calls ∧
      List.Forall₂ (IsWrite vb) vb.log.queue calls
  other : ∀ name, name ∉ vars.map Prod.fst → callsFor name acc'.calls = callsFor name acc.calls
  containers : containers acc'.calls = containers acc.calls
  nothing : (∀ p ∈ vars, p.2.log.queue = []) → acc' = acc

theorem containers_isWrite {blocks : List (List (List α))} {calls : List (BackendCall α)}
    (h : List.Forall₂ (IsWrite vb) blocks calls) : containers calls = [] := by
  refine List.filterMap_eq_nil_iff.mpr fun call hc => ?_
  obtain ⟨block, data, rfl, -⟩ := isWrite_of_mem h call hc
  unfold writeCall
  split_ifs <;> rfl

theorem writeVars_spec (t : Tidy .producerConsumer vars) (acc : Written α) :
    ∃ vars' acc', writeVars vars acc = (vars', acc', none) ∧
      List.Forall₂ (Evolves BlockLog.drain) vars vars' ∧ Wrote vars acc acc' := by
  induction vars generalizing acc with
  | nil =>
    exact ⟨[], acc, rfl, .nil, ⟨nofun, fun _ _ => rfl, rfl, fun _ => rfl⟩⟩
  | cons p vars ih =>
    obtain ⟨name, vb⟩ := p
    obtain ⟨b, -, w⟩ := t.whole (name, vb) List.mem_cons_self
    have hname : vb.name = name := t.named (name, vb) List.mem_cons_self
    have hm := overwrites_of_mode (t.mode (name, vb) List.mem_cons_self)
    obtain ⟨vb', acc₁, calls, he₁, hb, hcalls, hwrites, hnone⟩ := writeBlocks_spec w hm acc
    obtain ⟨vars', acc₂, he₂, hev, hw⟩ := ih t.tail acc₁
    have hfor : ∀ n, callsFor n calls = if name = n then calls else [] := by
      intro n
      rw [callsFor_isWrite hwrites, hname]
    refine ⟨(name, vb') :: vars', acc₂, by simp only [writeVars, he₁, he₂], .cons ⟨rfl, ?_⟩ hev,
      fun n v hmem => ?_, fun n hn => ?_, ?_, fun hq => ?_⟩
    · -- the block size of a variable is determined by its blocks
      intro b' w'
      have : b' = b := (w'.size 0).symm.trans (w.size 0)
      exact this ▸ hb
    · rcases List.mem_cons.mp hmem with he | hmem
      · cases he
        refine ⟨calls, ?_, hwrites⟩
        rw [hw.other name t.head_notMem, hcalls, callsFor_append, hfor, if_pos rfl]
      · have hne : name ≠ n := by
          rintro rfl
          exact t.head_notMem (List.mem_map_of_mem hmem)
        obtain ⟨calls', hc, hws⟩ := hw.each n v hmem
        refine ⟨calls', ?_, hws⟩
        rw [hc, hcalls, callsFor_append, hfor, if_neg hne, List.append_nil]
    · rw [List.map_cons, List.mem_cons, not_or] at hn
      rw [hw.other n hn.2, hcalls, callsFor_append, hfor, if_neg (Ne.symm hn.1), List.append_nil]
    · rw [hw.containers, hcalls, containers_append, containers_isWrite hwrites, List.append_nil]
    · rw [hw.nothing fun q hq' => hq q (List.mem_cons_of_mem _ hq'),
        hnone (hq (name, vb) List.mem_cons_self)]

/-- `flush_to_queue_all` flushes every log, and reports whether all succeeded. -/
theorem flushVars_spec (t : Tidy .producerConsumer vars) (ret : Bool) :
    ∃ vars' ok, flushVars vars ret = (vars', .ok ok) ∧
      List.Forall₂ (Evolves fun l => (l.flush false).1) vars vars' ∧
      (ok = true ↔ ret = true ∧ ∀ p ∈ vars, (p.2.log.flush false).2 = true) := by
  induction vars generalizing ret with
  | nil => exact ⟨[], ret, rfl, .nil, by simp⟩
  | cons p vars ih =>
    obtain ⟨name, vb⟩ := p
    obtain ⟨b, -, w⟩ := t.whole (name, vb) List.mem_cons_self
    have hm := overwrites_of_mode (t.mode (name, vb) List.mem_cons_self)
    obtain ⟨hret, hb⟩ := flushToQueue_spec w
    rw [hm] at hret hb
    obtain ⟨vars', ok, he, hev, hok⟩ := ih t.tail ((vb.log.flush false).2 && ret)
    refine ⟨(name, vb.flushToQueue.vb) :: vars', ok, by simp only [flushVars, hret, he],
      .cons ⟨rfl, ?_⟩ hev, ?_⟩
    · intro b' w'
      have : b' = b := (w'.size 0).symm.trans (w.size 0)
      exact this ▸ hb
    · rw [hok, Bool.and_eq_true, List.forall_mem_cons]
      tauto

end MatLogger2
end XBot
