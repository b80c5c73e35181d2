import MatLogger2.VarBuffer.Linearizable

/-! The matrices that a variable hands out have its shape, and outside all calls a variable
that two threads have shared is as whole as one that a single thread has used. -/

namespace XBot

open Spsc Transition VariableBuffer

variable {α : Type}

namespace Consumer

/-- The matrix into which the block has been copied. -/
def data : Consumer α → Option (List (List α))
  | .copyValid _ data | .reset _ data _ => some data
  | .pushWrite _ data _ | .pushRead _ data _ _ => some data
  | .pushCopy _ data _ _ | .pushStore _ data _ _ => some data
  | .idle | .popWrite | .popRead _ | .popCopy _ | .popStore _ _ | .copyData _ | .crashed => none

end Consumer

/-- All columns, in the blocks and in the consumer's matrix, are of one length. -/
structure Columns (n : ℕ) (s : Threads α) : Prop where
  block : ∀ i, ∀ col ∈ (s.vb.block i).buf, col.length = n
  data : ∀ data, s.consumer.data = some data → ∀ col ∈ data, col.length = n
  counted : s.consumer.Counted

/-- A result of `read_block` has columns of that length, and at least the valid ones. -/
structure ReadShaped (n : ℕ) (r : ReadResult α) : Prop where
  none : r.data = none → r.validElements = 0
  some : ∀ data, r.data = some data →
    (∀ col ∈ data, col.length = n) ∧ r.validElements ≤ data.length

/-- The results of `read_block` among some events. -/
def Event.result : Event α → Option (ReadResult α)
  | .read r => some r
  | _ => none

def readResults (es : List (Event α)) : List (ReadResult α) := es.filterMap Event.result

theorem readResults_append (es es' : List (Event α)) :
    readResults (es ++ es') = readResults es ++ readResults es' := List.filterMap_append

section Step

variable {n b : ℕ} {tr es : List (Event α)} {s s' : Threads α}

theorem flushStep_same (vb : VariableBuffer α) (pc : FlushPc) :
    SameVariable vb (vb.flushStep pc : _ × _ × List (Event α)).1 := by
  fun_cases VariableBuffer.flushStep vb pc <;> exact ⟨rfl, rfl, rfl, rfl, rfl⟩

/-- No step of either thread changes the variable's name or shape. -/
theorem step_same {a : Act α} (h : s.step a = some (s', es)) : SameVariable s.vb s'.vb := by
  obtain ⟨vb, p, c⟩ := s
  cases a with
  | callAddElem data => cases p <;> cases h; exact .refl vb
  | callFlushToQueue => cases p <;> cases h; exact .refl vb
  | producer =>
    cases p with
    | adding data =>
      simp only [Threads.step, Threads.producerStep] at h
      split_ifs at h
      · cases h
        exact .refl vb
      · cases hadd : vb.current.add data <;> rw [hadd] at h <;> cases h <;>
          exact ⟨rfl, rfl, rfl, rfl, rfl⟩
    | flushing caller pc =>
      cases h
      exact flushStep_same vb pc
    | resetting data ok =>
      cases h
      exact ⟨rfl, rfl, rfl, rfl, rfl⟩
    | _ => cases h
  | callReadBlock =>
    cases c with
    | idle =>
      cases hm : vb.bufferMode <;> simp only [Threads.step, hm] at h <;> cases h <;> exact .refl vb
    | _ => cases h
  | consumer =>
    cases c with
    | idle => cases h
    | crashed => cases h
    | popRead w =>
      simp only [Threads.step, Threads.consumerStep] at h
      split_ifs at h <;> cases h <;> exact .refl vb
    | popCopy r =>
      simp only [Threads.step, Threads.consumerStep] at h
      cases hi : vb.queue.readQueue.cell r <;> rw [hi] at h <;> cases h <;> exact .refl vb
    | pushRead i data valid w =>
      simp only [Threads.step, Threads.consumerStep] at h
      split_ifs at h <;> cases h <;> exact .refl vb
    | _ => cases h; exact ⟨rfl, rfl, rfl, rfl, rfl⟩

theorem flushStep_buf (vb : VariableBuffer α) (pc : FlushPc) (i : BlockId) :
    ((vb.flushStep pc : _ × _ × List (Event α)).1.block i).buf = (vb.block i).buf := by
  have hreset : ∀ j, ((vb.setBlock j (vb.block j).reset).block i).buf = (vb.block i).buf := by
    intro j
    rcases eq_or_ne i j with rfl | hne
    · simp [VariableBuffer.setBlock]
    · rw [vb.setBlock_of_ne hne]
  fun_cases VariableBuffer.flushStep vb pc <;> first | rfl | exact hreset _

/-- A step of the producer returns no block. -/
theorem results_producer (h : s.producerStep = some (s', es)) : readResults es = [] := by
  refine List.filterMap_eq_nil_iff.mpr fun e he => ?_
  obtain ⟨vb, p, c⟩ := s
  cases p with
  | idle => cases h
  | thrown what => cases h
  | crashed => cases h
  | adding data =>
    simp only [Threads.producerStep] at h
    split_ifs at h
    · cases h
      rw [List.mem_singleton.mp he]
      rfl
    · cases hadd : vb.current.add data <;> rw [hadd] at h <;> cases h
      · cases he
      · rw [List.mem_singleton.mp he]
        rfl
  | flushing caller pc =>
    have hafter : ∀ next, ∀ e ∈ (Threads.afterFlush caller next).2, e.result = none := by
      intro next e he
      cases next with
      | ret ok =>
        cases caller with
        | none =>
          rw [List.mem_singleton.mp he]
          rfl
        | some data => cases he
      | _ => cases he
    cases h
    rcases List.mem_append.mp he with he | he
    · rcases Owned.flushStep_events vb pc he with ⟨i, rfl⟩ | ⟨info, rfl⟩ <;> rfl
    · exact hafter _ e he
  | resetting data ok =>
    cases h
    rw [List.mem_singleton.mp he]
    rfl

namespace Columns

variable {vb : VariableBuffer α} {p : Producer α} {c : Consumer α}

theorem producerStep (cols : Columns n s) (hdim : s.vb.rows * s.vb.cols = n)
    (h : s.producerStep = some (s', es)) : Columns n s' := by
  obtain ⟨vb, p, c⟩ := s
  cases p with
  | idle => cases h
  | thrown what => cases h
  | crashed => cases h
  | adding data =>
    simp only [Threads.producerStep] at h
    split_ifs at h with hsize
    · cases h
      exact ⟨cols.block, cols.data, cols.counted⟩
    · cases hadd : vb.current.add data with
      | none =>
        rw [hadd] at h
        cases h
        exact ⟨cols.block, cols.data, cols.counted⟩
      | some x =>
        rw [hadd] at h
        cases h
        have hx := BufferBlock.column_add hadd (cols.block _) ((not_not.mp hsize).trans hdim)
        exact ⟨forall_setBlock (P := fun y => ∀ col ∈ y.buf, col.length = n) cols.block _ x hx,
          cols.data, cols.counted⟩
  | flushing caller pc =>
    cases h
    refine ⟨fun i col hcol => cols.block i col ?_, cols.data, cols.counted⟩
    exact flushStep_buf vb pc i ▸ hcol
  | resetting data ok =>
    cases h
    exact ⟨forall_setBlock (P := fun y => ∀ col ∈ y.buf, col.length = n) cols.block _ _
      (cols.block vb.currentBlock), cols.data, cols.counted⟩

/-- A step of the consumer, with what it returns. -/
theorem consumerStep (cols : Columns n s) (own : Owned s) (ord : Ordered b tr s)
    (h : s.consumerStep = some (s', es)) :
    Columns n s' ∧ (readResults es = [] ∨
      s'.consumer = .idle ∧ ∃ r, readResults es = [r] ∧ ReadShaped n r) := by
  obtain ⟨vb, p, c⟩ := s
  have hmode : c ≠ .idle → vb.bufferMode = .producerConsumer := own.consumer_mode
  cases c with
  | idle => cases h
  | crashed => cases h
  | popWrite =>
    cases h
    exact ⟨⟨cols.block, by simp [Consumer.data], trivial⟩, .inl rfl⟩
  | popRead w =>
    simp only [Threads.consumerStep] at h
    split_ifs at h
    · cases h
      exact ⟨⟨cols.block, by simp [Consumer.data], trivial⟩, .inr ⟨rfl, _, rfl, fun _ => rfl, by simp⟩⟩
    · cases h
      exact ⟨⟨cols.block, by simp [Consumer.data], trivial⟩, .inl rfl⟩
  | popCopy r =>
    simp only [Threads.consumerStep] at h
    cases hi : vb.queue.readQueue.cell r <;> rw [hi] at h <;> cases h <;>
      exact ⟨⟨cols.block, by simp [Consumer.data], trivial⟩, .inl rfl⟩
  | popStore r i =>
    cases h
    exact ⟨⟨cols.block, by simp [Consumer.data], trivial⟩, .inl rfl⟩
  | copyData i =>
    cases h
    exact ⟨⟨cols.block, fun _ hd => Option.some.inj hd ▸ cols.block i, trivial⟩, .inl rfl⟩
  | copyValid i data =>
    cases h
    exact ⟨⟨cols.block, cols.data, trivial⟩, .inl rfl⟩
  | reset i data valid =>
    obtain ⟨hdata, hvalid⟩ : data = (vb.block i).buf ∧ valid = (vb.block i).writeIdx := ord.copied
    cases h
    refine ⟨⟨forall_setBlock (P := fun y => ∀ col ∈ y.buf, col.length = n) cols.block i _
      (cols.block i), cols.data, ?_⟩, .inl rfl⟩
    rw [Consumer.Counted, hdata, hvalid]
    exact (vb.block i).writeIdx_le
  | pushWrite i data valid =>
    cases h
    exact ⟨⟨cols.block, cols.data, cols.counted⟩, .inl rfl⟩
  | pushRead i data valid w =>
    simp only [Threads.consumerStep, if_neg own.readPushRead_ne] at h
    cases h
    exact ⟨⟨cols.block, cols.data, cols.counted⟩, .inl rfl⟩
  | pushCopy i data valid w =>
    cases h
    exact ⟨⟨cols.block, cols.data, cols.counted⟩, .inl rfl⟩
  | pushStore i data valid w =>
    cases h
    refine ⟨⟨cols.block, by simp [Consumer.data], trivial⟩, .inr ⟨rfl, _, rfl, by simp, fun d hd => ?_⟩⟩
    exact Option.some.inj hd ▸ ⟨cols.data data rfl, cols.counted⟩

end Columns

/-- A step of either thread: only the consumer returns blocks, one at a time, and it is
outside then. -/
theorem columns_step {a : Act α} (cols : Columns n s) (hdim : s.vb.rows * s.vb.cols = n)
    (own : Owned s) (ord : Ordered b tr s) (h : s.step a = some (s', es)) :
    Columns n s' ∧ (readResults es = [] ∨
      s'.consumer = .idle ∧ ∃ r, readResults es = [r] ∧ ReadShaped n r) := by
  cases a with
  | callAddElem data =>
    obtain ⟨vb, p, c⟩ := s
    cases p <;> cases h
    exact ⟨⟨cols.block, cols.data, cols.counted⟩, .inl rfl⟩
  | callFlushToQueue =>
    obtain ⟨vb, p, c⟩ := s
    cases p <;> cases h
    exact ⟨⟨cols.block, cols.data, cols.counted⟩, .inl rfl⟩
  | producer => exact ⟨cols.producerStep hdim h, .inl (results_producer h)⟩
  | callReadBlock =>
    obtain ⟨vb, p, c⟩ := s
    cases c with
    | idle =>
      cases hm : vb.bufferMode <;> simp only [Threads.step, hm] at h <;> cases h <;>
        exact ⟨⟨cols.block, by simp [Consumer.data], trivial⟩, .inl rfl⟩
    | _ => cases h
  | consumer => exact cols.consumerStep own ord h

end Step

section Run

variable {rows cols b : ℕ} {hist : List (Threads α)} {tr : List (Event α)} {s : Threads α}

/-- What holds of a variable in every interleaving of its threads. -/
structure Sharing (rows cols b : ℕ) (hist : List (Threads α)) (tr : List (Event α)) (s : Threads α) :
    Prop where
  kept : Kept b hist tr s
  columns : Columns (rows * cols) s
  rows : s.vb.rows = rows
  cols : s.vb.cols = cols

theorem sharing_run (h : (threads α rows cols b .producerConsumer).Run hist tr s) :
    Sharing rows cols b hist tr s := by
  have hcols : s.vb.rows = rows ∧ s.vb.cols = cols ∧ Columns (rows * cols) s := by
    refine h.inv_hist (I := fun _ _ s => s.vb.rows = rows ∧ s.vb.cols = cols ∧
      Columns (rows * cols) s) ?_ ?_
    · rintro s ⟨name, hb, storage, callback, rfl⟩
      obtain ⟨-, hrows, hcols⟩ := make_dims name rows cols b hb storage
      exact ⟨hrows, hcols, make_column name rows cols b hb storage, nofun, trivial⟩
    · rintro hist tr s es s' hr ⟨hrows, hcols, hcolumns⟩ ⟨a, ha⟩
      have k := Kept.run hr
      have hsame := step_same ha
      exact ⟨hsame.rows.trans hrows, hsame.cols.trans hcols,
        (columns_step hcolumns (by rw [hrows, hcols]) k.owned k.ordered ha).1⟩
  exact ⟨Kept.run h, hcols.2.2, hcols.1, hcols.2.1⟩

/-- Outside all calls the variable may be used by one thread again. -/
theorem whole_of_quiescent (h : (threads α rows cols b .producerConsumer).Run hist tr s)
    (hp : s.producer = .idle) (hc : s.consumer = .idle) : 0 < b ∧ Whole b s.vb := by
  have k := (sharing_run h).kept
  have hcolumns := (sharing_run h)
  obtain ⟨hist', tr', hr⟩ := reachable_histories ⟨hist, tr, h⟩
  obtain ⟨hb, -⟩ := histories_inv ⟨hist', tr', hr⟩
  obtain ⟨-, a, -, hM⟩ := Matches.run hr
  have hlog := (hM.quiescent k.owned k.mode hp hc).1
  have hfits := hM.fits
  rw [hlog] at hfits
  have hown := k.owned.owned
  obtain ⟨vb, p, c⟩ := s
  simp only at hp hc
  subst hp hc
  have hm : vb.bufferMode = .producerConsumer := k.mode
  refine ⟨hb, ?_, k.ordered.size, ?_, fun i hi => ?_⟩
  · refine (List.perm_iff_count.mpr fun x => ?_).trans hown
    simp only [Threads.handles, Threads.producerHolds, Producer.holds, Threads.wqLive, Producer.wqPop,
      Threads.rqLive_eq hm, Consumer.rqPop, Consumer.holds, PopView.live_idle, List.count_append,
      List.count_nil]
    omega
  · rw [hcolumns.rows, hcolumns.cols]
    exact hcolumns.columns.block
  · exact (hfits.queued _ (List.mem_map_of_mem hi)).1

end Run

end XBot
