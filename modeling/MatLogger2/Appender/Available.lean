import MatLogger2.Appender.Flusher
import MatLogger2.Logger.Definitions

/-! The `int`s that count elements and bytes: the size of a sample, the bytes of a
block, and the bytes that the appender has been told of since it last woke up its
flusher. `create` bounds none of them. -/

namespace XBot

open VariableBuffer MatLogger2

/-- What `create` has been called with, after the checks: three positive `int`s. -/
structure Created where
  rows : ℤ
  cols : ℤ
  bufferSize : ℤ
  rows_pos : 0 < rows
  rows_lt : rows < 2 ^ 31
  cols_pos : 0 < cols
  cols_lt : cols < 2 ^ 31
  bufferSize_pos : 0 < bufferSize
  bufferSize_lt : bufferSize < 2 ^ 31

namespace Created

/-- `std::max(1, buffer_size / VariableBuffer::NumBlocks())` -/
def blockSize (v : Created) : ℤ := max 1 (v.bufferSize / NUM_BLOCKS)

/-- `dim_rows*dim_cols` -/
def dim (v : Created) : ℤ := toInt (v.rows * v.cols)

/-- `get_size_bytes`, for a block of `dim` rows and `block_size` columns. -/
def sizeBytes (v : Created) : ℤ := toInt (v.dim * v.blockSize * 8)

/-- The bytes that a block has. -/
def bytes (v : Created) : ℤ := v.rows * v.cols * v.blockSize * 8

theorem size_pos (v : Created) : 0 < v.rows * v.cols := mul_pos v.rows_pos v.cols_pos

theorem size_le_bytes (v : Created) : v.rows * v.cols ≤ v.bytes := by
  have hone : 1 ≤ v.blockSize := le_max_left 1 _
  have hle := le_mul_of_one_le_right v.size_pos.le hone
  have hpos := v.size_pos
  unfold bytes
  omega

theorem dim_eq {v : Created} (h : v.bytes < 2 ^ 31) : v.dim = v.rows * v.cols := by
  have hpos := v.size_pos
  have hle := v.size_le_bytes
  exact toInt_eq (by omega) (by omega)

theorem sizeBytes_eq {v : Created} (h : v.bytes < 2 ^ 31) : v.sizeBytes = v.bytes := by
  have hpos := v.size_pos
  have hle := v.size_le_bytes
  rw [sizeBytes, dim_eq h]
  exact toInt_eq (by unfold bytes at *; omega) h

/-- The checks of `create` admit it, on any logger without the name. -/
theorem creates {α : Type} (v : Created) {s : MatLogger2 α} {name : StdString}
    (h : s.find name = none) : s.Creates name v.rows v.cols v.bufferSize := by
  have hsize : bufferSizeFor s.opt v.rows v.cols v.bufferSize = v.bufferSize := by
    have := v.bufferSize_pos
    exact if_neg (by omega)
  exact ⟨h, v.rows_pos, v.cols_pos, by rw [hsize]; exact v.bufferSize_pos⟩

end Created

namespace MatAppender

/-- One whole call: the new `_available_bytes`, and whether the flusher is notified. -/
def onBlockAvailable (availableBytes : ℤ) (info : BufferInfo) : ℤ × Bool :=
  let availableBytes := toInt (availableBytes + info.newAvailableBytes)
  if notifies availableBytes info then (0, true) else (availableBytes, false)

/-- The sums that a sequence of calls computes, each with whether it has notified; `int`
says what becomes of a sum. -/
def sums (int : ℤ → ℤ) (availableBytes : ℤ) : List BufferInfo → List (ℤ × Bool)
  | [] => []
  | info :: infos =>
    let sum := int (availableBytes + info.newAvailableBytes)
    (sum, decide (notifies sum info)) :: sums int (if notifies sum info then 0 else sum) infos

/-- The calls leave what `sums` goes on with. -/
theorem sums_cons (availableBytes : ℤ) (info : BufferInfo) (infos : List BufferInfo) :
    ∃ sum, sums toInt availableBytes (info :: infos) =
      (sum, (onBlockAvailable availableBytes info).2) ::
        sums toInt (onBlockAvailable availableBytes info).1 infos := by
  refine ⟨toInt (availableBytes + info.newAvailableBytes), ?_⟩
  simp only [sums, onBlockAvailable]
  split_ifs with h <;> simp [h]

end MatAppender

/-- A block of a variable has been pushed, with room for so many more before. -/
structure Pushed where
  var : Created
  writeAvailable : ℕ

namespace Pushed

/-- What `flush_to_queue` fills in. -/
def info (n : Pushed) : BufferInfo := ⟨[], n.var.sizeBytes, n.writeAvailable⟩

/-- The same with the exact size of the block. -/
def exactInfo (n : Pushed) : BufferInfo := ⟨[], n.var.bytes, n.writeAvailable⟩

end Pushed

open MatAppender

/-- No `int` differs from what it stands for, whatever blocks the variables announce. -/
structure Exact (vars : List Created) : Prop where
  dim : ∀ v ∈ vars, v.dim = v.rows * v.cols
  sizeBytes : ∀ v ∈ vars, v.sizeBytes = v.bytes
  sums : ∀ ns : List Pushed, (∀ n ∈ ns, n.var ∈ vars) →
    sums toInt 0 (ns.map Pushed.info) = sums id 0 (ns.map Pushed.exactInfo)

/-- Blocks of no more than the threshold together, and one more block. -/
def Bounded (vars : List Created) : Prop :=
  ∀ vs : List Created, (∀ v ∈ vs, v ∈ vars) → (vs.map Created.bytes).sum ≤ NOTIFY_THRESHOLD_BYTES →
    ∀ v ∈ vars, (vs.map Created.bytes).sum + v.bytes < 2 ^ 31

variable {vars : List Created}

theorem Bounded.bytes_lt (h : Bounded vars) {v : Created} (hv : v ∈ vars) : v.bytes < 2 ^ 31 := by
  have hlt := h [] (by simp) (by norm_num [NOTIFY_THRESHOLD_BYTES]) v hv
  simpa using hlt

theorem sum_bytes_nonneg (vs : List Created) : 0 ≤ (vs.map Created.bytes).sum := by
  refine List.sum_nonneg fun x hx => ?_
  obtain ⟨v, -, rfl⟩ := List.mem_map.mp hx
  exact v.size_pos.le.trans v.size_le_bytes

/-- Between two notifications the bytes are those of some blocks, which do not exceed
the threshold. -/
theorem Bounded.sums_eq (h : Bounded vars) {infos : List BufferInfo}
    (hinfos : ∀ info ∈ infos, ∃ v ∈ vars, info.newAvailableBytes = v.bytes) (vs : List Created)
    (hvs : ∀ v ∈ vs, v ∈ vars) (hle : (vs.map Created.bytes).sum ≤ NOTIFY_THRESHOLD_BYTES) :
    sums toInt (vs.map Created.bytes).sum infos = sums id (vs.map Created.bytes).sum infos := by
  induction infos generalizing vs with
  | nil => rfl
  | cons info infos ih =>
    obtain ⟨⟨v, hv, hinfo⟩, hinfos⟩ := List.forall_mem_cons.mp hinfos
    have hlt := h vs hvs hle v hv
    have hnonneg := sum_bytes_nonneg vs
    have hpos := v.size_pos
    have hbytes := v.size_le_bytes
    have hsum : toInt ((vs.map Created.bytes).sum + info.newAvailableBytes) =
        (vs.map Created.bytes).sum + info.newAvailableBytes := by
      rw [hinfo]
      exact toInt_eq (by omega) hlt
    simp only [sums, hsum, id]
    congr 1
    split_ifs with hnotifies
    · exact ih hinfos [] (by simp) (by norm_num [NOTIFY_THRESHOLD_BYTES])
    · -- one more block that does not exceed the threshold
      have hstep : (vs.map Created.bytes).sum + info.newAvailableBytes =
          ((vs ++ [v]).map Created.bytes).sum := by simp [hinfo]
      have hnot : (vs.map Created.bytes).sum + info.newAvailableBytes ≤ NOTIFY_THRESHOLD_BYTES :=
        not_lt.mp fun hgt => hnotifies (.inl hgt)
      rw [hstep] at hnot ⊢
      refine ih hinfos _ (fun w hw => ?_) hnot
      rcases List.mem_append.mp hw with hw | hw
      · exact hvs w hw
      · exact List.mem_singleton.mp hw ▸ hv

/-- So the sums that start at zero are exact. -/
theorem Bounded.sums_zero (h : Bounded vars) {infos : List BufferInfo}
    (hinfos : ∀ info ∈ infos, ∃ v ∈ vars, info.newAvailableBytes = v.bytes) :
    sums toInt 0 infos = sums id 0 infos :=
  h.sums_eq hinfos [] (by simp) (by norm_num [NOTIFY_THRESHOLD_BYTES])

theorem sums_lt {availableBytes : ℤ} {infos : List BufferInfo} :
    ∀ p ∈ sums toInt availableBytes infos, p.1 < 2 ^ 31 := by
  induction infos generalizing availableBytes with
  | nil => nofun
  | cons info infos ih =>
    simp only [sums, List.forall_mem_cons]
    exact ⟨(toInt_range _).2, ih⟩

/-- Blocks of some variables, in queues that are empty, then one more. -/
theorem mem_sums {a : ℤ} (vs : List Created) (v : Created)
    (hle : a + (vs.map Created.bytes).sum ≤ NOTIFY_THRESHOLD_BYTES) :
    ∃ p ∈ sums id a ((vs ++ [v]).map fun v => (Pushed.mk v NUM_BLOCKS).exactInfo),
      p.1 = a + (vs.map Created.bytes).sum + v.bytes := by
  induction vs generalizing a with
  | nil => exact ⟨_, List.mem_cons_self, by simp [Pushed.exactInfo]⟩
  | cons w vs ih =>
    rw [List.map_cons, List.sum_cons, ← add_assoc] at hle
    have hnonneg := sum_bytes_nonneg vs
    have hnot : ¬ notifies (a + w.bytes) (Pushed.mk w NUM_BLOCKS).exactInfo := by
      rintro (hgt | hspace)
      · omega
      · exact absurd hspace (by norm_num [BufferInfo.variableFreeSpace, Pushed.exactInfo, NUM_BLOCKS,
          NOTIFY_THRESHOLD_SPACE_AVAILABLE])
    obtain ⟨p, hp, he⟩ := ih hle
    refine ⟨p, ?_, by rw [he, List.map_cons, List.sum_cons, ← add_assoc a]⟩
    have hsum : a + (Pushed.mk w NUM_BLOCKS).exactInfo.newAvailableBytes = a + w.bytes := rfl
    simp only [List.cons_append, List.map_cons, sums, id, hsum, if_neg hnot]
    exact List.mem_cons_of_mem _ hp

/-- All `int`s are exact if and only if blocks that stay below the threshold together
leave room in an `int` for one more. -/
theorem exact_iff (vars : List Created) : Exact vars ↔ Bounded vars := by
  constructor
  · intro h vs hvs hle v hv
    obtain ⟨p, hp, he⟩ := mem_sums (a := 0) vs v (by rwa [zero_add])
    have hall : ∀ n ∈ (vs ++ [v]).map fun v => Pushed.mk v NUM_BLOCKS, n.var ∈ vars := by
      simp only [List.forall_mem_map, List.forall_mem_append, List.forall_mem_singleton]
      exact ⟨hvs, hv⟩
    have hsums := h.sums _ hall
    rw [List.map_map, List.map_map] at hsums
    have hlt := sums_lt p (hsums ▸ hp)
    rw [he, zero_add] at hlt
    exact hlt
  · intro h
    refine ⟨fun v hv => Created.dim_eq (h.bytes_lt hv), fun v hv => Created.sizeBytes_eq (h.bytes_lt hv),
      fun ns hns => ?_⟩
    have hinfo : ∀ n ∈ ns, n.info = n.exactInfo := by
      intro n hn
      rw [Pushed.info, Pushed.exactInfo, Created.sizeBytes_eq (h.bytes_lt (hns n hn))]
    rw [List.map_congr_left hinfo]
    refine h.sums_zero fun info hmem => ?_
    obtain ⟨n, hn, rfl⟩ := List.mem_map.mp hmem
    exact ⟨n.var, hns n hn, rfl⟩

/-- In particular when each block has as much room beside the threshold. -/
theorem bounded_of_bytes (h : ∀ v ∈ vars, v.bytes < 2 ^ 31 - NOTIFY_THRESHOLD_BYTES) :
    Bounded vars := by
  intro vs _ hle v hv
  have := h v hv
  omega

/-! The variables and the appender compute these `int`s. -/

namespace VariableBuffer

variable {α : Type} {vb : VariableBuffer α} {n b : ℕ}

/-- All blocks have `b` places for `n` elements. -/
def Sized (n b : ℕ) (vb : VariableBuffer α) : Prop :=
  ∀ i, (vb.block i).dim = n ∧ (vb.block i).getSize = b

theorem Sized.getNewBlock (h : Sized n b vb) : Sized n b vb.getNewBlock.1 := by
  unfold VariableBuffer.getNewBlock
  dsimp only
  split
  · exact h
  · exact forall_setBlock (P := fun x => x.dim = n ∧ x.getSize = b) h _ _ (h _)

theorem Sized.pushCurrent (h : Sized n b vb) (newBlock : BlockId) (info : BufferInfo) :
    Sized n b (vb.pushCurrent newBlock info).vb ∧
      ∀ i ∈ (vb.pushCurrent newBlock info).callbacks, i = info := by
  unfold VariableBuffer.pushCurrent
  dsimp only
  split_ifs
  · exact ⟨h, fun i hi => List.mem_singleton.mp hi⟩
  · exact ⟨h, nofun⟩
  · exact ⟨h, nofun⟩

theorem Sized.flushToQueue (h : Sized n b vb) : Sized n b vb.flushToQueue.vb ∧
    ∀ i ∈ vb.flushToQueue.callbacks, i.newAvailableBytes = toInt (n * b * 8 : ℕ) := by
  have hinfo : vb.bufferInfo.newAvailableBytes = toInt (n * b * 8 : ℕ) := by
    obtain ⟨hd, hs⟩ := h vb.currentBlock
    rw [← hd, ← hs]
    rfl
  have hnew := h.getNewBlock
  unfold VariableBuffer.flushToQueue
  split_ifs
  · exact ⟨h, nofun⟩
  dsimp only
  split
  · rename_i vb' newBlock he
    rw [he] at hnew
    obtain ⟨hsized, hcallbacks⟩ := hnew.pushCurrent newBlock vb.bufferInfo
    exact ⟨hsized, fun i hi => hcallbacks i hi ▸ hinfo⟩
  · rename_i vb' he
    rw [he] at hnew
    split
    · split
      · exact ⟨hnew, nofun⟩
      · rename_i newBlock _
        have hpopped : Sized n b { vb' with queue := { vb'.queue with
          readQueue := (Boost.consumeOne vb'.queue.readQueue).1 } } := hnew
        obtain ⟨hsized, hcallbacks⟩ := hpopped.pushCurrent newBlock vb.bufferInfo
        exact ⟨hsized, fun i hi => hcallbacks i hi ▸ hinfo⟩
    · exact ⟨hnew, nofun⟩

theorem Sized.setCurrent (h : Sized n b vb) {x : BufferBlock α} (hd : x.dim = n)
    (hs : x.getSize = b) : Sized n b (vb.setCurrent x) :=
  forall_setBlock (P := fun x => x.dim = n ∧ x.getSize = b) h _ _ ⟨hd, hs⟩

/-- What `add_elem` tells the callback. -/
theorem Sized.addElem (h : Sized n b vb) (data : Eigen.MatrixXd α) :
    Sized n b (vb.addElem data).vb ∧
      ∀ i ∈ (vb.addElem data).callbacks, i.newAvailableBytes = toInt (n * b * 8 : ℕ) := by
  fun_induction VariableBuffer.addElem vb data with
  | case1 vb hsize => exact ⟨h, nofun⟩
  | case2 vb hsize x hx =>
    obtain ⟨-, hs, hd⟩ := BufferBlock.add_eq_some hx
    exact ⟨h.setCurrent (hd.trans (h _).1) (hs.trans (h _).2), nofun⟩
  | case3 vb hsize hnone r what he => exact h.flushToQueue
  | case4 vb hsize hnone r ok he again ih =>
    obtain ⟨hr, hcallbacks⟩ := h.flushToQueue
    obtain ⟨hagain, hcallbacks'⟩ := ih (hr.setCurrent (hr _).1 (hr _).2)
    refine ⟨hagain, fun i hi => ?_⟩
    rcases List.mem_append.mp hi with hi | hi
    · exact hcallbacks i hi
    · exact hcallbacks' i hi

/-- What a callback is told while samples are added. -/
def announced (vb : VariableBuffer α) : List (Eigen.MatrixXd α) → List BufferInfo
  | [] => []
  | data :: samples => (vb.addElem data).callbacks ++ announced (vb.addElem data).vb samples

theorem Sized.announced (h : Sized n b vb) (samples : List (Eigen.MatrixXd α)) :
    ∀ info ∈ vb.announced samples, info.newAvailableBytes = toInt (n * b * 8 : ℕ) := by
  induction samples generalizing vb with
  | nil => nofun
  | cons data samples ih =>
    obtain ⟨hsized, hcallbacks⟩ := h.addElem data
    rw [VariableBuffer.announced, List.forall_mem_append]
    exact ⟨hcallbacks, ih hsized⟩

end VariableBuffer

/-- The variable that `create` makes of them announces `sizeBytes`. -/
theorem Created.sized {α : Type} (v : Created) {s s' : MatLogger2 α} {mem : Allocator α}
    {name : StdString} (h : s.create mem name v.rows v.cols v.bufferSize = some (s', true)) :
    ∃ vb, s'.find name = some vb ∧ ((vb.rows * vb.cols : ℕ) : ℤ) = v.dim ∧ ∃ n b : ℕ,
      vb.Sized n b ∧ toInt (n * b * 8 : ℕ) = v.sizeBytes := by
  obtain ⟨-, -, -, hlt, rfl⟩ := create_true h
  have hsize : bufferSizeFor s.opt v.rows v.cols v.bufferSize = v.bufferSize := by
    have := v.bufferSize_pos
    exact if_neg (by omega)
  rw [hsize]
  have hrows := Int.toNat_of_nonneg v.rows_pos.le
  have hcols := Int.toNat_of_nonneg v.cols_pos.le
  have hdim : v.dim = v.rows * v.cols := toInt_eq (by have := v.size_pos; omega) hlt
  have hblock : ((max 1 (v.bufferSize.toNat / NUM_BLOCKS) : ℕ) : ℤ) = v.blockSize := by
    have := v.bufferSize_pos
    rw [Created.blockSize, Nat.cast_max, Int.natCast_ediv, Int.toNat_of_nonneg this.le, Nat.cast_one]
  obtain ⟨-, hr, hc⟩ := make_dims name v.rows.toNat v.cols.toNat
    (max 1 (v.bufferSize.toNat / NUM_BLOCKS)) (le_max_left 1 _) (mem _ _)
  refine ⟨_, List.lookup_cons_self, ?_, v.rows.toNat * v.cols.toNat,
    max 1 (v.bufferSize.toNat / NUM_BLOCKS), fun i => ⟨make_dim _ _ _ _ _ _ i,
      (make_block _ _ _ _ _ _ i).1⟩, ?_⟩
  · refine (congrArg₂ (fun r c : ℕ => ((r * c : ℕ) : ℤ)) hr hc).trans ?_
    rw [Nat.cast_mul, hrows, hcols, hdim]
  · rw [Created.sizeBytes, hdim, Nat.cast_mul, Nat.cast_mul, Nat.cast_mul, hrows, hcols, hblock]
    rfl

/-- So `create` admits each of the variables, on a logger without its name, and all blocks of it are
announced with the bytes that they have. -/
theorem Bounded.announced {α : Type} (h : Bounded vars) {v : Created} (hv : v ∈ vars)
    {s : MatLogger2 α} (mem : Allocator α) {name : StdString} (hfree : s.find name = none) :
    ∃ s' vb, s.create mem name v.rows v.cols v.bufferSize = some (s', true) ∧
      s'.find name = some vb ∧ ((vb.rows * vb.cols : ℕ) : ℤ) = v.rows * v.cols ∧
      ∀ callback samples, ∀ info ∈ (vb.setOnBlockAvailable callback).announced samples,
        info.newAvailableBytes = v.bytes := by
  have hlt := h.bytes_lt hv
  have hsize : ¬ v.rows * v.cols ≥ 2 ^ 31 := not_le.mpr (v.size_le_bytes.trans_lt hlt)
  have hcreate : s.create mem name v.rows v.cols v.bufferSize = _ := create_eq (v.creates hfree)
  rw [if_neg hsize] at hcreate
  obtain ⟨vb, hfind, hdim, n, b, hsized, hbytes⟩ := v.sized hcreate
  refine ⟨_, vb, hcreate, hfind, by rw [hdim, Created.dim_eq hlt], fun callback samples info hmem => ?_⟩
  have hsized : Sized n b (vb.setOnBlockAvailable callback) := hsized
  rw [hsized.announced samples info hmem, hbytes, Created.sizeBytes_eq hlt]

namespace MatAppender

variable {ι : Type} {s : MatAppender ι}

/-- What a whole call leaves, if no other step comes between. -/
def told (s : MatAppender ι) (info : BufferInfo) : MatAppender ι × List FlusherEvent :=
  if (onBlockAvailable s.availableBytes info).2 then
    ({ s with
      availableBytes := (onBlockAvailable s.availableBytes info).1
      flushThreadWakeUp := true
      flusher := s.flusher.notifyOne }, [.raised])
  else ({ s with availableBytes := (onBlockAvailable s.availableBytes info).1 }, [])

@[simp] theorem notifier_told (info : BufferInfo) : (s.told info).1.notifier = s.notifier := by
  unfold told
  split_ifs <;> rfl

@[simp] theorem availableBytes_told (info : BufferInfo) :
    (s.told info).1.availableBytes = (onBlockAvailable s.availableBytes info).1 := by
  unfold told
  split_ifs <;> rfl

theorem holdsMutex_told (hmutex : s.flusher.holdsMutex = false) (info : BufferInfo) :
    (s.told info).1.flusher.holdsMutex = false := by
  unfold told
  split_ifs
  · cases hpc : s.flusher <;> simp_all [FlusherPc.notifyOne, FlusherPc.holdsMutex]
  · exact hmutex

theorem count_told (info : BufferInfo) : (s.told info).2.count .raised =
    if (onBlockAvailable s.availableBytes info).2 then 1 else 0 := by
  unfold told
  split_ifs <;> rfl

/-- The producer that a step is a call of, and what it announces. -/
def Act.call? : Act ι → Option (ι × BufferInfo)
  | .onBlockAvailable i info => some (i, info)
  | _ => none

variable [DecidableEq ι]

/-- A call that runs without interruption while the mutex is free. -/
theorem exec_onBlockAvailable {i : ι} (hidle : s.notifier i = .idle)
    (hmutex : s.flusher.holdsMutex = false) (info : BufferInfo) :
    ∃ n, Transition.exec step s (.onBlockAvailable i info :: List.replicate n (.notifier i)) =
      some (s.told info) := by
  have hself : Function.update s.notifier i .idle = s.notifier := by
    rw [← hidle, Function.update_eq_self]
  by_cases h : notifies (toInt (s.availableBytes + info.newAvailableBytes)) info
  · refine ⟨4, ?_⟩
    simp [Transition.exec, step, hidle, notifierStep, setNotifier, h, hmutex, told, onBlockAvailable,
      List.replicate, hself]
  · refine ⟨3, ?_⟩
    simp [Transition.exec, step, hidle, notifierStep, setNotifier, h, told, onBlockAvailable,
      List.replicate, hself]

/-- The calls of producers, one after another, notify as the sums say. -/
theorem exec_calls (hidle : ∀ i, s.notifier i = .idle) (hmutex : s.flusher.holdsMutex = false)
    (calls : List (ι × BufferInfo)) :
    ∃ acts s' es, Transition.exec step s acts = some (s', es) ∧ acts.filterMap Act.call? = calls ∧
      es.count .raised = (sums toInt s.availableBytes (calls.map Prod.snd)).countP Prod.snd := by
  induction calls generalizing s with
  | nil => exact ⟨[], s, [], rfl, rfl, rfl⟩
  | cons call calls ih =>
    obtain ⟨i, info⟩ := call
    obtain ⟨n, hcall⟩ := exec_onBlockAvailable (hidle i) hmutex info
    obtain ⟨sum, hsums⟩ := sums_cons s.availableBytes info (calls.map Prod.snd)
    obtain ⟨acts, s', es, h, hcalls, hcount⟩ := ih (s := (s.told info).1)
      (fun j => by rw [notifier_told]; exact hidle j) (holdsMutex_told hmutex info)
    refine ⟨_, s', (s.told info).2 ++ es, Transition.exec_append h hcall, ?_, ?_⟩
    · have hrest : (List.replicate n (Act.notifier i)).filterMap Act.call? = [] := by
        rw [List.filterMap_eq_nil_iff]
        intro a ha
        rw [List.eq_of_mem_replicate ha]
        rfl
      have hfirst : (Act.onBlockAvailable i info).call? = some (i, info) := rfl
      rw [List.cons_append, List.filterMap_cons_some hfirst, List.filterMap_append, hrest, hcalls,
        List.nil_append]
    · rw [List.map_cons, hsums, List.count_append, count_told, hcount, availableBytes_told,
        List.countP_cons, Nat.add_comm]

end MatAppender

/-- And with them the flusher is notified as often as the exact sums ask for it. -/
theorem Bounded.notified {ι : Type} [DecidableEq ι] {s : MatAppender ι} (h : Bounded vars)
    (hzero : s.availableBytes = 0) (hidle : ∀ i, s.notifier i = .idle)
    (hmutex : s.flusher.holdsMutex = false) {calls : List (ι × BufferInfo)}
    (hcalls : ∀ c ∈ calls, ∃ v ∈ vars, c.2.newAvailableBytes = v.bytes) :
    ∃ acts s' es, Transition.exec step s acts = some (s', es) ∧ acts.filterMap Act.call? = calls ∧
      es.count .raised = (sums id 0 (calls.map Prod.snd)).countP Prod.snd := by
  obtain ⟨acts, s', es, hexec, hacts, hcount⟩ := exec_calls hidle hmutex calls
  rw [hzero, h.sums_zero (List.forall_mem_map.mpr hcalls)] at hcount
  exact ⟨acts, s', es, hexec, hacts, hcount⟩

/-- Blocks of 2^31 bytes are counted as -2^31, and the flusher is not notified. -/
theorem threshold_missed : ∃ v : Created, v.rows = 16384 ∧ v.cols = 16384 ∧ v.bufferSize = 20 ∧
    v.bytes = 2 ^ 31 ∧ sums id 0 [(Pushed.mk v 20).exactInfo] = [(2 ^ 31, true)] ∧
    sums toInt 0 [(Pushed.mk v 20).info] = [(-2 ^ 31, false)] := by
  have hdim : toInt (16384 * 16384) = 268435456 := toInt_eq (by norm_num) (by norm_num)
  have hbytes : toInt (268435456 * max 1 (20 / (NUM_BLOCKS : ℤ)) * 8) = -2 ^ 31 := by
    unfold toInt
    norm_num [NUM_BLOCKS]
  have hsum : toInt (0 + -2 ^ 31) = -2 ^ 31 := toInt_eq (by norm_num) (by norm_num)
  refine ⟨⟨16384, 16384, 20, by norm_num, by norm_num, by norm_num, by norm_num, by norm_num,
    by norm_num⟩, rfl, rfl, rfl, rfl, by decide, ?_⟩
  simp only [sums, Pushed.info, Created.sizeBytes, Created.dim, Created.blockSize, hdim, hbytes, hsum]
  norm_num [notifies, NOTIFY_THRESHOLD_BYTES, BufferInfo.variableFreeSpace, NUM_BLOCKS,
    NOTIFY_THRESHOLD_SPACE_AVAILABLE]

end XBot
