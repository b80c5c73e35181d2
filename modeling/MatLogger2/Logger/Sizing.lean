import MatLogger2.Logger.Destructor

/-! How large the blocks of a variable are. The size that is asked for is divided by
the number of blocks, rounded down, and is at least one sample: the default size may
exceed its limit so, and the blocks may hold less than was asked for. -/

namespace XBot

open VariableBuffer Transition

variable {α : Type}

namespace VariableBuffer

/-- The bytes of all blocks of a variable. -/
def allocatedBytes (vb : VariableBuffer α) : ℕ := ∑ i, (vb.block i).dim * (vb.block i).getSize * 8

theorem make_dim (name : StdString) (rows cols blockSize : ℕ) (hb : 0 < blockSize)
    (storage : BlockId → Memory α (rows * cols) blockSize) (i : BlockId) :
    ((make name rows cols blockSize hb storage).block i).dim = rows * cols := by
  obtain ⟨pool, b, wq, -, -, he⟩ := make_eq name rows cols blockSize hb storage
  rw [he]
  exact forall_setBlock (P := fun x => x.dim = rows * cols) (fun _ => rfl) b _ rfl i

theorem allocatedBytes_make (name : StdString) (rows cols blockSize : ℕ) (hb : 0 < blockSize)
    (storage : BlockId → Memory α (rows * cols) blockSize) :
    allocatedBytes (make name rows cols blockSize hb storage) =
      NUM_BLOCKS * (rows * cols * blockSize * 8) := by
  have hall : ∀ i, ((make name rows cols blockSize hb storage).block i).dim *
      ((make name rows cols blockSize hb storage).block i).getSize * 8 =
      rows * cols * blockSize * 8 := by
    intro i
    rw [make_dim, (make_block name rows cols blockSize hb storage i).1]
  rw [allocatedBytes, Finset.sum_congr rfl fun i _ => hall i]
  simp

theorem allocatedBytes_set (vb : VariableBuffer α) (callback : Bool) (mode : Mode) :
    ((vb.setOnBlockAvailable callback).setBufferMode mode).allocatedBytes = vb.allocatedBytes := rfl

end VariableBuffer

namespace MatLogger2

variable {s s₁ s' : MatLogger2 α} {mode : Mode} {name : StdString} {vb : VariableBuffer α}
variable {tr es : List (Result α)} {opt : Options}

/-- The new variable, and the size of its blocks. -/
theorem emplace_find (s : MatLogger2 α) (mem : Allocator α) (varName : StdString)
    (rows cols bufferSize : ℕ) :
    ∃ vb, (s.emplace mem varName rows cols bufferSize).find varName = some vb ∧
      vb.rows = rows ∧ vb.cols = cols ∧ Whole (max 1 (bufferSize / NUM_BLOCKS)) vb ∧
      vb.allocatedBytes = NUM_BLOCKS * (rows * cols * max 1 (bufferSize / NUM_BLOCKS) * 8) := by
  obtain ⟨-, hrows, hcols⟩ := make_dims varName rows cols (max 1 (bufferSize / NUM_BLOCKS))
    (le_max_left 1 _) (mem _ _)
  obtain ⟨w, -⟩ := whole_make varName rows cols (max 1 (bufferSize / NUM_BLOCKS)) (le_max_left 1 _)
    (mem _ _)
  refine ⟨_, List.lookup_cons_self, hrows, hcols, whole_set w _ _, ?_⟩
  rw [allocatedBytes_set, allocatedBytes_make]

theorem toSize_of_pos {x : ℤ} (hpos : 0 < x) (hlt : x < 2 ^ 31) : toSize x = x.toNat := by
  rw [toSize, Int.emod_eq_of_lt hpos.le (by omega)]

/-- The default size is not larger than the limit in samples. -/
theorem defaultSize_le (opt : Options) (rows cols : ℤ) :
    (bufferSizeFor opt rows cols (-1)).toNat ≤
      toSize opt.defaultBufferSizeMaxBytes / 8 / toSize rows / toSize cols := by
  have hle := toNat_toInt_le
    (toSize opt.defaultBufferSizeMaxBytes / 8 / toSize rows / toSize cols)
  rw [bufferSizeFor, if_pos rfl]
  exact (Int.toNat_le_toNat (min_le_left _ _)).trans hle

/-- Blocks for `n` samples of `size` bytes, where `n` of them fit the limit `m`. -/
theorem blocks_le_iff {k n m size : ℕ} (hn : n ≤ m / size) :
    k * (size * max 1 (n / k)) ≤ m ↔ k * size ≤ m := by
  constructor
  · intro hle
    refine (Nat.mul_le_mul_left k ?_).trans hle
    exact Nat.le_mul_of_pos_right size (le_max_left 1 _)
  · intro hle
    rcases le_total (n / k) 1 with hone | hone
    · rwa [max_eq_left hone, Nat.mul_one]
    · rw [max_eq_right hone]
      calc k * (size * (n / k))
          = n / k * k * size := by ring
        _ ≤ n * size := Nat.mul_le_mul_right size (Nat.div_mul_le_self n k)
        _ ≤ m / size * size := Nat.mul_le_mul_right size hn
        _ ≤ m := Nat.div_mul_le_self m size

/-- Blocks of the default size respect the limit if and only if one sample in each
does. -/
theorem default_size_iff {mem : Allocator α} {rows cols : ℤ}
    (hpos : 0 < s.opt.defaultBufferSizeMaxBytes) (hlt : s.opt.defaultBufferSizeMaxBytes < 2 ^ 31)
    (h : s.create mem name rows cols (-1) = some (s', true)) :
    (∃ vb, s'.find name = some vb ∧ vb.allocatedBytes ≤ s.opt.defaultBufferSizeMaxBytes) ↔
      NUM_BLOCKS * rows * cols * 8 ≤ s.opt.defaultBufferSizeMaxBytes := by
  obtain ⟨-, hr, hc, hsize, rfl⟩ := create_true h
  have hbuf := defaultSize_le s.opt rows cols
  have hrlt : rows < 2 ^ 31 := (le_mul_of_one_le_right hr.le hc).trans_lt hsize
  have hclt : cols < 2 ^ 31 := (le_mul_of_one_le_left hc.le hr).trans_lt hsize
  rw [toSize_of_pos hr hrlt, toSize_of_pos hc hclt, toSize_of_pos hpos hlt,
    Nat.div_div_eq_div_mul, Nat.div_div_eq_div_mul] at hbuf
  obtain ⟨vb, hfind, -, -, -, hbytes⟩ := s.emplace_find mem name rows.toNat cols.toNat
    (bufferSizeFor s.opt rows cols (-1)).toNat
  have hbytes' : vb.allocatedBytes = NUM_BLOCKS * (8 * (rows.toNat * cols.toNat) *
      max 1 ((bufferSizeFor s.opt rows cols (-1)).toNat / NUM_BLOCKS)) := by
    rw [hbytes]
    ring
  have hiff := blocks_le_iff (k := NUM_BLOCKS) hbuf
  rw [← hbytes'] at hiff
  have hcast : (NUM_BLOCKS * rows * cols * 8 : ℤ) =
      (NUM_BLOCKS * (8 * (rows.toNat * cols.toNat)) : ℕ) := by
    push_cast
    rw [Int.toNat_of_nonneg hr.le, Int.toNat_of_nonneg hc.le]
    ring
  simp only [hfind, Option.some.injEq, exists_eq_left', hcast]
  omega

/-- Creation with the default size, as it is for a new logger. -/
theorem create_default (opt : Options) (mem : Allocator α) (name : StdString) {rows cols : ℤ} {n : ℕ}
    (hr : 0 < rows) (hc : 0 < cols) (hlt : rows * cols < 2 ^ 31) (hpos : 0 < opt.defaultBufferSize)
    (hn : toSize opt.defaultBufferSizeMaxBytes / 8 / toSize rows / toSize cols = n) (hpos' : 0 < n)
    (hn' : n < 2 ^ 31) :
    (make opt).create mem name rows cols (-1) = some ((make opt).emplace mem name rows.toNat
      cols.toNat (min (n : ℤ) opt.defaultBufferSize).toNat, true) := by
  have hsize : bufferSizeFor opt rows cols (-1) = min (n : ℤ) opt.defaultBufferSize := by
    rw [bufferSizeFor, if_pos rfl, hn, toInt_natCast hn']
  have hbuf : 0 < bufferSizeFor opt rows cols (-1) := by
    rw [hsize]
    exact lt_min (Int.natCast_pos.mpr hpos') hpos
  have h := create_of_size (s := make opt) mem hr hc hbuf hlt (rfl : find _ name = none)
  have hopt : (make opt : MatLogger2 α).opt = opt := rfl
  rw [hopt, hsize] at h
  exact h

/-- Scalars, with the default options. -/
theorem default_size_iff_scalar :
    let s : MatLogger2 ℕ := make ⟨10000, 10485760⟩
    ∃ s', s.create zeroed [120] 1 1 (-1) = some (s', true) ∧
      ((∃ vb, s'.find [120] = some vb ∧ vb.allocatedBytes ≤ s.opt.defaultBufferSizeMaxBytes) ↔
        NUM_BLOCKS * 1 * 1 * 8 ≤ s.opt.defaultBufferSizeMaxBytes) := by
  intro s
  have h := create_default ⟨10000, 10485760⟩ (n := 1310720) zeroed [120] one_pos one_pos
    (by norm_num) (by norm_num) rfl (by norm_num) (by norm_num)
  exact ⟨_, h, default_size_iff (s := s) (by norm_num [s, make]) (by norm_num [s, make]) h⟩

/-- With the default options, blocks for matrices of 400 x 400 exceed the limit. -/
theorem default_size_exceeds :
    let s : MatLogger2 ℕ := make ⟨10000, 10485760⟩
    ∃ s' vb, s.create zeroed [120] 400 400 (-1) = some (s', true) ∧ s'.find [120] = some vb ∧
      vb.allocatedBytes = 25600000 ∧ s.opt.defaultBufferSizeMaxBytes < 25600000 := by
  intro s
  have h := create_default ⟨10000, 10485760⟩ (n := 8) zeroed [120] (by norm_num : (0 : ℤ) < 400)
    (by norm_num : (0 : ℤ) < 400) (by norm_num) (by norm_num) rfl
    (by norm_num) (by norm_num)
  obtain ⟨vb, hfind, -, -, -, hbytes⟩ := s.emplace_find zeroed [120] 400 400 8
  refine ⟨_, vb, h, hfind, ?_, by norm_num [s, make]⟩
  rw [hbytes]
  norm_num [NUM_BLOCKS]

/-! A variable keeps its shape and the size of its blocks. -/

/-- There is a variable of that name, of this shape and with blocks of `b` samples. -/
def Has (name : StdString) (rows cols b : ℕ) (s : MatLogger2 α) : Prop :=
  ∃ vb, (name, vb) ∈ s.vars ∧ vb.rows = rows ∧ vb.cols = cols ∧ Whole b vb

variable {rows cols b : ℕ}

theorem Has.create (h : Has name rows cols b s) {mem : Allocator α} {varName : StdString}
    {rows' cols' bufferSize : ℤ} {ok : Bool}
    (hc : s.create mem varName rows' cols' bufferSize = some (s', ok)) : Has name rows cols b s' := by
  cases ok with
  | false =>
    obtain rfl := create_false hc
    exact h
  | true =>
    obtain ⟨-, -, -, -, rfl⟩ := create_true hc
    obtain ⟨vb, hm, hvb⟩ := h
    exact ⟨vb, List.mem_cons_of_mem _ hm, hvb⟩

theorem Has.addElem (h : Has name rows cols b s) (hb : 0 < b) (t : Tidy mode s.vars)
    {varName : StdString} (hf : s.find varName = some vb) (data : Eigen.MatrixXd α) :
    Has name rows cols b (s.update varName (vb.addElem data).vb) := by
  obtain ⟨v, hm, hr, hc, w⟩ := h
  by_cases hn : name = varName
  · subst hn
    obtain rfl := Option.some.inj (hf.symm.trans (find_of_mem t hm))
    obtain ⟨w', hsame⟩ := addElem_whole hb w data
    refine ⟨_, List.mem_map.mpr ⟨_, hm, if_pos rfl⟩, hsame.rows.trans hr, hsame.cols.trans hc, w'⟩
  · exact ⟨v, List.mem_map.mpr ⟨_, hm, if_neg hn⟩, hr, hc, w⟩

theorem Has.add (h : Has name rows cols b s) (hb : 0 < b) (t : Tidy s.bufferMode s.vars)
    {mem : Allocator α} {varName : StdString} {data : Eigen.MatrixXd α} {r : Option (Outcome α)}
    (ha : s.add mem varName data = some (s', r)) : Has name rows cols b s' := by
  have hfind : ∀ {s₁ found}, s.findOrCreate mem varName (toInt data.rows) (toInt data.cols) =
      some (s₁, found) → Has name rows cols b s₁ := by
    intro s₁ found hf
    rcases findOrCreate_cases hf with ⟨rfl, -, -⟩ | ⟨hc, -, -⟩
    · exact h
    · exact h.create hc
  unfold MatLogger2.add at ha
  split at ha
  · cases ha
  · rename_i s₁ hf
    cases ha
    exact hfind hf
  · rename_i s₁ vb hf
    cases ha
    obtain ⟨-, t₁, hfound⟩ := findOrCreate_tidy t hf
    exact (hfind hf).addElem hb t₁ hfound.symm data

theorem Has.flush (h : Has name rows cols b s) (t : Tidy s.bufferMode s.vars) :
    Has name rows cols b s.flushAvailableData.1 := by
  obtain ⟨vb, hm, hr, hc, w⟩ := h
  have hv : s.flushAvailableData.1.vars = (writeVars s.vars ⟨[], 0⟩).1 := rfl
  unfold Has
  rw [hv]
  cases hmode : s.bufferMode with
  | producerConsumer =>
    rw [hmode] at t
    obtain ⟨vars', acc', he, hev, -⟩ := writeVars_spec t ⟨[], 0⟩
    obtain ⟨vb', hm', hb⟩ := evolves_mem hev hm
    rw [he]
    exact ⟨vb', hm', (hb b w).same.rows.trans hr, (hb b w).same.cols.trans hc, (hb b w).whole⟩
  | circularBuffer =>
    rw [hmode] at t
    obtain ⟨what, he⟩ := writeVars_circular t ⟨[], 0⟩
    rw [he]
    exact ⟨vb, hm, hr, hc, w⟩

theorem Has.call (h : Has name rows cols b s) (hb : 0 < b) (t : Tidy s.bufferMode s.vars)
    {op : Op α} (hc : s.call op = some (s', es)) : Has name rows cols b s' := by
  cases op with
  | create mem varName rows' cols' bufferSize =>
    obtain ⟨⟨s₁, ok⟩, hcreate, he⟩ := Option.map_eq_some_iff.mp hc
    cases he
    exact h.create hcreate
  | add mem varName data =>
    obtain ⟨⟨s₁, r⟩, hadd, he⟩ := Option.map_eq_some_iff.mp hc
    cases he
    exact h.add hb t hadd
  | save varName varData => cases hc; exact h
  | flushAvailableData => cases hc; exact h.flush t
  | setBufferMode mode =>
    cases hc
    obtain ⟨vb, hm, hr, hc, w⟩ := h
    exact ⟨_, List.mem_map_of_mem hm, hr, hc, whole_set w mode vb.onBlockAvailable⟩
  | setOnDataAvailableCallback callback =>
    cases hc
    obtain ⟨vb, hm, hr, hc, w⟩ := h
    exact ⟨_, List.mem_map_of_mem hm, hr, hc, whole_set w vb.bufferMode callback⟩

theorem Has.run {hist : List (MatLogger2 α)} {s₀ : MatLogger2 α}
    (hreach : (loggerIn α opt mode).Reachable s₀) (h₀ : Has name rows cols b s₀) (hb : 0 < b)
    (h : ((loggerIn α opt mode).startingAt s₀).Run hist tr s) : Has name rows cols b s := by
  obtain ⟨hist₀, tr₀, hr₀⟩ := hreach
  refine h.inv_hist (I := fun _ _ s => Has name rows cols b s) (fun s hs => hs ▸ h₀) ?_
  rintro hist tr s es s' hr ih ⟨op, s₁, vars, -, hc, hp, rfl⟩
  obtain ⟨post, hr'⟩ := hr₀.append hr
  obtain ⟨vb, hm, hvb⟩ := ih.call hb (reachable_tidy (logger_of_loggerIn ⟨_, _, hr'⟩)) hc
  exact ⟨vb, hp.symm.subset hm, hvb⟩

/-! The size that is asked for. -/

/-- All samples given to `add` for that name, whether taken or not, are what the
destructor has handed over for it. -/
def AllWritten (name : StdString) (tr : List (Result α)) (s : MatLogger2 α) : Prop :=
  ∃ s' payloads, (∀ fuel, s.destroy (fuel + 2) = some (s', none)) ∧
    (callsFor name s'.backend).mapM BackendCall.payload = some payloads ∧
    payloads.flatten = (addsFor name tr).flatMap fun a => a.data.data

theorem Account.accepted_all {backend : List (BackendCall α)} (a : Account mode name tr backend b vb)
    (hsize : ∀ c ∈ addsFor name tr, c.data.size = vb.rows * vb.cols) :
    acceptedFor name tr = (addsFor name tr).map fun c => c.data.data := by
  have hall : ∀ c ∈ addsFor name tr, AddCall.accepted c = some c.data.data := by
    intro c hc
    rw [AddCall.accepted, a.returns c hc, decide_eq_true (hsize c hc)]
  rw [acceptedFor, List.filterMap_congr hall, ← List.filterMap_eq_map]
  rfl

/-- Samples that fit into the blocks are all written. -/
theorem allWritten_of_le (acc : Accounted mode tr s) (hm : (name, vb) ∈ s.vars)
    (w : Whole b vb) (hsize : ∀ c ∈ addsFor name tr, c.data.size = vb.rows * vb.cols)
    (hle : (addsFor name tr).length ≤ NUM_BLOCKS * b) : AllWritten name tr s := by
  obtain ⟨s', hd, -, -, hall⟩ := destroy_accounts acc
  obtain ⟨b', blocks, a, -, hh, hw⟩ := hall name vb hm
  obtain rfl : b = b' := (w.size 0).symm.trans (a.whole.size 0)
  have haccepted := a.accepted_all hsize
  obtain ⟨-, c⟩ := hh.cut_of_le a.pos (by decide) (by rw [haccepted, List.length_map]; exact hle)
  refine ⟨s', _, hd, payloads_isWrite hw, ?_⟩
  rw [← List.flatten_flatten, List.flatten_append, BlockLog.flatten_blocks, BlockLog.content,
    ← List.append_assoc, ← List.flatten_append, c.flatten, haccepted]
  rfl

/-- More samples than fit into the blocks are not all written, if none has been before. -/
theorem not_allWritten (acc : Accounted mode tr s) (hm : (name, vb) ∈ s.vars) (w : Whole b vb)
    (hcalls : callsFor name s.backend = [])
    (hsize : ∀ c ∈ addsFor name tr, c.data.size = vb.rows * vb.cols)
    (hlt : NUM_BLOCKS * b < (addsFor name tr).length) : ¬ AllWritten name tr s := by
  rintro ⟨s', payloads, hd, hpay, hflat⟩
  obtain ⟨s'', hd', -, -, hall⟩ := destroy_accounts acc
  obtain rfl : s' = s'' := (Prod.mk.inj (Option.some.inj ((hd 0).symm.trans (hd' 0)))).1
  obtain ⟨b', blocks, a, hw, -, hw'⟩ := hall name vb hm
  rw [hcalls] at hw
  cases hw
  rw [payloads_isWrite hw', Option.some.injEq] at hpay
  rw [← hpay, List.nil_append, ← List.flatten_flatten, BlockLog.flatten_blocks] at hflat
  have hlen : ∀ xs : List (List α), (∀ x ∈ xs, x.length = vb.rows * vb.cols) →
      xs.flatten.length = xs.length * (vb.rows * vb.cols) := by
    intro xs hx
    rw [List.length_flatten, List.map_congr_left hx]
    simp
  have hle := w.fits.length_content_le
  have heq := congrArg List.length hflat
  have hadds : ∀ x ∈ (addsFor name tr).map fun c => c.data.data, x.length = vb.rows * vb.cols := by
    simp only [List.forall_mem_map]
    intro c hc
    rw [c.data.length_data]
    exact hsize c hc
  rw [hlen _ fun x hx => w.length_of_mem hx, List.flatMap, hlen _ hadds, List.length_map] at heq
  have hshape := acc.tidy.shaped _ hm
  have := Nat.eq_of_mul_eq_mul_right (Nat.mul_pos hshape.rows hshape.cols) heq
  omega

/-- A variable can be given any number of samples without a flush. -/
theorem exists_adds {s₀ : MatLogger2 α} (hreach : (loggerIn α opt mode).Reachable s₀)
    (h₀ : Has name rows cols b s₀) (hb : 0 < b) (mem : Allocator α) (data : Eigen.MatrixXd α) (k : ℕ) :
    ∃ hist tr s, ((loggerIn α opt mode).startingAt s₀).Run hist tr s ∧
      (∀ ret, Result.flushed ret ∉ tr) ∧ (addsFor name tr).length = k ∧
      (∀ c ∈ addsFor name tr, c.data = data) ∧ s.backend = s₀.backend := by
  induction k with
  | zero => exact ⟨[s₀], [], s₀, .start rfl, fun _ => List.not_mem_nil, rfl, nofun, rfl⟩
  | succ k ih =>
    obtain ⟨hist, tr, s, hr, hflush, hlen, hdata, hback⟩ := ih
    obtain ⟨hist₀, tr₀, hr₀⟩ := hreach
    obtain ⟨vb, hm, -⟩ := Has.run ⟨hist₀, tr₀, hr₀⟩ h₀ hb hr
    obtain ⟨post, hr'⟩ := hr₀.append hr
    have hfind := find_of_mem (reachable_tidy (logger_of_loggerIn ⟨_, _, hr'⟩)) hm
    have hadd : s.call (.add mem name data) = some (s.update name (vb.addElem data).vb,
        [.added name data (vb.addElem data).ret (vb.addElem data).discarded]) := by
      simp only [MatLogger2.call, MatLogger2.add, findOrCreate_found hfind]
      rfl
    refine ⟨_, _, _, hr.next ⟨.add mem name data, _, _, trivial, hadd, .refl _, rfl⟩, fun ret h => ?_,
      ?_, fun c hc => ?_, hback⟩
    · rcases List.mem_append.mp h with h | h
      · exact hflush ret h
      · cases List.mem_singleton.mp h
    · rw [addsFor_append, addsFor_added, if_pos rfl, List.length_append, hlen]
      rfl
    · rw [addsFor_append, addsFor_added, if_pos rfl] at hc
      rcases List.mem_append.mp hc with hc | hc
      · exact hdata c hc
      · rw [List.mem_singleton.mp hc]

/-- Blocks of the rounded size hold what was asked for in exactly these cases. -/
theorem le_capacity_iff {n : ℕ} (hn : 1 ≤ n) :
    n ≤ NUM_BLOCKS * max 1 (n / NUM_BLOCKS) ↔ n < NUM_BLOCKS ∨ NUM_BLOCKS ∣ n := by
  have hcount : NUM_BLOCKS = 20 := rfl
  rw [hcount]
  omega

/-- The account of a variable at the end of a run from its creation. -/
theorem created_account (h : (loggerIn α opt mode).Reachable s) {mem : Allocator α}
    {rows cols : ℤ} {n : ℕ} (hn : 1 ≤ n) (hcreate : s.create mem name rows cols n = some (s₁, true)) :
    (loggerIn α opt mode).Reachable s₁ ∧
      Has name rows.toNat cols.toNat (max 1 (n / NUM_BLOCKS)) s₁ ∧ callsFor name s₁.backend = [] ∧
      ∀ hist tr s₂, ((loggerIn α opt mode).startingAt s₁).Run hist tr s₂ →
        ∃ tr' vb, Accounted mode tr' s₂ ∧ addsFor name tr' = addsFor name tr ∧
          (name, vb) ∈ s₂.vars ∧ vb.rows = rows.toNat ∧ vb.cols = cols.toNat ∧
          Whole (max 1 (n / NUM_BLOCKS)) vb := by
  obtain ⟨hist₀, tr₀, hr₀⟩ := h
  have hr₁ := run_call (.create mem name rows cols n) hr₀ trivial (congrArg (Option.map _) hcreate)
  obtain ⟨hnew, -, -, -, rfl⟩ := create_true hcreate
  have hsize : bufferSizeFor s.opt rows cols n = n := if_neg (by omega)
  rw [hsize, Int.toNat_natCast] at hr₁ ⊢
  obtain ⟨hadds, hcalls⟩ := (accounted_run hr₀).others name (find_eq_none.mp hnew)
  obtain ⟨vb₁, hfind, hrows, hcols, w₁, -⟩ := s.emplace_find mem name rows.toNat cols.toNat n
  have hhas : Has name rows.toNat cols.toNat (max 1 (n / NUM_BLOCKS))
      (s.emplace mem name rows.toNat cols.toNat n) := ⟨vb₁, mem_of_find hfind, hrows, hcols, w₁⟩
  refine ⟨⟨_, _, hr₁⟩, hhas, hcalls, fun hist tr s₂ hr => ?_⟩
  obtain ⟨vb, hvb⟩ := Has.run ⟨_, _, hr₁⟩ hhas (le_max_left 1 _) hr
  obtain ⟨post, hr₂⟩ := hr₁.append hr
  refine ⟨_, vb, accounted_run hr₂, ?_, hvb⟩
  rw [addsFor_append, addsFor_append, hadds]
  rfl

/-- If the blocks do not hold `n` samples, some of `n` samples are not written. -/
theorem exists_not_written [Inhabited α] (h : (loggerIn α opt mode).Reachable s) {mem : Allocator α}
    {rows cols : ℤ} {n : ℕ} (hn : 1 ≤ n) (hcreate : s.create mem name rows cols n = some (s₁, true))
    (hlt : NUM_BLOCKS * max 1 (n / NUM_BLOCKS) < n) :
    ∃ hist tr s₂, ((loggerIn α opt mode).startingAt s₁).Run hist tr s₂ ∧
      (∀ ret, Result.flushed ret ∉ tr) ∧ (addsFor name tr).length = n ∧
      (∀ c ∈ addsFor name tr, c.data.size = rows.toNat * cols.toNat) ∧ ¬ AllWritten name tr s₂ := by
  obtain ⟨hreach, hhas, hcalls, hend⟩ := created_account h hn hcreate
  obtain ⟨hist, tr, s₂, hr, hflush, hlen, hdata, hback⟩ := exists_adds hreach hhas
    (le_max_left 1 _) mem ⟨rows.toNat, cols.toNat, List.replicate _ default, List.length_replicate⟩ n
  obtain ⟨tr', vb, acc, hsame, hm, hvrows, hvcols, w⟩ := hend hist tr s₂ hr
  have hdims : ∀ c ∈ addsFor name tr, c.data.size = rows.toNat * cols.toNat := by
    intro c hc
    rw [hdata c hc]
    rfl
  refine ⟨hist, tr, s₂, hr, hflush, hlen, hdims, ?_⟩
  have hnot := not_allWritten acc hm w (by rw [hback]; exact hcalls)
    (by rw [hsame, hvrows, hvcols]; exact hdims) (by rw [hsame, hlen]; exact hlt)
  rwa [AllWritten, hsame] at hnot

/-- As many samples as a variable was created for are all written if and only if the
size is less than the number of blocks, or a multiple of it. -/
theorem buffer_size_iff [Inhabited α] (h : (loggerIn α opt mode).Reachable s) {mem : Allocator α}
    {rows cols bufferSize : ℤ} (hb : 1 ≤ bufferSize)
    (hcreate : s.create mem name rows cols bufferSize = some (s₁, true)) :
    (∀ hist tr s₂, ((loggerIn α opt mode).startingAt s₁).Run hist tr s₂ →
      (∀ ret, Result.flushed ret ∉ tr) → (addsFor name tr).length ≤ bufferSize →
      (∀ c ∈ addsFor name tr, c.data.size = rows.toNat * cols.toNat) → AllWritten name tr s₂) ↔
    bufferSize < NUM_BLOCKS ∨ (NUM_BLOCKS : ℤ) ∣ bufferSize := by
  obtain ⟨n, rfl⟩ := Int.eq_ofNat_of_zero_le (by omega : 0 ≤ bufferSize)
  have hn : 1 ≤ n := by omega
  rw [Int.natCast_dvd_natCast, Nat.cast_lt, ← le_capacity_iff hn]
  constructor
  · intro hall
    by_contra hlt
    obtain ⟨hist, tr, s₂, hr, hflush, hlen, hdims, hnot⟩ := exists_not_written h hn hcreate
      (not_le.mp hlt)
    exact hnot (hall hist tr s₂ hr hflush (by rw [hlen]) hdims)
  · intro hle hist tr s₂ hr _ hlen hdims
    obtain ⟨-, -, -, hend⟩ := created_account h hn hcreate
    obtain ⟨tr', vb, acc, hsame, hm, hvrows, hvcols, w⟩ := hend hist tr s₂ hr
    have hall := allWritten_of_le acc hm w (by rw [hsame, hvrows, hvcols]; exact hdims)
      (by rw [hsame]; omega)
    rwa [AllWritten, hsame] at hall

/-- A variable for 40 samples. -/
theorem buffer_size_iff_forty :
    let s : MatLogger2 ℕ := (make ⟨20, 20⟩).setBufferMode .producerConsumer
    ∃ s₁, s.create zeroed [120] 1 1 40 = some (s₁, true) ∧
      ((∀ hist tr s₂, ((loggerIn ℕ ⟨20, 20⟩ .producerConsumer).startingAt s₁).Run hist tr s₂ →
        (∀ ret, Result.flushed ret ∉ tr) → (addsFor [120] tr).length ≤ (40 : ℤ) →
        (∀ c ∈ addsFor [120] tr, c.data.size = (1 : ℤ).toNat * (1 : ℤ).toNat) →
          AllWritten [120] tr s₂) ↔
      (40 : ℤ) < NUM_BLOCKS ∨ (NUM_BLOCKS : ℤ) ∣ 40) := by
  intro s
  have hcreate := create_of_valid (s := s) zeroed one_pos one_pos (by norm_num : (0 : ℤ) < 40)
    (by norm_num) (rfl : s.find [120] = none)
  exact ⟨_, hcreate, buffer_size_iff ⟨_, _, .start (init_make ⟨20, 20⟩ .producerConsumer)⟩
    (by norm_num) hcreate⟩

/-- Of 21 samples, in blocks made for 21, some are not written: there are 20 places. -/
theorem twenty_one_not_written :
    let s : MatLogger2 ℕ := (make ⟨20, 20⟩).setBufferMode .producerConsumer
    ∃ s₁, s.create zeroed [120] 1 1 21 = some (s₁, true) ∧
      ∃ hist tr s₂, ((loggerIn ℕ ⟨20, 20⟩ .producerConsumer).startingAt s₁).Run hist tr s₂ ∧
        (∀ ret, Result.flushed ret ∉ tr) ∧ (addsFor [120] tr).length = 21 ∧
        (∀ c ∈ addsFor [120] tr, c.data.size = (1 : ℤ).toNat * (1 : ℤ).toNat) ∧
        ¬ AllWritten [120] tr s₂ := by
  intro s
  have hcreate := create_of_valid (s := s) zeroed one_pos one_pos (by norm_num : (0 : ℤ) < 21)
    (by norm_num) (rfl : s.find [120] = none)
  exact ⟨_, hcreate, exists_not_written (n := 21)
    ⟨_, _, .start (init_make ⟨20, 20⟩ .producerConsumer)⟩ (by norm_num) hcreate (by decide)⟩

end MatLogger2
end XBot
