import MatLogger2.Backend.Stack

/-! When the samples of a matrix variable come back from the file as a cube. The
blocks are all full but the last; a file in which a single sample meets a cube, or
in which all blocks are single samples, has no cube of all samples. -/

namespace XBot

open Matio VariableBuffer Transition MatLogger2

variable {α : Type}

/-- What `readvar` has returned is the cube of the samples: as many slices, and the
`k`-th block of columns is the `k`-th sample. -/
def IsCube (rows cols : ℕ) (xs : List (List α)) (r : Exec (Option (Eigen.MatrixXd α × ℤ))) : Prop :=
  ∃ m : Eigen.MatrixXd α, r = .value (some (m, (xs.length : ℤ))) ∧ m.rows = rows ∧
    m.cols = cols * xs.length ∧ ∀ k (h : k < xs.length), m.middleCols (k * cols) cols = xs[k]

/-- How the blocks of a variable are stacked. -/
theorem stack_cut (cols : ℕ) {size : ℕ} {xs : List (List α)} {front : List (List (List α))}
    {current : List (List α)} (c : BlockLog.Cut size xs front current) (hne : current ≠ []) :
    let a := (front ++ [current]).foldl (Stack.push cols) .empty
    (xs.length = 1 ∧ a = .flat cols xs.flatten) ∨
    (xs.length ≠ 1 ∧ (2 ≤ size ∧ xs.length % size ≠ 1) ∧ a = .cube xs.length xs.flatten) ∨
    (xs.length ≠ 1 ∧ ¬ (2 ≤ size ∧ xs.length % size ≠ 1) ∧
      ((∃ n data, a = .flat n data) ∨ ∃ k data, a = .cube k data ∧ k + 1 = xs.length)) := by
  have hlen := c.length
  have hpos := List.length_pos_iff.mpr hne
  have hle := c.current_le
  have hflat := c.flatten
  cases front with
  | nil =>
    -- one block
    simp only [List.flatten_nil, List.nil_append] at hflat
    subst hflat
    simp only [List.nil_append, List.foldl_cons, List.foldl_nil, Stack.push]
    by_cases h1 : current.length = 1
    · exact .inl ⟨h1, if_pos h1⟩
    · refine .inr (.inl ⟨h1, ⟨by omega, ?_⟩, if_neg h1⟩)
      rcases hle.lt_or_eq with hlt | heq
      · rw [Nat.mod_eq_of_lt hlt]
        exact h1
      · rw [heq, Nat.mod_self]
        omega
  | cons block front =>
    have hblock : block.length = size := c.full block List.mem_cons_self
    have hfront : ∀ b ∈ front, b.length = size := fun b hb => c.full b (List.mem_cons_of_mem _ hb)
    have hN : xs.length ≠ 1 := by
      rw [← hlen, List.length_cons, Nat.succ_mul]
      omega
    rw [List.length_cons, Nat.mul_comm] at hlen
    simp only [List.cons_append, List.foldl_cons, List.foldl_append, List.foldl_nil]
    by_cases hsize : size = 1
    · -- every block is a single sample
      refine .inr (.inr ⟨hN, by omega, .inl ?_⟩)
      have hcur : current.length = 1 := by omega
      rw [Stack.push, if_pos (hblock.trans hsize),
        Stack.foldl_flat fun b hb => (hfront b hb).trans hsize, Stack.push, if_pos hcur]
      exact ⟨_, _, rfl⟩
    · have htotal : block.length + front.flatten.length = size * (front.length + 1) := by
        have : front.flatten.length = front.length * size := by
          rw [List.length_flatten, List.map_congr_left hfront]
          simp
        rw [this, hblock, Nat.mul_succ, Nat.mul_comm]
        omega
      rw [Stack.push, if_neg (by omega), Stack.foldl_cube fun b hb => by rw [hfront b hb]; exact hsize,
        Stack.push]
      have hmod : xs.length % size = current.length % size := by
        rw [← hlen, Nat.mul_add_mod]
      by_cases hcur : current.length = 1
      · -- the last block is a single sample, which is not written
        refine .inr (.inr ⟨hN, ?_, .inr ⟨_, _, if_pos hcur, by omega⟩⟩)
        rw [hmod, hcur, Nat.mod_eq_of_lt (by omega)]
        simp
      · refine .inr (.inl ⟨hN, ⟨by omega, ?_⟩, ?_⟩)
        · rw [hmod]
          rcases hle.lt_or_eq with hlt | heq
          · rw [Nat.mod_eq_of_lt hlt]
            exact hcur
          · rw [heq, Nat.mod_self]
            omega
        · have htotal' : block.length + front.flatten.length + current.length = xs.length := by omega
          rw [if_neg hcur, htotal', ← hflat]
          simp

namespace MatioBackend

variable {f : MatFile α} {name : StdString} {rows cols : ℕ} {xs : List (List α)}

/-- A cube has as many slices as samples. -/
theorem slices_of_isCube {dims : List ℕ} {data : List α}
    (hf : f.find (cstr name) = some (.double (cstr name) dims (some data)))
    (h : IsCube rows cols xs (readvar ⟨some f, false⟩ name)) :
    slicesOf dims = xs.length ∧ ¬ intDim dims 1 * slicesOf dims ≥ 2 ^ 31 := by
  obtain ⟨m, hm, -⟩ := h
  rw [readvar_double (s := ⟨some f, false⟩) rfl hf, Exec.bind_eq_value] at hm
  obtain ⟨mat, hmap, hm⟩ := hm
  simp only [Exec.value.injEq, Option.some.injEq, Prod.mk.injEq] at hm
  refine ⟨hm.2, fun hge => ?_⟩
  rw [mapData, if_pos (.inr (.inr hge))] at hmap
  cases hmap

theorem isCube_of_dims {dims : List ℕ}
    (hf : f.find (cstr name) = some (.double (cstr name) dims (some xs.flatten)))
    (hrows : intDim dims 0 = rows) (hcols : intDim dims 1 = cols)
    (hslices : slicesOf dims = xs.length) (hlt : cols * xs.length < 2 ^ 31)
    (hx : ∀ x ∈ xs, x.length = rows * cols) :
    IsCube rows cols xs (readvar ⟨some f, false⟩ name) := by
  have hflat : xs.flatten.length = rows * (cols * xs.length) := by
    rw [List.length_flatten, List.map_congr_left hx, ← Nat.mul_assoc]
    simp [Nat.mul_comm]
  have hdefined : ¬ ((rows : ℤ) < 0 ∨ (cols : ℤ) * (xs.length : ℤ) < 0 ∨
      (cols : ℤ) * (xs.length : ℤ) ≥ 2 ^ 31) := by
    norm_cast
    omega
  have htoNat : ((cols : ℤ) * (xs.length : ℤ)).toNat = cols * xs.length := by norm_cast
  have hle : rows * (cols * xs.length) ≤ xs.flatten.length := hflat.ge
  refine ⟨⟨rows, cols * xs.length, xs.flatten, hflat⟩, ?_, rfl, rfl, fun k hk => ?_⟩
  · rw [readvar_double (s := ⟨some f, false⟩) rfl hf, mapData, hrows, hcols, hslices,
      if_neg hdefined, htoNat, Int.toNat_natCast,
      Option.getD_some, Eigen.MatrixXd.map, dif_pos hle]
    simp only [Exec.bind, List.take_of_length_le hflat.le]
  · rw [Eigen.MatrixXd.middleCols, Nat.mul_assoc, Nat.mul_comm cols rows]
    exact flatten_slice hx hk

/-- What is read back of the stacked blocks is their cube in exactly these cases. -/
theorem isCube_stack {size : ℕ} {front : List (List (List α))} {current : List (List α)}
    (c : BlockLog.Cut size xs front current) (hne : current ≠ [])
    (hf : f.find (cstr name) = ((front ++ [current]).foldl (Stack.push cols) .empty).matvar
      (cstr name) rows cols)
    (hrows : 0 < rows) (hcols : 0 < cols) (hsize : rows * cols < 2 ^ 31)
    (hx : ∀ x ∈ xs, x.length = rows * cols) :
    IsCube rows cols xs (readvar ⟨some f, false⟩ name) ↔
      xs.length = 1 ∨ (2 ≤ size ∧ xs.length % size ≠ 1 ∧ cols * xs.length < 2 ^ 31) := by
  have hr : ∀ dims, intDim (rows :: dims) 0 = rows := by
    intro dims
    rw [intDim_zero, toInt_natCast ((Nat.le_mul_of_pos_right rows hcols).trans_lt hsize)]
  have hc : ∀ dims, intDim (rows :: cols :: dims) 1 = cols := by
    intro dims
    rw [intDim_one, toInt_natCast ((Nat.le_mul_of_pos_left cols hrows).trans_lt hsize)]
  rcases stack_cut cols c hne with ⟨h1, ha⟩ | ⟨h1, hb, ha⟩ | ⟨h1, hb, ha⟩
  · -- one sample
    rw [ha] at hf
    have hlt : cols * xs.length < 2 ^ 31 := by
      rw [h1, Nat.mul_one]
      exact (Nat.le_mul_of_pos_left cols hrows).trans_lt hsize
    have hone : slicesOf [rows, cols] = xs.length := by
      rw [slicesOf_matrix, h1, Nat.cast_one]
    exact ⟨fun _ => .inl h1, fun _ => isCube_of_dims hf (hr _) (hc _) hone hlt hx⟩
  · -- all samples in a cube
    rw [ha] at hf
    have hslices := slicesOf_cube rows cols xs.length
    constructor
    · intro h
      obtain ⟨hs, hge⟩ := slices_of_isCube hf h
      rw [hs, hc] at hge
      have hcast : ((cols * xs.length : ℕ) : ℤ) = (cols : ℤ) * (xs.length : ℤ) := Nat.cast_mul _ _
      exact .inr ⟨hb.1, hb.2, by omega⟩
    · rintro (h | ⟨-, -, hlt⟩)
      · exact absurd h h1
      · have hN : xs.length < 2 ^ 31 := (Nat.le_mul_of_pos_left _ hcols).trans_lt hlt
        exact isCube_of_dims hf (hr _) (hc _) (hslices.trans (toInt_natCast hN)) hlt hx
  · -- some samples are missing, or there is no third dimension
    have hno : ¬ IsCube rows cols xs (readvar ⟨some f, false⟩ name) := by
      intro h
      rcases ha with ⟨n, data, ha⟩ | ⟨k, data, ha, hk⟩
      · rw [ha] at hf
        obtain ⟨hs, -⟩ := slices_of_isCube hf h
        rw [slicesOf_matrix] at hs
        omega
      · rw [ha] at hf
        obtain ⟨hs, -⟩ := slices_of_isCube hf h
        rw [slicesOf_cube] at hs
        have hrange := (toInt_range k).2
        rw [toInt_natCast (by omega)] at hs
        omega
    refine ⟨fun h => absurd h hno, fun h => ?_⟩
    rcases h with h | h
    · exact absurd h h1
    · exact absurd ⟨h.1, h.2.1⟩ hb

end MatioBackend

namespace MatLogger2

/-- Calls that are those of some variables, or save containers. -/
theorem sound_of_calls {calls : List (BackendCall α)}
    (h : ∀ n, callsFor n calls ≠ [] → ∃ vb : VariableBuffer α, ∃ blocks,
      List.Forall₂ (IsWrite vb) blocks (callsFor n calls)) : ∀ call ∈ calls, call.Sound := by
  intro call hc
  cases call with
  | writeContainer name data => exact .container name data
  | write n data rows cols slices =>
    have hmem : BackendCall.write n data rows cols slices ∈ callsFor n calls :=
      List.mem_filter.mpr ⟨hc, by simp [BackendCall.isFor]⟩
    obtain ⟨vb, blocks, hw⟩ := h n (List.ne_nil_of_mem hmem)
    obtain ⟨block, hb⟩ := isWrite_of_mem hw _ hmem
    exact .write hb

/-- The file that the calls of the backend lead to, on a new one. -/
def file (lib : Library α) (heap : Heap) (calls : List (BackendCall α)) :
    Option (MatioBackend α) :=
  calls.foldlM (MatioBackend.perform lib heap) MatioBackend.init

/-- Where no block has been dropped, and no other variable goes by the same name,
the samples come back as a cube in exactly these cases. -/
theorem cube_cases {tr : List (Result α)} {s : MatLogger2 α}
    (acc : Accounted .producerConsumer tr s) {name : StdString} {vb : VariableBuffer α}
    (hm : (name, vb) ∈ s.vars) (hcols : 2 ≤ vb.cols) (hadded : acceptedFor name tr ≠ [])
    (hkept : discardedFor name tr = [])
    (hvars : ∀ p ∈ s.vars, cstr p.1 = cstr name → p.1 = name)
    (hsaved : ∀ p ∈ containers s.backend ++ s.matdataQueue, cstr p.1 ≠ cstr name)
    (lib : Library α) (heap : Heap) :
    ∃ s' f, (∀ fuel, s.destroy (fuel + 2) = some (s', none)) ∧
      file lib heap s'.backend = some ⟨some f, false⟩ ∧
      (IsCube vb.rows vb.cols (acceptedFor name tr) (MatioBackend.readvar ⟨some f, false⟩ name) ↔
        (acceptedFor name tr).length = 1 ∨
        (2 ≤ vb.current.getSize ∧ (acceptedFor name tr).length % vb.current.getSize ≠ 1 ∧
          vb.cols * (acceptedFor name tr).length < 2 ^ 31)) := by
  obtain ⟨s', hd, hcont, hother, hall⟩ := destroy_accounts acc
  obtain ⟨b, blocks, a, -, hh, hw⟩ := hall name vb hm
  obtain rfl : vb.current.getSize = b := a.whole.size _
  have hname : vb.name = name := acc.tidy.named _ hm
  have hshape := acc.tidy.shaped _ hm
  have c := hh.cut a.pos hkept
  have hne : vb.log.current ≠ [] := by
    intro h
    have hflat := c.flatten
    rw [c.nil h, h] at hflat
    exact hadded hflat.symm
  have hlog : blocks ++ vb.log.blocks = (blocks ++ vb.log.queue) ++ [vb.log.current] := by
    obtain ⟨x, t, hx⟩ := List.exists_cons_of_ne_nil hne
    rw [BlockLog.blocks, hx, List.append_assoc]
  have hkey : ∀ n, callsFor n s'.backend ≠ [] → n ∈ s.vars.map Prod.fst := by
    intro n hn
    by_contra hno
    exact hn (hother n hno)
  have hsound : ∀ call ∈ s'.backend, call.Sound := sound_of_calls fun n hn => by
    obtain ⟨p, hp, rfl⟩ := List.mem_map.mp (hkey n hn)
    obtain ⟨_, blocks', -, -, -, hw'⟩ := hall p.1 p.2 hp
    exact ⟨p.2, _, hw'⟩
  have htarget : ∀ call ∈ s'.backend, call.target = cstr vb.name → call.isFor vb.name := by
    intro call hc ht
    cases call with
    | writeContainer n d =>
      have hmem : (n, d) ∈ containers s'.backend := List.mem_filterMap.mpr ⟨_, hc, rfl⟩
      rw [hcont] at hmem
      exact absurd (hname ▸ ht) (hsaved _ hmem)
    | write n data rows cols slices =>
      have hmem : BackendCall.write n data rows cols slices ∈ callsFor n s'.backend :=
        List.mem_filter.mpr ⟨hc, by simp [BackendCall.isFor]⟩
      obtain ⟨p, hp, rfl⟩ := List.mem_map.mp (hkey n (List.ne_nil_of_mem hmem))
      have hn : p.1 = name := hvars p hp (hname ▸ ht)
      rw [hname, BackendCall.isFor, hn]
      exact decide_eq_true rfl
  have hblocks : ∀ block ∈ blocks ++ vb.log.blocks, block ≠ [] := by
    rw [hlog]
    intro block hb
    rcases List.mem_append.mp hb with hb | hb
    · exact List.length_pos_iff.mp (c.full block hb ▸ a.pos)
    · exact List.mem_singleton.mp hb ▸ hne
  have hmatrix : vb.cols ≠ 1 := by omega
  obtain ⟨f, hf, hstack, -⟩ := MatioBackend.perform_all lib heap (f := .empty) (a := .empty)
    hmatrix (Nat.mul_pos hshape.rows hshape.cols) hsound htarget hblocks (hname.symm ▸ hw)
    ⟨rfl, fun h => absurd rfl h⟩
  rw [hlog, hname] at hstack
  exact ⟨s', f, hd, hf, MatioBackend.isCube_stack c hne hstack hshape.rows hshape.cols hshape.size
    a.accepted_length⟩

/-- The samples of a matrix variable come back as a cube if there is one of them,
or if no block is of one sample and an `int` can count the columns. -/
theorem cube_iff {opt : Options} {hist : List (MatLogger2 α)} {tr : List (Result α)}
    {s : MatLogger2 α} (h : (loggerIn α opt .producerConsumer).Run hist tr s) {name : StdString}
    {vb : VariableBuffer α} (hm : (name, vb) ∈ s.vars) (hcols : 2 ≤ vb.cols)
    (hadded : acceptedFor name tr ≠ []) (hkept : discardedFor name tr = [])
    (hvars : ∀ p ∈ s.vars, cstr p.1 = cstr name → p.1 = name)
    (hsaved : ∀ p ∈ containers s.backend ++ s.matdataQueue, cstr p.1 ≠ cstr name)
    (lib : Library α) (heap : Heap) :
    let xs := acceptedFor name tr
    let b := vb.current.getSize
    ∃ s' back, (∀ fuel, s.destroy (fuel + 2) = some (s', none)) ∧
      file lib heap s'.backend = some back ∧
      (IsCube vb.rows vb.cols xs (back.readvar name) ↔
        xs.length = 1 ∨ (2 ≤ b ∧ xs.length % b ≠ 1 ∧ vb.cols * xs.length < 2 ^ 31)) := by
  obtain ⟨s', f, hd, hf, hiff⟩ := cube_cases (accounted_run h) hm hcols hadded hkept hvars hsaved
    lib heap
  exact ⟨s', _, hd, hf, hiff⟩

/-- Two samples in a block of two. -/
theorem cube_iff_two : ∃ (hist : List (MatLogger2 ℕ)) (tr : List (Result ℕ)) (s : MatLogger2 ℕ),
    (loggerIn ℕ ⟨40, 40⟩ .producerConsumer).Run hist tr s ∧
      acceptedFor [120] tr = [[1, 2], [3, 4]] ∧
      ∃ s' back, s.destroy 2 = some (s', none) ∧ file .strict .zeros s'.backend = some back ∧
        IsCube 1 2 [[1, 2], [3, 4]] (back.readvar [120]) := by
  obtain ⟨hist, tr, s, vb, h, hs, hrows, hcols, hsize, hacc⟩ := run_samples ⟨40, 40⟩
    .producerConsumer zeroed [120] 1 2 40 (by decide) (by decide) (by decide) (by decide)
    [⟨1, 2, [1, 2], rfl⟩, ⟨1, 2, [3, 4], rfl⟩] (by decide)
  have hsize : vb.current.getSize = 2 := hsize
  have hkept := (accounted_run h).discardedFor_nil hs.mem (by rw [hacc, hsize]; decide)
  obtain ⟨s', back, hd, hf, hiff⟩ := cube_iff h hs.mem hcols.ge (by rw [hacc]; simp) hkept
    (by simp [hs.vars]) (by simp [hs.backend, hs.matdataQueue, containers]) .strict .zeros
  refine ⟨hist, tr, s, h, hacc, s', back, hd 0, hf, ?_⟩
  rw [hacc, hsize, hrows, hcols] at hiff
  exact hiff.mpr (.inr (by decide))

/-- Two samples in two blocks of one. -/
theorem singles_no_cube : ∃ (hist : List (MatLogger2 ℕ)) (tr : List (Result ℕ))
    (s : MatLogger2 ℕ) (vb : VariableBuffer ℕ),
    (loggerIn ℕ ⟨20, 20⟩ .producerConsumer).Run hist tr s ∧ s.vars = [([120], vb)] ∧
      vb.rows = 1 ∧ vb.cols = 2 ∧ vb.current.getSize = 1 ∧
      acceptedFor [120] tr = [[1, 2], [3, 4]] ∧ discardedFor [120] tr = [] ∧
      ∃ s' back, s.destroy 2 = some (s', none) ∧ file .strict .zeros s'.backend = some back ∧
        ¬ IsCube vb.rows vb.cols (acceptedFor [120] tr) (back.readvar [120]) := by
  obtain ⟨hist, tr, s, vb, h, hs, hrows, hcols, hsize, hacc⟩ := run_samples ⟨20, 20⟩
    .producerConsumer zeroed [120] 1 2 20 (by decide) (by decide) (by decide) (by decide)
    [⟨1, 2, [1, 2], rfl⟩, ⟨1, 2, [3, 4], rfl⟩] (by decide)
  have hsize : vb.current.getSize = 1 := hsize
  have hkept := (accounted_run h).discardedFor_nil hs.mem (by rw [hacc, hsize]; decide)
  obtain ⟨s', f, hd, hf, hiff⟩ := cube_cases (accounted_run h) hs.mem hcols.ge (by rw [hacc]; simp)
    hkept (by simp [hs.vars]) (by simp [hs.backend, hs.matdataQueue, containers]) .strict .zeros
  refine ⟨hist, tr, s, vb, h, hs.vars, hrows, hcols, hsize, hacc, hkept, s', _, hd 0, hf, ?_⟩
  rw [hiff, hacc, hsize, hcols]
  decide

end MatLogger2
end XBot
