import MatLogger2.Logger.Destructor

/-! Where the elements of a matrix sample end up. A sample is copied column by column
in its own shape, and the slices that are handed to the backend have the shape of
the variable: the two agree only for samples of that shape, and `add_elem` looks at
the number of elements. -/

namespace XBot

open VariableBuffer Transition

variable {α : Type}

/-- The slices of a call of `write`, each as its elements by row and column. -/
def BackendCall.slices : BackendCall α → List (ℕ → ℕ → Option α)
  | .write _ data rows cols slices =>
    (List.range slices.toNat).map fun k i j =>
      if i < rows ∧ j < cols then data[k * (rows.toNat * cols.toNat) + (i + j * rows.toNat)]?
      else none
  | .writeContainer _ _ => []

/-- All slices that have been handed over for a variable. -/
def slicesFor (name : StdString) (calls : List (BackendCall α)) : List (ℕ → ℕ → Option α) :=
  (callsFor name calls).flatMap BackendCall.slices

/-- The sample that a call of `add_elem` has accepted. -/
def AddCall.sample (a : AddCall α) : Option (Eigen.MatrixXd α) :=
  match a.ret with
  | .ok true => some a.data
  | _ => none

def samplesFor (name : StdString) (tr : List (MatLogger2.Result α)) : List (Eigen.MatrixXd α) :=
  (addsFor name tr).filterMap AddCall.sample

theorem acceptedFor_eq (name : StdString) (tr : List (MatLogger2.Result α)) :
    acceptedFor name tr = (samplesFor name tr).map (·.data) := by
  rw [acceptedFor, samplesFor, List.map_filterMap]
  refine List.filterMap_congr fun a _ => ?_
  unfold AddCall.accepted AddCall.sample
  rcases a.ret with _ | ok
  · rfl
  · cases ok <;> rfl

/-- The slice holds the elements that the sample has at the same places of the
column, whatever the sample's shape. -/
def Fills (rows cols : ℕ) (x : List α) (slice : ℕ → ℕ → Option α) : Prop :=
  ∀ i < rows, ∀ j < cols, slice i j = x[i + j * rows]?

/-- The sample has the variable's shape, and the slice has each of its coefficients
in place, after the conversion if there was one. -/
structure LaidOut (rows cols : ℕ) (X : Eigen.MatrixXd α) (slice : ℕ → ℕ → Option α) : Prop where
  hasRows : X.rows = rows
  hasCols : X.cols = cols
  coeff : ∀ (β : Type) (f : β → α) (Y : Eigen.MatrixXd β), Y.cast f = X →
    ∀ i < rows, ∀ j < cols, ∃ y, Y.coeff i j = some y ∧ slice i j = some (f y)

theorem Fills.laidOut {rows cols : ℕ} {X : Eigen.MatrixXd α} {slice : ℕ → ℕ → Option α}
    (h : Fills rows cols X.data slice) (hr : X.rows = rows) (hc : X.cols = cols) :
    LaidOut rows cols X slice := by
  refine ⟨hr, hc, fun β f Y hY i hi j hj => ?_⟩
  subst hY
  subst hr
  subst hc
  obtain ⟨y, hy⟩ := Y.coeff_isSome hi hj
  refine ⟨y, hy, ?_⟩
  have hcoeff := (Y.cast f).coeff_eq hi hj
  rw [h i hi j hj, ← hcoeff, Eigen.MatrixXd.coeff_cast, hy, Option.map_some]

/-- A call of `write` for a matrix variable has a slice for each sample of the block. -/
theorem slices_isWrite {vb : VariableBuffer α} {block : List (List α)} {call : BackendCall α}
    (hcols : vb.cols ≠ 1) (h : IsWrite vb block call) :
    List.Forall₂ (Fills vb.rows vb.cols) block call.slices := by
  obtain ⟨data, rfl, htake, hcol⟩ := h
  have hle : block.length ≤ data.length := by
    rw [← htake, List.length_take]
    exact Nat.min_le_right _ _
  have he : (MatLogger2.writeCall vb data block.length).slices =
      (List.range block.length).map fun k (i j : ℕ) =>
        if (i : ℤ) < vb.rows ∧ (j : ℤ) < vb.cols then
          data.flatten[k * (vb.rows * vb.cols) + (i + j * vb.rows)]? else none := by
    rw [MatLogger2.writeCall, if_neg hcols]
    rfl
  rw [he, List.forall₂_iff_get]
  refine ⟨by simp, fun k hk _ i hi j hj => ?_⟩
  have hkd : k < data.length := hk.trans_le hle
  have hslice := flatten_slice hcol hkd
  have hget : block[k] = data[k] := by
    rw [List.getElem_of_eq htake.symm hk, List.getElem_take]
  have hbounds : (i : ℤ) < vb.rows ∧ (j : ℤ) < vb.cols := by omega
  simp only [List.get_eq_getElem, List.getElem_map, List.getElem_range, if_pos hbounds, hget]
  rw [← hslice, List.getElem?_take_of_lt (Eigen.MatrixXd.index_lt hi hj), List.getElem?_drop]

theorem slices_isWrites {vb : VariableBuffer α} {blocks : List (List (List α))}
    {calls : List (BackendCall α)} (hcols : vb.cols ≠ 1)
    (h : List.Forall₂ (IsWrite vb) blocks calls) :
    List.Forall₂ (Fills vb.rows vb.cols) blocks.flatten (calls.flatMap BackendCall.slices) := by
  induction h with
  | nil => exact .nil
  | cons hw _ ih =>
    rw [List.flatten_cons, List.flatMap_cons]
    exact List.rel_append (slices_isWrite hcols hw) ih

namespace MatLogger2

variable {opt : Options} {mode : Mode} {hist : List (MatLogger2 α)} {tr : List (Result α)}
variable {s : MatLogger2 α} {name : StdString} {vb : VariableBuffer α}

/-- Once the logger is destroyed, there is one slice for each accepted sample that has
not been dropped, in their order. -/
theorem slices_written (acc : Accounted mode tr s) (hm : (name, vb) ∈ s.vars)
    (hcols : vb.cols ≠ 1) :
    ∃ s' kept dropped, (∀ fuel, s.destroy (fuel + 2) = some (s', none)) ∧
      kept.Sublist (samplesFor name tr) ∧ (samplesFor name tr).Perm (kept ++ dropped) ∧
      (dropped.map (·.data)).Perm (discardedFor name tr) ∧
      List.Forall₂ (fun X => Fills vb.rows vb.cols X.data) kept (slicesFor name s'.backend) := by
  obtain ⟨s', hd, -, -, hall⟩ := destroy_accounts acc
  obtain ⟨b, blocks, -, -, hh, hw⟩ := hall name vb hm
  have hfills := slices_isWrites hcols hw
  rw [List.flatten_append, BlockLog.flatten_blocks] at hfills
  have hsub := hh.sublist
  rw [acceptedFor_eq] at hsub
  obtain ⟨kept, hkept, hdata⟩ := List.sublist_map_iff.mp hsub
  obtain ⟨dropped, hperm⟩ := hkept.exists_perm_append
  refine ⟨s', kept, dropped, hd, hkept, hperm, ?_, ?_⟩
  · -- what is accepted and not kept has been dropped
    have hmap := (hperm.map (·.data)).symm.trans (acceptedFor_eq name tr ▸ hh.perm)
    rw [List.map_append, hdata] at hmap
    exact (List.perm_append_left_iff _).mp hmap
  · rw [hdata] at hfills
    exact List.forall₂_map_left_iff.mp hfills

theorem mem_samplesFor (acc : Accounted mode tr s) (hm : (name, vb) ∈ s.vars)
    {X : Eigen.MatrixXd α} : X ∈ samplesFor name tr ↔
      ∃ a ∈ addsFor name tr, a.data.size = vb.rows * vb.cols ∧ a.data = X := by
  obtain ⟨b, account⟩ := acc.each name vb hm
  rw [samplesFor, List.mem_filterMap]
  refine exists_congr fun a => and_congr_right fun ha => ?_
  rw [AddCall.sample, account.returns a ha]
  by_cases hsize : a.data.size = vb.rows * vb.cols
  · simp [hsize]
  · simp [hsize]

/-- The samples that a matrix variable has accepted have its shape, and those that
are written are laid out as they were, if and only if each sample offered with as
many elements has as many rows. -/
theorem layout_iff (h : (loggerIn α opt mode).Run hist tr s) (hm : (name, vb) ∈ s.vars)
    (hcols : 2 ≤ vb.cols) :
    ∃ s' kept dropped, (∀ fuel, s.destroy (fuel + 2) = some (s', none)) ∧
      kept.Sublist (samplesFor name tr) ∧ (samplesFor name tr).Perm (kept ++ dropped) ∧
      (dropped.map (·.data)).Perm (discardedFor name tr) ∧
      (((∀ X ∈ samplesFor name tr, X.rows = vb.rows ∧ X.cols = vb.cols) ∧
          List.Forall₂ (LaidOut vb.rows vb.cols) kept (slicesFor name s'.backend)) ↔
        ∀ a ∈ addsFor name tr, a.data.size = vb.rows * vb.cols → a.data.rows = vb.rows) := by
  have acc := accounted_run h
  obtain ⟨s', kept, dropped, hd, hkept, hperm, hdrop, hfills⟩ := slices_written acc hm
    (by omega : vb.cols ≠ 1)
  have hrows := (acc.tidy.shaped _ hm).rows
  refine ⟨s', kept, dropped, hd, hkept, hperm, hdrop, fun hall a ha hsize => ?_, fun hall => ?_⟩
  · exact (hall.1 _ ((mem_samplesFor acc hm).mpr ⟨a, ha, hsize, rfl⟩)).1
  · have hshape : ∀ X ∈ samplesFor name tr, X.rows = vb.rows ∧ X.cols = vb.cols := by
      intro X hX
      obtain ⟨a, ha, hsize, rfl⟩ := (mem_samplesFor acc hm).mp hX
      have hr := hall a ha hsize
      rw [Eigen.MatrixXd.size, hr] at hsize
      exact ⟨hr, Nat.eq_of_mul_eq_mul_left hrows hsize⟩
    have hboth := (List.forall₂_and_left _ _).mpr
      ⟨fun X hX => hshape X (hkept.subset hX), hfills⟩
    exact ⟨hshape, hboth.imp fun X slice hX => hX.2.laidOut hX.1.1 hX.1.2⟩

/-- A new variable and one sample for it. -/
theorem run_sample (mem : Allocator α) (name : StdString) {rows cols : ℤ} (hr : 0 < rows) (hc : 0 < cols)
    (hlt : rows * cols < 2 ^ 31) (X : Eigen.MatrixXd α) (hX : X.size = rows.toNat * cols.toNat) :
    ∃ hist tr s vb, (loggerIn α ⟨40, 40⟩ .producerConsumer).Run hist tr s ∧ Single name vb s ∧
      vb.rows = rows.toNat ∧ vb.cols = cols.toNat ∧ addsFor name tr = [⟨X, .ok true, []⟩] ∧
      discardedFor name tr = [] := by
  obtain ⟨_, tr, _, vb, h, hs, hrows, hcols, w, hadds⟩ := run_create ⟨40, 40⟩ .producerConsumer mem
    name hr hc (by norm_num : (0 : ℤ) < 40) hlt
  obtain ⟨hist, s, h', hs'⟩ := run_add h mem hs X
  rw [← hrows, ← hcols] at hX
  obtain ⟨hret, hlost, hbecomes⟩ := addElem_spec w (le_max_left 1 _) hX
  have hadds' : addsFor name (tr ++ [.added name X (vb.addElem X).ret (vb.addElem X).discarded]) =
      [⟨X, .ok true, (vb.addElem X).discarded⟩] := by
    rw [addsFor_append, hadds, addsFor_added, if_pos rfl, hret]
    rfl
  have hnone := (accounted_run h').discardedFor_nil hs'.mem (by
    rw [acceptedFor, hadds']
    exact Nat.mul_pos (by decide) (BufferBlock.getSize_pos _))
  have hdiscarded : (vb.addElem X).discarded = [] := by
    rw [discardedFor, hadds'] at hnone
    simpa using hnone
  exact ⟨hist, _, s, _, h', hs', hbecomes.same.rows.trans hrows, hbecomes.same.cols.trans hcols,
    hadds'.trans (by rw [hdiscarded]), hnone⟩

/-- A sample of 2 x 3 elements in a variable of that shape. -/
theorem layout_iff_two_three : ∃ (hist : List (MatLogger2 ℕ)) (tr : List (Result ℕ))
    (s : MatLogger2 ℕ) (vb : VariableBuffer ℕ),
    (loggerIn ℕ ⟨40, 40⟩ .producerConsumer).Run hist tr s ∧ s.vars = [([120], vb)] ∧
      samplesFor [120] tr = [⟨2, 3, [1, 2, 3, 4, 5, 6], rfl⟩] ∧
      ∃ s' kept, (∀ fuel, s.destroy (fuel + 2) = some (s', none)) ∧
        List.Forall₂ (LaidOut 2 3) kept (slicesFor [120] s'.backend) := by
  obtain ⟨hist, tr, s, vb, h, hs, hrows, hcols, hadds, -⟩ := run_sample zeroed [120]
    (by norm_num : (0 : ℤ) < 2) (by norm_num : (0 : ℤ) < 3) (by norm_num)
    ⟨2, 3, [1, 2, 3, 4, 5, 6], rfl⟩ (by decide)
  have hrows : vb.rows = 2 := hrows
  have hcols : vb.cols = 3 := hcols
  obtain ⟨s', kept, dropped, hd, -, -, -, hiff⟩ := layout_iff h hs.mem (by omega)
  refine ⟨hist, tr, s, vb, h, hs.vars, by rw [samplesFor, hadds]; rfl, s', kept, hd, ?_⟩
  rw [hadds, hrows, hcols] at hiff
  refine (hiff.mpr fun a ha _ => ?_).2
  rw [List.mem_singleton.mp ha]

/-- A sample of 3 x 2 elements is accepted for a variable of 2 x 3, and the second
element of its first row is not where the slice has it. -/
theorem reshaped_scrambled : ∃ (hist : List (MatLogger2 ℕ)) (tr : List (Result ℕ))
    (s : MatLogger2 ℕ) (vb : VariableBuffer ℕ) (X : Eigen.MatrixXd ℕ),
    (loggerIn ℕ ⟨40, 40⟩ .producerConsumer).Run hist tr s ∧ s.vars = [([120], vb)] ∧
      vb.rows = 2 ∧ vb.cols = 3 ∧ samplesFor [120] tr = [X] ∧ X.rows = 3 ∧
      X.coeff 0 1 = some 4 ∧
      ∃ s' slice, (∀ fuel, s.destroy (fuel + 2) = some (s', none)) ∧
        slicesFor [120] s'.backend = [slice] ∧ slice 0 1 = some 3 := by
  obtain ⟨hist, tr, s, vb, h, hs, hrows, hcols, hadds, hnone⟩ := run_sample zeroed [120]
    (by norm_num : (0 : ℤ) < 2) (by norm_num : (0 : ℤ) < 3) (by norm_num)
    ⟨3, 2, [1, 2, 3, 4, 5, 6], rfl⟩ (by decide)
  have hrows : vb.rows = 2 := hrows
  have hcols : vb.cols = 3 := hcols
  have hsamples : samplesFor [120] tr = [⟨3, 2, [1, 2, 3, 4, 5, 6], rfl⟩] := by
    rw [samplesFor, hadds]
    rfl
  obtain ⟨s', kept, dropped, hd, hkept, hperm, hdrop, hfills⟩ := slices_written (accounted_run h)
    hs.mem (by omega)
  have hdropped : dropped = [] := by
    rw [hnone] at hdrop
    exact List.map_eq_nil_iff.mp hdrop.eq_nil
  rw [hdropped, List.append_nil, hsamples] at hperm
  rw [List.perm_singleton.mp hperm.symm] at hfills
  obtain ⟨slice, rest, hfill, hrest, heq⟩ := List.forall₂_cons_left_iff.mp hfills
  rw [List.forall₂_nil_left_iff.mp hrest] at heq
  refine ⟨hist, tr, s, vb, _, h, hs.vars, hrows, hcols, hsamples, rfl, rfl, s', slice, hd, heq, ?_⟩
  rw [hrows, hcols] at hfill
  exact hfill 0 (by decide) 1 (by decide)

end MatLogger2
end XBot
