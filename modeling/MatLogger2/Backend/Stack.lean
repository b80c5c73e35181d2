import MatLogger2.Backend.Model
import MatLogger2.Logger.Destructor

/-! The array that a file keeps of a matrix variable. Each block is stacked on it
as its number of samples has it: along the third dimension, or, if the block is a
single sample, along the second. What does not fit the rank is not written. -/

namespace XBot

open Matio VariableBuffer MatLogger2

variable {α : Type}

/-- What is stored of a variable: nothing yet, a matrix of so many columns, or a
cube of so many slices. -/
inductive Stack (α : Type)
  | empty
  | flat (cols : ℕ) (data : List α)
  | cube (slices : ℕ) (data : List α)

namespace Stack

def push (cols : ℕ) (a : Stack α) (block : List (List α)) : Stack α :=
  match a with
  | .empty => if block.length = 1 then .flat cols block.flatten else .cube block.length block.flatten
  | .flat c data => if block.length = 1 then .flat (c + cols) (data ++ block.flatten) else a
  | .cube k data => if block.length = 1 then a else .cube (k + block.length) (data ++ block.flatten)

def matvar (name : StdString) (rows cols : ℕ) : Stack α → Option (Matvar α)
  | .empty => none
  | .flat c data => some (.double name [rows, c] (some data))
  | .cube k data => some (.double name [rows, cols, k] (some data))

/-- Blocks of several samples make a cube. -/
theorem foldl_cube {cols : ℕ} {blocks : List (List (List α))} (h : ∀ block ∈ blocks, block.length ≠ 1)
    (k : ℕ) (data : List α) :
    blocks.foldl (push cols) (.cube k data) =
      .cube (k + blocks.flatten.length) (data ++ blocks.flatten.flatten) := by
  induction blocks generalizing k data with
  | nil => simp
  | cons block blocks ih =>
    rw [List.foldl_cons, push, if_neg (h block List.mem_cons_self),
      ih fun b hb => h b (List.mem_cons_of_mem block hb)]
    simp [Nat.add_assoc]

/-- Blocks of one sample make a matrix. -/
theorem foldl_flat {cols : ℕ} {blocks : List (List (List α))} (h : ∀ block ∈ blocks, block.length = 1)
    (c : ℕ) (data : List α) :
    blocks.foldl (push cols) (.flat c data) =
      .flat (c + cols * blocks.length) (data ++ blocks.flatten.flatten) := by
  induction blocks generalizing c data with
  | nil => simp
  | cons block blocks ih =>
    rw [List.foldl_cons, push, if_pos (h block List.mem_cons_self),
      ih fun b hb => h b (List.mem_cons_of_mem block hb)]
    simp only [List.length_cons, List.flatten_cons, List.flatten_append, List.append_assoc,
      flat.injEq, and_true]
    rw [Nat.mul_succ]
    omega

end Stack

/-- The name in the file under which a call writes. -/
def BackendCall.target : BackendCall α → StdString
  | .write varName _ _ _ _ => cstr varName
  | .writeContainer name _ => cstr name

/-- A call that the logger makes. -/
inductive BackendCall.Sound : BackendCall α → Prop
  | write {vb : VariableBuffer α} {block : List (List α)} {call : BackendCall α} :
      IsWrite vb block call → Sound call
  | container (name : StdString) (data : MatData α) : Sound (.writeContainer name data)

namespace MatioBackend

variable (lib : Library α) (heap : Heap) {f : MatFile α} {vb : VariableBuffer α}

/-- The dimensions of the array for `n` samples. -/
def dimsFor (vb : VariableBuffer α) (n : ℕ) : List ℕ :=
  if vb.cols = 1 then [vb.rows, n]
  else if n = 1 then [vb.rows, vb.cols] else [vb.rows, vb.cols, n]

theorem prod_dimsFor (vb : VariableBuffer α) (n : ℕ) :
    (dimsFor vb n).prod = vb.rows * vb.cols * n := by
  unfold dimsFor
  split_ifs with hc hn <;> simp [*, Nat.mul_assoc]

/-- A write appends the samples of its block; an empty block changes nothing. -/
theorem perform_isWrite {block : List (List α)} {call : BackendCall α} (h : IsWrite vb block call) :
    perform lib heap ⟨some f, false⟩ call =
      some ⟨some (if block = [] then f
        else (f.writeAppend lib (cstr vb.name) (dimsFor vb block.length) block.flatten).1), false⟩ := by
  have hpay := payload_isWrite h
  obtain ⟨data, rfl, -, -⟩ := h
  have hprod := prod_dimsFor vb block.length
  unfold writeCall at hpay ⊢
  have hlen : block.length ≠ 0 → ¬ (block.length : ℤ) ≤ 0 := by omega
  by_cases hc : vb.cols = 1
  · rw [if_pos hc] at hpay ⊢
    have hdims : dimsFor vb block.length = [vb.rows, block.length] := if_pos hc
    simp only [BackendCall.payload, mul_one] at hpay
    have hn : ((vb.rows : ℤ) * (block.length : ℤ)).toNat = [vb.rows, block.length].prod := by
      simp only [List.prod_cons, List.prod_nil, mul_one]
      norm_cast
    rw [hn] at hpay
    split_ifs at hpay with hle
    have htake := Option.some.inj hpay
    have hone : ¬ (1 : ℤ) ≤ 0 := by decide
    have hnil : block = [] → (f.writeAppend lib (cstr vb.name) [vb.rows, block.length]
        block.flatten).1 = f := by
      rintro rfl
      simp [MatFile.writeAppend]
    simp only [perform, MatioBackend.write, Int.toNat_natCast, if_true, if_false, hle, htake, hdims,
      hone, Bool.false_eq_true, Option.map_some]
    split_ifs with hb
    · rw [hnil hb]
    · rfl
  · rw [if_neg hc] at hpay ⊢
    simp only [BackendCall.payload] at hpay
    have hn : ((vb.rows : ℤ) * (vb.cols : ℤ) * (block.length : ℤ)).toNat =
        (dimsFor vb block.length).prod := by
      rw [hprod]
      norm_cast
    rw [hn] at hpay
    split_ifs at hpay with hle
    have htake := Option.some.inj hpay
    by_cases hb : block = []
    · subst hb
      simp [perform, MatioBackend.write]
    · have hpos : block.length ≠ 0 := fun h => hb (List.length_eq_zero_iff.mp h)
      have hdims : (if (block.length : ℤ) = 1 then [(vb.rows : ℤ).toNat, (vb.cols : ℤ).toNat]
          else [(vb.rows : ℤ).toNat, (vb.cols : ℤ).toNat, (block.length : ℤ).toNat]) =
          dimsFor vb block.length := by
        simp only [dimsFor, hc, if_false, Int.toNat_natCast, Nat.cast_eq_one]
      simp only [perform, MatioBackend.write, hlen hpos, hdims, hle, htake, hb, if_false, if_true,
        Option.map_some, Bool.false_eq_true]

/-- A call of the logger leaves the file open. It changes nothing under another name, nor what is
there for good. -/
theorem perform_sound {call : BackendCall α} (h : call.Sound) (f : MatFile α) : ∃ f',
    perform lib heap ⟨some f, false⟩ call = some ⟨some f', false⟩ ∧
      ∀ key, (key ≠ call.target ∨ ∃ m, f.Fixed key m) → MatFile.SameAt f f' key := by
  cases h with
  | @write vb block _ hw =>
    refine ⟨_, perform_isWrite lib heap hw, fun key hk => ?_⟩
    obtain ⟨data, rfl, -, -⟩ := hw
    have htarget : (writeCall vb data block.length).target = cstr vb.name := by
      unfold writeCall
      split_ifs <;> rfl
    rw [htarget] at hk
    split_ifs
    · exact .refl f key
    · refine MatFile.sameAt_writeAppend lib _ _ (or_iff_not_imp_left.mpr fun hkey => ?_)
      obtain ⟨m, hm⟩ := hk.resolve_left hkey
      rw [not_not.mp hkey] at hm
      exact ⟨by rw [hm.1]; exact Option.some_ne_none m, hm.2⟩
  | container name data =>
    refine ⟨_, rfl, fun key hk => MatFile.sameAt_write lib ?_⟩
    have hname : (makeMatvar heap (cstr name) data).nameOf = cstr name := by
      rw [nameOf_makeMatvar, cstr_cstr]
    rw [hname]
    refine or_iff_not_imp_left.mpr fun hkey => ?_
    obtain ⟨m, hm⟩ := hk.resolve_left hkey
    rw [not_not.mp hkey] at hm
    rw [hm.1]
    exact Option.some_ne_none m

/-- What has a name that no call writes under, or is there for good, stays as it is. -/
theorem perform_frame {calls : List (BackendCall α)} (hsound : ∀ call ∈ calls, call.Sound)
    (f : MatFile α) :
    ∃ f', calls.foldlM (perform lib heap) ⟨some f, false⟩ = some ⟨some f', false⟩ ∧
      ∀ key, ((∀ call ∈ calls, call.target ≠ key) ∨ ∃ m, f.Fixed key m) →
        MatFile.SameAt f f' key := by
  induction calls generalizing f with
  | nil => exact ⟨f, rfl, fun key _ => .refl f key⟩
  | cons call calls ih =>
    obtain ⟨f₁, hp, hkeep⟩ := perform_sound lib heap (hsound call List.mem_cons_self) f
    obtain ⟨f', hall, hf'⟩ := ih (fun c hm => hsound c (List.mem_cons_of_mem call hm)) f₁
    refine ⟨f', by rw [List.foldlM_cons, hp]; exact hall, fun key hkey => ?_⟩
    have hfirst : MatFile.SameAt f f₁ key :=
      hkeep key (hkey.imp_left fun h => (h call List.mem_cons_self).symm)
    refine hfirst.trans (hf' key ?_)
    rcases hkey with hkey | ⟨m, hm⟩
    · exact .inl fun c hm => hkey c (List.mem_cons_of_mem call hm)
    · exact .inr ⟨m, hm.of_same hfirst⟩

/-- One block of a matrix variable is stacked on what the file has of it. -/
theorem perform_push {a : Stack α} {block : List (List α)} {call : BackendCall α}
    (h : IsWrite vb block call) (hb : block ≠ []) (hc : vb.cols ≠ 1)
    (hpos : 0 < vb.rows * vb.cols)
    (hf : f.Grown (cstr vb.name) (a.matvar (cstr vb.name) vb.rows vb.cols)) : ∃ f',
    perform lib heap ⟨some f, false⟩ call = some ⟨some f', false⟩ ∧
      f'.Grown (cstr vb.name) ((a.push vb.cols block).matvar (cstr vb.name) vb.rows vb.cols) := by
  refine ⟨_, perform_isWrite lib heap h, ?_⟩
  have hlen : 0 < block.length := List.length_pos_iff.mpr hb
  have hprod : ¬ (dimsFor vb block.length).prod = 0 := by
    rw [prod_dimsFor]
    exact (Nat.mul_pos hpos hlen).ne'
  rw [if_neg hb]
  unfold MatFile.writeAppend
  rw [if_neg hprod, hf.1]
  unfold dimsFor
  rw [if_neg hc]
  cases a with
  | empty =>
    by_cases h1 : block.length = 1
    · simp [Stack.matvar, Stack.push, h1]
    · simp [Stack.matvar, Stack.push, h1]
  | flat n data =>
    have hgrow := hf.2 (Option.some_ne_none _)
    by_cases h1 : block.length = 1
    · simp [Stack.matvar, Stack.push, h1, hgrow]
    · simpa [Stack.matvar, Stack.push, h1, hgrow] using hf
  | cube k data =>
    have hgrow := hf.2 (Option.some_ne_none _)
    by_cases h1 : block.length = 1
    · simpa [Stack.matvar, Stack.push, h1, hgrow] using hf
    · simp [Stack.matvar, Stack.push, h1, hgrow]

/-- The logger's calls, of which those under one name stack that variable's blocks. -/
theorem perform_all {calls : List (BackendCall α)} {blocks : List (List (List α))} {a : Stack α}
    (hc : vb.cols ≠ 1) (hpos : 0 < vb.rows * vb.cols) (hsound : ∀ call ∈ calls, call.Sound)
    (htarget : ∀ call ∈ calls, call.target = cstr vb.name → call.isFor vb.name)
    (hblocks : ∀ block ∈ blocks, block ≠ [])
    (hw : List.Forall₂ (IsWrite vb) blocks (callsFor vb.name calls))
    (hf : f.Grown (cstr vb.name) (a.matvar (cstr vb.name) vb.rows vb.cols)) : ∃ f',
    calls.foldlM (perform lib heap) ⟨some f, false⟩ = some ⟨some f', false⟩ ∧
      f'.Grown (cstr vb.name)
        ((blocks.foldl (Stack.push vb.cols) a).matvar (cstr vb.name) vb.rows vb.cols) := by
  induction calls generalizing blocks f a with
  | nil =>
    cases hw
    exact ⟨f, rfl, hf⟩
  | cons call calls ih =>
    have hrest := fun c hm => hsound c (List.mem_cons_of_mem call hm)
    have hrest' := fun c hm => htarget c (List.mem_cons_of_mem call hm)
    by_cases hfor : call.isFor vb.name = true
    · -- a block of the variable
      rw [callsFor, List.filter_cons_of_pos hfor] at hw
      cases hw with
      | @cons block _ blocks _ hb hw =>
        obtain ⟨f₁, hp, hf₁⟩ := perform_push lib heap hb (hblocks block List.mem_cons_self) hc hpos hf
        obtain ⟨f', hall, hf'⟩ := ih hrest hrest'
          (fun b hm => hblocks b (List.mem_cons_of_mem block hm)) hw hf₁
        refine ⟨f', ?_, hf'⟩
        rw [List.foldlM_cons, hp]
        exact hall
    · rw [callsFor, List.filter_cons_of_neg hfor] at hw
      have hne : cstr vb.name ≠ call.target := fun h =>
        hfor (htarget call List.mem_cons_self h.symm)
      obtain ⟨f₁, hp, hkeep⟩ := perform_sound lib heap (hsound call List.mem_cons_self) f
      obtain ⟨f', hall, hf'⟩ := ih hrest hrest' hblocks hw (hf.of_same (hkeep _ (.inl hne)))
      refine ⟨f', ?_, hf'⟩
      rw [List.foldlM_cons, hp]
      exact hall

end MatioBackend
end XBot
