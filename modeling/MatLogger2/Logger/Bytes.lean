import MatLogger2.Logger.Destructor

/-! The number of bytes that `flush_available_data` returns. It adds up all blocks, in
an `int`, whatever the backend has answered. -/

namespace XBot

open VariableBuffer Transition

variable {α : Type}

/-- The doubles that a call of `write` hands over. -/
def BackendCall.doubles : BackendCall α → ℕ
  | .write _ _ rows cols slices => (rows * cols * slices).toNat
  | .writeContainer _ _ => 0

def doublesOf (calls : List (BackendCall α)) : ℕ := (calls.map BackendCall.doubles).sum

@[simp] theorem doublesOf_append (calls calls' : List (BackendCall α)) :
    doublesOf (calls ++ calls') = doublesOf calls + doublesOf calls' := by
  simp [doublesOf]

/-- The calls to which the backend has answered `ok`, where `answers i` is its answer
to call number `i`. -/
def answered (answers : ℕ → Bool) (ok : Bool) (calls : List (BackendCall α)) :
    List (BackendCall α) :=
  (calls.zipIdx.filter fun p => answers p.2 = ok).map Prod.fst

theorem doublesOf_answered (answers : ℕ → Bool) (calls : List (BackendCall α)) :
    doublesOf (answered answers true calls) + doublesOf (answered answers false calls) =
      doublesOf calls := by
  have hperm := List.filter_append_perm (fun p => decide (answers p.2 = true)) calls.zipIdx
  have hfst := (hperm.map Prod.fst).map BackendCall.doubles
  rw [List.zipIdx_map_fst] at hfst
  have hsum := hfst.sum_eq
  rw [List.map_append, List.map_append, List.sum_append] at hsum
  rw [← doublesOf] at hsum
  simpa [answered, doublesOf] using hsum

theorem toInt_toInt (x : ℤ) : toInt (toInt x) = toInt x := by
  have h := toInt_toInt_add x 0
  rwa [add_zero, add_zero] at h

theorem toInt_eq_iff {x y : ℤ} : toInt x = y ↔ -2 ^ 31 ≤ y ∧ y < 2 ^ 31 ∧ (2 ^ 32 : ℤ) ∣ x - y := by
  unfold toInt
  omega

namespace VariableBuffer

theorem readBlock_dims (vb : VariableBuffer α) :
    vb.readBlock.1.rows = vb.rows ∧ vb.readBlock.1.cols = vb.cols := by
  unfold readBlock
  split
  · exact ⟨rfl, rfl⟩
  · simp only
    split <;> exact ⟨rfl, rfl⟩

end VariableBuffer

namespace MatLogger2

variable {s s' : MatLogger2 α} {vars : List (StdString × VariableBuffer α)}

theorem doubles_writeCall (vb : VariableBuffer α) (block : List (List α)) (valid : ℕ) :
    (writeCall vb block valid).doubles = vb.rows * vb.cols * valid := by
  unfold writeCall
  split_ifs with hc
  · rw [BackendCall.doubles, hc, mul_one, Nat.mul_one]
    norm_cast
  · rw [BackendCall.doubles]
    norm_cast

/-- Calls that have been added, none of them empty, and what they have added to the
number of bytes, which is an `int`. -/
def Counted (acc acc' : Written α) : Prop :=
  toInt acc.bytes = acc.bytes → ∃ calls, acc'.calls = acc.calls ++ calls ∧
    (∀ c ∈ calls, 0 < c.doubles) ∧ acc'.bytes = toInt (acc.bytes + 8 * doublesOf calls)

theorem Counted.refl (acc : Written α) : Counted acc acc := fun hint =>
  ⟨[], (List.append_nil _).symm, nofun, by simp [doublesOf, hint]⟩

theorem Counted.trans {a b c : Written α} (h : Counted a b) (h' : Counted b c) : Counted a c := by
  intro hint
  obtain ⟨calls, hc, hpos, hb⟩ := h hint
  obtain ⟨calls', hc', hpos', hb'⟩ := h' (by rw [hb, toInt_toInt])
  refine ⟨calls ++ calls', by rw [hc', hc, List.append_assoc], fun c hm => ?_, ?_⟩
  · rcases List.mem_append.mp hm with hm | hm
    · exact hpos c hm
    · exact hpos' c hm
  · rw [hb', hb, toInt_toInt_add, doublesOf_append]
    congr 1
    push_cast
    ring

theorem counted_writeBlocks (vb : VariableBuffer α) (acc : Written α) (hr : 0 < vb.rows)
    (hc : 0 < vb.cols) : Counted acc (writeBlocks vb acc).2.1 := by
  fun_induction writeBlocks vb acc with
  | case1 => exact .refl _
  | case2 => exact .refl _
  | case3 vb w vb' block valid he hvalid ih =>
    obtain ⟨hrows, hcols⟩ := vb.readBlock_dims
    rw [he] at hrows hcols
    simp only at hrows hcols
    refine Counted.trans (fun _ => ⟨[writeCall vb' block valid], rfl, ?_, ?_⟩)
      (ih (by rwa [hrows]) (by rwa [hcols]))
    · rw [List.forall_mem_singleton, doubles_writeCall, hrows, hcols]
      exact Nat.mul_pos (Nat.mul_pos hr hc) hvalid
    · have hdoubles : doublesOf [writeCall vb' block valid] = vb.rows * vb.cols * valid := by
        rw [doublesOf, List.map_singleton, List.sum_singleton, doubles_writeCall, hrows, hcols]
      rw [hdoubles]
      refine congrArg toInt ?_
      push_cast
      ring
  | case4 => exact .refl _

theorem counted_writeVars (vars : List (StdString × VariableBuffer α)) (acc : Written α)
    (hvars : ∀ p ∈ vars, 0 < p.2.rows ∧ 0 < p.2.cols) :
    Counted acc (writeVars vars acc).2.1 := by
  induction vars generalizing acc with
  | nil => exact .refl acc
  | cons p vars ih =>
    obtain ⟨name, vb⟩ := p
    obtain ⟨hr, hc⟩ := hvars (name, vb) List.mem_cons_self
    have hfirst := counted_writeBlocks vb acc hr hc
    unfold writeVars
    split
    · rename_i he
      rwa [he] at hfirst
    · rename_i he
      rw [he] at hfirst
      exact hfirst.trans (ih _ fun p hp => hvars p (List.mem_cons_of_mem _ hp))

/-- The number returned is that of the bytes accepted by the backend, if and only if
these are less than 2^31, and the bytes refused a multiple of 2^32. -/
theorem flush_bytes_iff {opt : Options} (h : (logger α opt).Reachable s)
    (hm : s.bufferMode = .producerConsumer) (answers : ℕ → Bool) :
    ∃ s' bytes calls, s.flushAvailableData = (s', .ok bytes) ∧
      s'.backend = s.backend ++ s.matdataQueue.map (fun p => .writeContainer p.1 p.2) ++ calls ∧
      ((bytes = 8 * (doublesOf (answered answers true calls) : ℤ) ∧ 0 ≤ bytes ∧
        (answered answers true calls ≠ [] → 0 < bytes)) ↔
      8 * doublesOf (answered answers true calls) < 2 ^ 31 ∧
        2 ^ 32 ∣ 8 * doublesOf (answered answers false calls)) := by
  have t := reachable_tidy h
  rw [hm] at t
  obtain ⟨vars', acc, he, -, -⟩ := writeVars_spec t ⟨[], 0⟩
  have hcounted := counted_writeVars s.vars ⟨[], 0⟩ fun p hp =>
    ⟨(t.shaped p hp).rows, (t.shaped p hp).cols⟩
  rw [he] at hcounted
  obtain ⟨calls, hcalls, hpos, hbytes⟩ := hcounted (toInt_natCast (n := 0) (by norm_num))
  simp only [List.nil_append, zero_add] at hcalls hbytes
  refine ⟨_, acc.bytes, calls, by simp only [flushAvailableData, he]; rfl, by rw [hcalls], ?_⟩
  have hsplit := doublesOf_answered answers calls
  have hsome : answered answers true calls ≠ [] → 0 < doublesOf (answered answers true calls) := by
    intro hne
    obtain ⟨c, hc⟩ := List.exists_mem_of_ne_nil _ hne
    obtain ⟨p, hp, rfl⟩ := List.mem_map.mp hc
    have hmem : p.1 ∈ calls := by
      have := List.mem_map_of_mem (f := Prod.fst) (List.mem_of_mem_filter hp)
      rwa [List.zipIdx_map_fst] at this
    exact (hpos _ hmem).trans_le (List.single_le_sum (fun _ _ => Nat.zero_le _) _
      (List.mem_map_of_mem hc))
  constructor
  · rintro ⟨hall, -⟩
    rw [hbytes, toInt_eq_iff] at hall
    omega
  · rintro ⟨hlt, hdvd⟩
    have hall : acc.bytes = 8 * (doublesOf (answered answers true calls) : ℤ) := by
      rw [hbytes, toInt_eq_iff]
      omega
    refine ⟨hall, by omega, fun hne => ?_⟩
    have := hsome hne
    omega

/-- Two scalars in blocks of one: the first is in the read queue. -/
theorem exists_queued : ∃ (s : MatLogger2 ℕ) (vb : VariableBuffer ℕ) (x : List ℕ),
    (logger ℕ ⟨20, 20⟩).Reachable s ∧ s.bufferMode = .producerConsumer ∧ s.vars = [([120], vb)] ∧
      s.matdataQueue = [] ∧ Whole 1 vb ∧ vb.rows = 1 ∧ vb.cols = 1 ∧ vb.log.queue = [[x]] := by
  obtain ⟨hist, tr, s, vb, h, hs, hr, hc, hsize, hacc⟩ := run_samples ⟨20, 20⟩ .producerConsumer
    zeroed [120] 1 1 20 (by decide) (by decide) (by decide) (by decide)
    [⟨1, 1, [5], rfl⟩, ⟨1, 1, [6], rfl⟩] (by decide)
  have acc := accounted_run h
  obtain ⟨b, a⟩ := acc.each _ vb hs.mem
  obtain rfl : b = 1 := (a.whole.size _).symm.trans hsize
  obtain ⟨blocks, hw, hh⟩ := a.history
  rw [hs.backend] at hw
  cases hw
  obtain ⟨-, c⟩ := hh.cut_of_le one_pos (by decide) (by rw [hacc]; decide)
  have hlen := c.length
  rw [hacc, List.nil_append] at hlen
  have hcur := c.current_le
  have hne : vb.log.current ≠ [] := by
    intro h
    have hnil := c.nil h
    rw [List.nil_append] at hnil
    rw [h, hnil] at hlen
    cases hlen
  have hpos := List.length_pos_iff.mpr hne
  simp only [List.map_cons, List.map_nil, List.length_cons, List.length_nil] at hlen
  obtain ⟨block, hblock⟩ := List.length_eq_one_iff.mp (by omega : vb.log.queue.length = 1)
  obtain ⟨x, hx⟩ := List.length_eq_one_iff.mp (c.full block (by rw [hblock]; simp))
  exact ⟨s, vb, x, logger_of_loggerIn ⟨hist, tr, h⟩, acc.inMode, hs.vars, hs.matdataQueue, a.whole,
    hr, hc, by rw [hblock, hx]⟩

/-- The block of one scalar, written. -/
theorem flush_queued {s : MatLogger2 ℕ} {vb : VariableBuffer ℕ} {x : List ℕ}
    (hm : vb.overwrites = false) (hvars : s.vars = [([120], vb)]) (hq : s.matdataQueue = [])
    (w : Whole 1 vb) (hr : vb.rows = 1) (hc : vb.cols = 1) (hlog : vb.log.queue = [[x]]) :
    ∃ s' call, s.flushAvailableData = (s', .ok 8) ∧ s'.backend = s.backend ++ [call] := by
  obtain ⟨vb', acc, calls, he, -, hcalls, hw, -⟩ := writeBlocks_spec w hm ⟨[], 0⟩
  have hcounted := counted_writeBlocks vb ⟨[], 0⟩ (by omega) (by omega)
  rw [he] at hcounted
  obtain ⟨calls', hcalls', -, hbytes⟩ := hcounted (toInt_natCast (n := 0) (by norm_num))
  rw [hlog] at hw
  cases hw with
  | cons hcall hrest =>
    cases hrest
    obtain ⟨data, rfl, -, -⟩ := hcall
    simp only [List.nil_append] at hcalls hcalls'
    have hone : doublesOf calls' = 1 := by
      rw [← hcalls', hcalls, doublesOf, List.map_singleton, List.sum_singleton, doubles_writeCall, hr,
        hc]
      rfl
    rw [hone] at hbytes
    have height : acc.bytes = 8 := hbytes.trans (toInt_natCast (n := 8) (by norm_num))
    refine ⟨{ s with
      vars := [([120], vb')]
      matdataQueue := []
      backend := s.backend ++ [writeCall vb data [x].length] }, _, ?_, rfl⟩
    simp only [flushAvailableData, hvars, hq, writeVars, he, height, hcalls, List.map_nil,
      List.append_nil]

theorem flush_bytes_iff_written : ∃ s : MatLogger2 ℕ, (logger ℕ ⟨20, 20⟩).Reachable s ∧
    ∃ s' bytes calls, s.flushAvailableData = (s', .ok bytes) ∧
      s'.backend = s.backend ++ s.matdataQueue.map (fun p => .writeContainer p.1 p.2) ++ calls ∧
      ((bytes = 8 * (doublesOf (answered (fun _ => true) true calls) : ℤ) ∧ 0 ≤ bytes ∧
        (answered (fun _ => true) true calls ≠ [] → 0 < bytes)) ↔
      8 * doublesOf (answered (fun _ => true) true calls) < 2 ^ 31 ∧
        2 ^ 32 ∣ 8 * doublesOf (answered (fun _ => true) false calls)) := by
  obtain ⟨s, vb, x, hs, hm, -⟩ := exists_queued
  exact ⟨s, hs, flush_bytes_iff hs hm fun _ => true⟩

/-- Eight bytes are returned, though the backend has refused the only block. -/
theorem refused_counted : ∃ s : MatLogger2 ℕ, (logger ℕ ⟨20, 20⟩).Reachable s ∧
    s.bufferMode = .producerConsumer ∧ ∃ s' calls, s.flushAvailableData = (s', .ok 8) ∧
      s'.backend = s.backend ++ calls ∧ answered (fun _ => false) true calls = [] := by
  obtain ⟨s, vb, x, hs, hm, hvars, hq, w, hr, hc, hlog⟩ := exists_queued
  have t := reachable_tidy hs
  have hmode := overwrites_of_mode ((t.mode ([120], vb) (by simp [hvars])).trans hm)
  obtain ⟨s', call, he, hb⟩ := flush_queued hmode hvars hq w hr hc hlog
  exact ⟨s, hs, hm, s', [call], he, hb, by simp [answered]⟩

end MatLogger2
end XBot
