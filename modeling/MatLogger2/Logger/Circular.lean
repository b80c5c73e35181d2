import MatLogger2.Logger.Destructor

/-! In circular mode a variable keeps its newest samples: while it is in use no
call of `add_elem` fails, and the destructor writes as many samples as the blocks
can hold, less those that gave way to the current block. -/

namespace XBot

open VariableBuffer Transition

variable {α : Type}

namespace MatLogger2

theorem circular_keeps_newest {opt : Options} {hist : List (MatLogger2 α)}
    {tr : List (Result α)} {s : MatLogger2 α}
    (h : (loggerIn α opt .circularBuffer).Run hist tr s) {name : StdString}
    {vb : VariableBuffer α} (hm : (name, vb) ∈ s.vars) :
    let b := vb.current.getSize
    let xs := acceptedFor name tr
    0 < b ∧
    (∀ a ∈ addsFor name tr, a.ret = .ok (decide (a.data.size = vb.rows * vb.cols))) ∧
    ∃ s' payloads, (∀ fuel, s.destroy (fuel + 2) = some (s', none)) ∧
      (callsFor name s'.backend).mapM BackendCall.payload = some payloads ∧
      payloads.flatten =
        (if xs.length ≤ NUM_BLOCKS * b then xs
        else xs.drop (xs.length - ((NUM_BLOCKS - 1) * b + (xs.length - 1) % b + 1))).flatten := by
  have acc := accounted_run h
  obtain ⟨s', hd, -, -, hall⟩ := destroy_accounts acc
  obtain ⟨b, blocks, a, hw, hh, hwrites⟩ := hall name vb hm
  obtain rfl : vb.current.getSize = b := a.whole.size _
  rw [acc.silent rfl name] at hw
  cases hw
  refine ⟨a.pos, a.returns, s', _, hd, payloads_isWrite hwrites, ?_⟩
  rw [← hh.kept a.pos (by decide), ← BlockLog.flatten_blocks]
  exact List.flatten_flatten.symm

/-- Of 21 samples in blocks of one the first is overwritten. -/
theorem circular_keeps_newest_21 : ∃ (hist : List (MatLogger2 ℕ)) (tr : List (Result ℕ))
    (s : MatLogger2 ℕ), (loggerIn ℕ ⟨20, 20⟩ .circularBuffer).Run hist tr s ∧
      acceptedFor [120] tr = (List.range 21).map (fun k => [k]) ∧
      ∃ s' payloads, s.destroy 2 = some (s', none) ∧
        (callsFor [120] s'.backend).mapM BackendCall.payload = some payloads ∧
        payloads.flatten = (List.range 20).map (· + 1) := by
  obtain ⟨hist, tr, s, vb, h, hs, -, -, hsize, hacc⟩ := run_samples ⟨20, 20⟩ .circularBuffer zeroed
    [120] 1 1 20 (by decide) (by decide) (by decide) (by decide)
    ((List.range 21).map fun k => ⟨1, 1, [k], rfl⟩) (by decide)
  obtain ⟨-, -, s', payloads, hd, hpay, hflat⟩ := circular_keeps_newest h hs.mem
  refine ⟨hist, tr, s, h, hacc, s', payloads, hd 0, hpay, ?_⟩
  have hone : vb.current.getSize = 1 := hsize
  rw [hflat, hone, hacc]
  decide

end MatLogger2
end XBot
