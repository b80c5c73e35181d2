import MatLogger2.Lib.ReleaseAcquire
import MatLogger2.Lib.Spsc

/-! A ring whose two indices are stored with release and loaded with acquire. An index moves
through positions, which count the handles pushed or popped so far. A thread that knows a store
of the write index knows the handles up to its position and what was done to them before; one
that knows a store of the read index knows that the cells behind it are free. -/

namespace Spsc

open RelAcq

variable {ι H L X : Type} {n : ℕ}

/-- The stores of an index: the position reached, and what the storing thread knew. -/
abbrev Log (ι : Type) := List (ℕ × Clock ι)

def place (log : Log ι) : ℕ := (log.getLast?.map Prod.fst).getD 0

/-- Whoever has this clock knows a store that has reached the position. -/
def Reached (log : Log ι) (q : ℕ) (c : Clock ι) : Prop := ∃ x ∈ log, q ≤ x.1 ∧ x.2 ≤ c

@[simp] theorem place_snoc (log : Log ι) (q : ℕ) (c : Clock ι) : place (log ++ [(q, c)]) = q := by
  simp [place]

theorem place_mem {log : Log ι} (h : log ≠ []) : ∃ c, (place log, c) ∈ log := by
  induction log using List.reverseRecOn with
  | nil => exact absurd rfl h
  | append_singleton log x _ =>
    obtain ⟨q, c⟩ := x
    exact ⟨c, by simp⟩

namespace Reached

variable {log : Log ι} {q : ℕ} {c : Clock ι}

theorem mono (h : Reached log q c) {q' : ℕ} {c' : Clock ι} (hq : q' ≤ q) (hc : c ≤ c') :
    Reached log q' c' := by
  obtain ⟨x, hx, hle, hk⟩ := h
  exact ⟨x, hx, hq.trans hle, hk.trans hc⟩

theorem snoc (h : Reached log q c) (x : ℕ × Clock ι) : Reached (log ++ [x]) q c := by
  obtain ⟨y, hy, h⟩ := h
  exact ⟨y, List.mem_append_left _ hy, h⟩

theorem of_snoc {x : ℕ × Clock ι} (h : Reached (log ++ [x]) q c) :
    Reached log q c ∨ q ≤ x.1 ∧ x.2 ≤ c := by
  obtain ⟨y, hy, h⟩ := h
  rcases List.mem_append.mp hy with hy | hy
  · exact .inl ⟨y, hy, h⟩
  · exact .inr (List.mem_singleton.mp hy ▸ h)

end Reached

/-- An index that has come to its value through the positions of its log; its thread knows what
it has stored. -/
structure Logged (base : Fin n) (log : Log ι) (i : Fin n) (c : Clock ι) : Prop where
  ne_nil : log ≠ []
  sorted : log.Pairwise fun x y => x.1 ≤ y.1
  value : i = offset base (place log)
  known : ∀ x ∈ log, x.2 ≤ c

/-- What the memory holds for the log of an index. -/
def shown (base : Fin n) (log : Log ι) : List (Store ι (Fin n)) :=
  log.map fun x => ⟨offset base x.1, x.2⟩

namespace Logged

variable {base i : Fin n} {log : Log ι} {c c' : Clock ι}

theorem mono (h : Logged base log i c) (hc : c ≤ c') : Logged base log i c' :=
  ⟨h.ne_nil, h.sorted, h.value, fun x hx => (h.known x hx).trans hc⟩

theorem le_place (h : Logged base log i c) {x : ℕ × Clock ι} (hx : x ∈ log) : x.1 ≤ place log := by
  have hs := h.sorted
  clear h
  induction log using List.reverseRecOn with
  | nil => simp at hx
  | append_singleton log y _ =>
    obtain ⟨q, d⟩ := y
    rw [place_snoc]
    rcases List.mem_append.mp hx with hx | hx
    · exact (List.pairwise_append.mp hs).2.2 x hx (q, d) (by simp)
    · exact List.mem_singleton.mp hx ▸ le_rfl

/-- Its thread knows how far the index has come. -/
theorem reached (h : Logged base log i c) {q : ℕ} (hq : q ≤ place log) : Reached log q c := by
  obtain ⟨d, hd⟩ := place_mem h.ne_nil
  exact ⟨_, hd, hq, h.known _ hd⟩

theorem not_reached (h : Logged base log i c) {q : ℕ} (hq : place log < q) :
    ¬ Reached log q c' := by
  rintro ⟨x, hx, hle, -⟩
  have := h.le_place hx
  omega

/-- The thread stores the index `k` places on. -/
theorem store (h : Logged base log i c) (k : ℕ) (hc : c ≤ c') :
    Logged base (log ++ [(place log + k, c)]) (offset i k) c' := by
  refine ⟨by simp, List.pairwise_append.mpr ⟨h.sorted, by simp, fun x hx y hy => ?_⟩, ?_, ?_⟩
  · rw [List.mem_singleton.mp hy]
    exact (h.le_place hx).trans (Nat.le_add_right _ _)
  · rw [place_snoc, h.value, offset_offset]
  · intro x hx
    rcases List.mem_append.mp hx with hx | hx
    · exact (h.known x hx).trans hc
    · exact List.mem_singleton.mp hx ▸ hc

/-- A load does not see less than what its thread knows has been reached. -/
theorem visible (h : Logged base log i c) {writer : L → ι} {m : Memory ι L X (Fin n)} {t : ι} {l : L}
    (hm : m.stores l = shown base log) {k : ℕ} {s : Store ι (Fin n)}
    (hv : m.visible writer t l k = some s) {q : ℕ} (hq : Reached log q (m.clock t)) :
    ∃ x ∈ log, s = ⟨offset base x.1, x.2⟩ ∧ q ≤ x.1 ∧ x.1 ≤ place log := by
  obtain ⟨hs, hlater⟩ := Memory.visible_eq_some hv
  rw [hm, shown, List.getElem?_map, Option.map_eq_some_iff] at hs
  obtain ⟨x, hx, rfl⟩ := hs
  have hmem := List.mem_of_getElem? hx
  refine ⟨x, hmem, rfl, ?_, h.le_place hmem⟩
  obtain ⟨y, hy, hqy, hc⟩ := hq
  obtain ⟨j, hj⟩ := List.getElem?_of_mem hy
  refine hqy.trans ?_
  rcases Nat.lt_trichotomy j k with hlt | rfl | hlt
  · obtain ⟨hj', rfl⟩ := List.getElem?_eq_some_iff.mp hj
    obtain ⟨hk', rfl⟩ := List.getElem?_eq_some_iff.mp hx
    exact List.pairwise_iff_getElem.mp h.sorted j k hj' hk' hlt
  · rw [Option.some.inj (hj.symm.trans hx)]
  · -- a later store that is known hides this one
    have := hlater j ⟨offset base y.1, y.2⟩ hlt (by rw [hm, shown, List.getElem?_map, hj]; rfl)
    exact absurd (hc (writer l)) (not_le.mpr this)

end Logged

/-- Places less than a round apart are different cells. -/
theorem offset_ne (base : Fin n) {q q' : ℕ} (hlt : q < q') (hn : q' < q + n) :
    offset base q ≠ offset base q' := by
  intro he
  have hg := gap_offset (offset base q) (k := q' - q) (by omega)
  rw [offset_offset, show q + (q' - q) = q' by omega, ← he, gap_self] at hg
  omega

theorem offset_add_round (base : Fin n) (q : ℕ) : offset base (q + n) = offset base q := by
  apply Fin.ext
  simp only [offset]
  rw [← Nat.add_assoc, Nat.add_mod_right]

/-- How many handles the popper has found in the ring. -/
def PopView.found (r : Ring H n) : PopView H n → ℕ
  | idle => 0
  | loaded w => gap r.read w
  | ready _ => 1
  | copied _ _ => 1
  | bulk _ count _ => count

/-- How many cells the pusher has filled that are not published. -/
def PushView.filled : PushView H n → ℕ
  | written _ _ => 1
  | _ => 0

/-- The next cell of a bulk is the one after those that have been taken. -/
theorem PopView.bulk_head {r : Ring H n} {i j : Fin n} {count : ℕ} {todo : List (Fin n)}
    (h : (bulk i count (j :: todo) : PopView H n).Ok r) :
    j = offset r.read (taken (bulk i count (j :: todo) : PopView H n)) ∧
      taken (bulk i count (j :: todo) : PopView H n) < count ∧ count ≤ r.content.length ∧
      taken (bulk i count todo : PopView H n) = taken (bulk i count (j :: todo) : PopView H n) + 1 := by
  obtain ⟨-, hle, k, hk, he⟩ := h
  have hlen : todo.length + 1 = count - k := by
    have := congrArg List.length he
    simpa using this
  have hj := congrArg List.head? he
  simp only [List.head?_cons, List.head?_map, List.head?_drop] at hj
  rw [List.getElem?_range (by omega)] at hj
  have htaken : taken (bulk i count (j :: todo) : PopView H n) = k := by
    simp only [taken, List.length_cons]
    omega
  rw [htaken]
  refine ⟨by simpa using hj, by omega, hle, ?_⟩
  simp only [taken]
  omega

/-- The two threads of a ring: what they have stored and what they know, and when each cell and
what each handle points to were last accessed. -/
structure Sides (ι H : Type) (n : ℕ) where
  writes : Log ι
  reads : Log ι
  pusher : Clock ι
  popper : Clock ι
  cell : Fin n → Clock ι
  hand : H → Clock ι

/-- Who may access a cell knows of the accesses before. For a handle that waits in the ring it is
whoever knows that it was pushed, for a free cell whoever knows that it was given back. -/
structure Guarded (base : Fin n) (S : Sides ι H n) (r : Ring H n) (push : PushView H n)
    (pop : PopView H n) : Prop where
  write : Logged base S.writes r.write S.pusher
  read : Logged base S.reads r.read S.popper
  length : place S.writes = place S.reads + r.content.length
  found : Reached S.writes (place S.reads + pop.found r) S.popper
  waiting : ∀ q, place S.reads + pop.taken ≤ q → q < place S.writes → ∀ c,
    Reached S.writes (q + 1) c →
      S.cell (offset base q) ≤ c ∧ S.hand (r.cell (offset base q)) ≤ c
  free : ∀ q, place S.writes + push.filled ≤ q → q < place S.reads + n → ∀ c,
    Reached S.reads (q + 1 - n) c → S.cell (offset base q) ≤ c
  taking : ∀ q, place S.reads ≤ q → q < place S.reads + pop.taken →
    S.cell (offset base q) ≤ S.popper
  filling : push.filled = 1 → S.cell r.write ≤ S.pusher ∧ S.hand (r.cell r.write) ≤ S.pusher

namespace Guarded

variable {base : Fin n} {S S' : Sides ι H n} {r : Ring H n} {push push' : PushView H n}
  {pop pop' : PopView H n}

theorem start (h : r.content = []) (hcell : ∀ i, S.cell i = 0) (hw : S.writes = [(0, 0)])
    (hr : S.reads = [(0, 0)]) : Guarded r.read S r .idle .idle := by
  have hpos : (0 : ℕ) < n := r.read.pos
  have hwrite := r.content_eq_nil.mp h
  have hzero : ∀ c : Clock ι, 0 ≤ c := fun c i => Nat.zero_le _
  have htracked : ∀ (i : Fin n) (c : Clock ι), i = r.read → Logged r.read [(0, 0)] i c := by
    intro i c hi
    refine ⟨by simp, by simp, by simp [hi, place], fun x hx => ?_⟩
    exact List.mem_singleton.mp hx ▸ hzero c
  refine ⟨hw ▸ htracked _ _ hwrite, hr ▸ htracked _ _ rfl, by simp [hw, hr, h], ?_, fun q h₁ h₂ => ?_,
    fun q _ _ c _ => hcell _ ▸ hzero c, fun q _ _ => hcell _ ▸ hzero _, nofun⟩
  · exact hw ▸ ⟨(0, 0), by simp, by simp [hr, place, PopView.found], hzero _⟩
  · rw [hw] at h₂
    exact absurd h₂ (by simp [place])

/-- The threads come to other views, if the popper knows what it claims to have found. -/
theorem views (h : Guarded base S r push pop) (hf : push'.filled = push.filled)
    (ht : pop'.taken = pop.taken)
    (hd : Reached S.writes (place S.reads + pop'.found r) S.popper) :
    Guarded base S r push' pop' := by
  refine ⟨h.write, h.read, h.length, hd, ?_, ?_, ?_, ?_⟩
  · rw [ht]
    exact h.waiting
  · rw [hf]
    exact h.free
  · rw [ht]
    exact h.taking
  · rw [hf]
    exact h.filling

/-- The threads learn something, or access what is not in the ring. -/
theorem learn (h : Guarded base S r push pop) (hw : S'.writes = S.writes) (hr : S'.reads = S.reads)
    (hpusher : S.pusher ≤ S'.pusher) (hpopper : S.popper ≤ S'.popper) (hcell : S'.cell = S.cell)
    (hhand : ∀ x ∈ pop.live r, S'.hand x = S.hand x)
    (hfilled : push.filled = 1 → S'.hand (r.cell r.write) = S.hand (r.cell r.write)) :
    Guarded base S' r push pop := by
  have hlive : ∀ q, place S.reads + pop.taken ≤ q → q < place S.writes →
      r.cell (offset base q) ∈ pop.live r := by
    intro q hq hlt
    have hlen := h.length
    have hi : q - (place S.reads + pop.taken) < (pop.live r).length := by
      simp only [PopView.live, List.length_drop]
      omega
    refine List.mem_iff_getElem.mpr ⟨_, hi, ?_⟩
    simp only [PopView.live, List.getElem_drop, Ring.content, List.getElem_map, List.getElem_range,
      h.read.value, offset_offset]
    congr 2
    omega
  refine ⟨hw ▸ h.write.mono hpusher, hr ▸ h.read.mono hpopper, by rw [hw, hr, h.length], ?_, ?_, ?_,
    ?_, fun hf => ?_⟩
  · rw [hw, hr]
    exact h.found.mono le_rfl hpopper
  · rw [hw, hr, hcell]
    intro q hq hlt c hc
    rw [hhand _ (hlive q hq hlt)]
    exact h.waiting q hq hlt c hc
  · rw [hw, hr, hcell]
    exact h.free
  · rw [hr, hcell]
    exact fun q h₁ h₂ => (h.taking q h₁ h₂).trans hpopper
  · rw [hcell, hfilled hf]
    exact ⟨(h.filling hf).1.trans hpusher, (h.filling hf).2.trans hpusher⟩

/-- The pusher fills the cell at the write index. -/
theorem fill (h : Guarded base S r push pop) (hpop : pop.Ok r) (x : H) (hf : push.filled = 0)
    (hf' : push'.filled = 1) (hw : S'.writes = S.writes) (hr : S'.reads = S.reads)
    (hpusher : S'.pusher = S.pusher) (hpopper : S'.popper = S.popper)
    (hcell : ∀ i, i ≠ r.write → S'.cell i = S.cell i) (hhand : S'.hand = S.hand)
    (hknown : S'.cell r.write ≤ S.pusher) (hx : S.hand x ≤ S.pusher) :
    Guarded base S' (r.setCell x) push' pop := by
  have hlen := h.length
  have hroom := r.length_content_lt
  have htaken := PopView.taken_le hpop
  have hwi := h.write.value
  have hbefore : ∀ q, place S.reads ≤ q → q < place S.writes → offset base q ≠ r.write := by
    intro q h₁ h₂
    rw [hwi]
    exact offset_ne base h₂ (by omega)
  have hafter : ∀ q, place S.writes < q → q < place S.reads + n → offset base q ≠ r.write := by
    intro q h₁ h₂
    rw [hwi]
    exact (offset_ne base h₁ (by omega)).symm
  have hfound : pop.found (r.setCell x) = pop.found r := by cases pop <;> rfl
  refine ⟨?_, ?_, ?_, ?_, fun q h₁ h₂ c hc => ?_, fun q h₁ h₂ c hc => ?_, fun q h₁ h₂ => ?_,
    fun _ => ?_⟩
  · rw [hw, hpusher]
    exact h.write
  · rw [hr, hpopper]
    exact h.read
  · rw [hw, hr, Ring.content_setCell, hlen]
  · rw [hw, hr, hpopper, hfound]
    exact h.found
  · rw [hr] at h₁
    rw [hw] at h₂ hc
    have hne := hbefore q (by omega) h₂
    have hkept : (r.setCell x).cell (offset base q) = r.cell (offset base q) :=
      Function.update_of_ne hne _ _
    rw [hcell _ hne, hhand, hkept]
    exact h.waiting q h₁ h₂ c hc
  · rw [hw, hf'] at h₁
    rw [hr] at h₂ hc
    rw [hcell _ (hafter q (by omega) h₂)]
    exact h.free q (by omega) h₂ c hc
  · rw [hr] at h₁ h₂
    rw [hcell _ (hbefore q h₁ (by omega)), hpopper]
    exact h.taking q h₁ h₂
  · rw [Ring.setCell_write, Ring.setCell_cell_write, hpusher, hhand]
    exact ⟨hknown, hx⟩

/-- The pusher publishes the cell it has filled. -/
theorem publish (h : Guarded base S r push pop) (hroom : r.content.length + 1 < n)
    (hf : push.filled = 1) (hf' : push'.filled = 0)
    (hw : S'.writes = S.writes ++ [(place S.writes + 1, S.pusher)]) (hr : S'.reads = S.reads)
    (hpusher : S.pusher ≤ S'.pusher) (hpopper : S.popper ≤ S'.popper) (hcell : S'.cell = S.cell)
    (hhand : S'.hand = S.hand) : Guarded base S' r.publish push' pop := by
  have hlen := h.length
  have hfound : pop.found r.publish = pop.found r := by cases pop <;> rfl
  refine ⟨?_, ?_, ?_, ?_, fun q h₁ h₂ c hc => ?_, fun q h₁ h₂ c hc => ?_, ?_, by omega⟩
  · rw [hw]
    exact h.write.store 1 hpusher
  · rw [hr]
    exact h.read.mono hpopper
  · rw [hw, hr, place_snoc, r.content_publish hroom, List.length_append, hlen]
    rfl
  · rw [hw, hr, hfound]
    exact (h.found.mono le_rfl hpopper).snoc _
  · rw [hr] at h₁
    rw [hw, place_snoc] at h₂
    rw [hw] at hc
    rw [hcell, hhand, Ring.publish_cell]
    rcases hc.of_snoc with hold | ⟨-, hnew⟩
    · rcases Nat.lt_or_ge q (place S.writes) with hq | hq
      · exact h.waiting q h₁ hq c hold
      · exact absurd hold (h.write.not_reached (by omega))
    · -- the new store is known, and with it what the pusher knew
      rcases Nat.lt_or_ge q (place S.writes) with hq | hq
      · have := h.waiting q h₁ hq S.pusher (h.write.reached (by omega))
        exact ⟨this.1.trans hnew, this.2.trans hnew⟩
      · obtain rfl : q = place S.writes := by omega
        rw [← h.write.value]
        exact ⟨(h.filling hf).1.trans hnew, (h.filling hf).2.trans hnew⟩
  · rw [hw, place_snoc, hf'] at h₁
    rw [hr] at h₂ hc
    rw [hcell]
    exact h.free q (by omega) h₂ c hc
  · rw [hr, hcell]
    exact fun q h₁ h₂ => (h.taking q h₁ h₂).trans hpopper

/-- The popper takes the next handle out of its cell. -/
theorem take (h : Guarded base S r push pop) (hle : pop'.taken ≤ r.content.length)
    (ht : pop'.taken = pop.taken + 1) (hd : pop'.found r ≤ pop.found r) (hw : S'.writes = S.writes)
    (hr : S'.reads = S.reads) (hpusher : S'.pusher = S.pusher) (hpopper : S'.popper = S.popper)
    (hcell : ∀ i, i ≠ offset r.read pop.taken → S'.cell i = S.cell i) (hhand : S'.hand = S.hand)
    (hknown : S'.cell (offset r.read pop.taken) ≤ S.popper) : Guarded base S' r push pop' := by
  have hlen := h.length
  have hroom := r.length_content_lt
  have hri : offset r.read pop.taken = offset base (place S.reads + pop.taken) := by
    rw [h.read.value, offset_offset]
  rw [hri] at hcell hknown
  have hafter : ∀ q, place S.reads + pop.taken < q → q < place S.reads + n →
      offset base q ≠ offset base (place S.reads + pop.taken) := by
    intro q h₁ h₂
    exact (offset_ne base h₁ (by omega)).symm
  refine ⟨?_, ?_, ?_, ?_, fun q h₁ h₂ c hc => ?_, fun q h₁ h₂ c hc => ?_, fun q h₁ h₂ => ?_,
    fun hf => ?_⟩
  · rw [hw, hpusher]
    exact h.write
  · rw [hr, hpopper]
    exact h.read
  · rw [hw, hr, hlen]
  · rw [hw, hr, hpopper]
    exact h.found.mono (by omega) le_rfl
  · rw [hr, ht] at h₁
    rw [hw] at h₂ hc
    rw [hcell _ (hafter q (by omega) (by omega)), hhand]
    exact h.waiting q (by omega) h₂ c hc
  · rw [hw] at h₁
    rw [hr] at h₂ hc
    rw [hcell _ (hafter q (by omega) h₂)]
    exact h.free q h₁ h₂ c hc
  · rw [hr] at h₁ h₂
    rw [hpopper]
    rcases Nat.lt_or_ge q (place S.reads + pop.taken) with hq | hq
    · rw [hcell _ (offset_ne base hq (by omega))]
      exact h.taking q h₁ hq
    · obtain rfl : q = place S.reads + pop.taken := by omega
      exact hknown
  · have hne : r.write ≠ offset base (place S.reads + pop.taken) := by
      rw [h.write.value]
      exact hafter _ (by omega) (by omega)
    rw [hcell _ hne, hhand, hpusher]
    exact h.filling hf

/-- The popper gives back the cells it has emptied. -/
theorem advance (h : Guarded base S r push pop) {k : ℕ} (hk : k ≤ r.content.length)
    (ht : pop.taken = k) (hd : k ≤ pop.found r) (ht' : pop'.taken = 0)
    (hd' : pop'.found (r.advance k) = 0) (hw : S'.writes = S.writes)
    (hr : S'.reads = S.reads ++ [(place S.reads + k, S.popper)]) (hpusher : S.pusher ≤ S'.pusher)
    (hpopper : S.popper ≤ S'.popper) (hcell : S'.cell = S.cell) (hhand : S'.hand = S.hand) :
    Guarded base S' (r.advance k) push pop' := by
  have hlen := h.length
  refine ⟨?_, ?_, ?_, ?_, fun q h₁ h₂ c hc => ?_, fun q h₁ h₂ c hc => ?_, fun q h₁ h₂ => ?_,
    fun hf => ?_⟩
  · rw [hw]
    exact h.write.mono hpusher
  · rw [hr]
    exact h.read.store k hpopper
  · rw [hw, hr, place_snoc, r.content_advance hk, List.length_drop]
    omega
  · rw [hw, hr, place_snoc, hd']
    exact h.found.mono (by omega) hpopper
  · rw [hr, place_snoc, ht'] at h₁
    rw [hw] at h₂ hc
    rw [hcell, hhand, Ring.advance_cell]
    exact h.waiting q (by omega) h₂ c hc
  · rw [hw] at h₁
    rw [hr, place_snoc] at h₂
    rw [hr] at hc
    rw [hcell]
    rcases Nat.lt_or_ge q (place S.reads + n) with hq | hq
    · rcases hc.of_snoc with hold | ⟨-, hnew⟩
      · exact h.free q h₁ hq c hold
      · exact (h.free q h₁ hq S.popper (h.read.reached (by omega))).trans hnew
    · -- the cell of one round before has just been emptied
      rcases hc.of_snoc with hold | ⟨-, hnew⟩
      · exact absurd hold (h.read.not_reached (by omega))
      · have := h.taking (q - n) (by omega) (by omega)
        rw [← offset_add_round, Nat.sub_add_cancel (by omega)] at this
        exact this.trans hnew
  · rw [hr, place_snoc] at h₁
    rw [hr, place_snoc, ht'] at h₂
    omega
  · rw [hcell, hhand]
    exact ⟨(h.filling hf).1.trans hpusher, (h.filling hf).2.trans hpusher⟩

/-- The pusher may fill the cell at the write index once it knows that it was given back. -/
theorem fill_clear (h : Guarded base S r push pop) (hf : push.filled = 0)
    (hknown : Reached S.reads (place S.writes + 1 - n) S.pusher) : S.cell r.write ≤ S.pusher := by
  have hlen := h.length
  have hroom := r.length_content_lt
  rw [h.write.value]
  exact h.free _ (by omega) (by omega) _ hknown

/-- The popper may take a handle that it has found, and access what it points to. -/
theorem take_clear (h : Guarded base S r push pop) (hlt : pop.taken < pop.found r)
    (hle : pop.taken < r.content.length) : S.cell (offset r.read pop.taken) ≤ S.popper ∧
      S.hand (r.cell (offset r.read pop.taken)) ≤ S.popper := by
  have hlen := h.length
  rw [h.read.value, offset_offset]
  exact h.waiting _ le_rfl (by omega) _ (h.found.mono (by omega) le_rfl)

/-- A write index that the popper has loaded: it shows handles that are there, and the popper
knows of them. -/
theorem found_load (h : Guarded base S r push pop) {x : ℕ × Clock ι} (hx : x ∈ S.writes)
    (hle : place S.reads ≤ x.1) (hc : x.2 ≤ S.popper) :
    gap r.read (offset base x.1) ≤ r.content.length ∧
      Reached S.writes (place S.reads + gap r.read (offset base x.1)) S.popper := by
  have hlen := h.length
  have hroom := r.length_content_lt
  have hle' := h.write.le_place hx
  have hgap : gap r.read (offset base x.1) = x.1 - place S.reads := by
    have hoff : offset base x.1 = offset r.read (x.1 - place S.reads) := by
      rw [h.read.value, offset_offset, Nat.add_sub_cancel' hle]
    rw [hoff, gap_offset _ (by omega)]
  rw [hgap, Nat.add_sub_cancel' hle]
  exact ⟨by omega, x, hx, le_rfl, hc⟩

end Guarded
end Spsc
