import MatLogger2.Lib.ReleaseAcquire

/-! When one operation of a trace happens before another: in the program order of its thread,
when a store is acquired, and through chains of these. If each access is made with knowledge of
the earlier accesses to its datum, then all accesses to a datum are ordered in this way. -/

namespace RelAcq

variable {ι L X V : Type}

abbrev Trace (ι L X V : Type) := List (ι × Op L X V)

section Snoc

variable {β : Type} {l : List β} {i : ℕ} {a : β}

theorem getElem?_snoc (h : l[i]? = some a) (b : β) : (l ++ [b])[i]? = some a := by
  obtain ⟨hi, -⟩ := List.getElem?_eq_some_iff.mp h
  rw [List.getElem?_append_left hi, h]

theorem getElem?_last (l : List β) (b : β) : (l ++ [b])[l.length]? = some b := by
  simp

theorem take_snoc (h : l[i]? = some a) (b : β) : (l ++ [b]).take i = l.take i := by
  obtain ⟨hi, -⟩ := List.getElem?_eq_some_iff.mp h
  exact List.take_append_of_le_length hi.le

/-- An entry of a list with one more is an old one or the new one. -/
theorem getElem?_snoc_cases {b : β} (h : (l ++ [b])[i]? = some a) :
    l[i]? = some a ∨ i = l.length ∧ a = b := by
  rcases Nat.lt_or_ge i l.length with hi | hi
  · rw [List.getElem?_append_left hi] at h
    exact .inl h
  · rw [List.getElem?_append_right hi, List.getElem?_singleton] at h
    split_ifs at h with h0
    exact .inr ⟨by omega, (Option.some.inj h).symm⟩

end Snoc

section Count

def Op.isStore : Op L X V → Bool
  | .store _ _ => true
  | _ => false

/-- Where a thread is after a trace, in its stores. -/
def epoch [DecidableEq ι] (t : ι) (tr : Trace ι L X V) : ℕ :=
  tr.countP (fun p => p.1 = t ∧ p.2.isStore) + 1

theorem epoch_snoc [DecidableEq ι] (t : ι) (tr : Trace ι L X V) (p : ι × Op L X V) :
    epoch t (tr ++ [p]) = epoch t tr + if p.1 = t ∧ p.2.isStore then 1 else 0 := by
  simp only [epoch, List.countP_append, List.countP_singleton, decide_eq_true_eq]
  omega

theorem epoch_take_le [DecidableEq ι] (t : ι) (tr : Trace ι L X V) (i : ℕ) :
    epoch t (tr.take i) ≤ epoch t tr :=
  Nat.succ_le_succ (List.take_sublist i tr).countP_le

variable [DecidableEq L]

def Op.storesTo (l : L) : Op L X V → Bool
  | .store l' _ => l' = l
  | _ => false

/-- How many stores of a location are in a trace. The one made before the trace has number 0. -/
def storesTo (l : L) (tr : Trace ι L X V) : ℕ := tr.countP fun p => p.2.storesTo l

theorem storesTo_snoc (l : L) (tr : Trace ι L X V) (p : ι × Op L X V) :
    storesTo l (tr ++ [p]) = storesTo l tr + if p.2.storesTo l then 1 else 0 := by
  simp only [storesTo, List.countP_append, List.countP_singleton]

end Count

/-- The `i`-th operation is before the `j`-th in their thread. -/
def Program (tr : Trace ι L X V) (i j : ℕ) : Prop :=
  i < j ∧ ∃ t o o', tr[i]? = some (t, o) ∧ tr[j]? = some (t, o')

variable [DecidableEq L]

/-- The `j`-th operation acquires what the `i`-th has stored. -/
def Synchronizes (tr : Trace ι L X V) (i j : ℕ) : Prop :=
  ∃ t u l v, tr[i]? = some (t, .store l v) ∧
    tr[j]? = some (u, .load l (storesTo l (tr.take i) + 1) true)

def HappensBefore (tr : Trace ι L X V) : ℕ → ℕ → Prop :=
  Relation.TransGen fun i j => Program tr i j ∨ Synchronizes tr i j

/-- Any two accesses to a datum are ordered. -/
def RaceFree (tr : Trace ι L X V) : Prop :=
  ∀ i j t u x, i < j → tr[i]? = some (t, .touch x) → tr[j]? = some (u, .touch x) →
    HappensBefore tr i j

section Trace

variable {tr : Trace ι L X V} {i j : ℕ} {t u : ι} {o o' : Op L X V}

theorem HappensBefore.snoc (h : HappensBefore tr i j) (p : ι × Op L X V) :
    HappensBefore (tr ++ [p]) i j := by
  refine Relation.TransGen.mono (fun i j h => ?_) i j h
  rcases h with ⟨hlt, t, o, o', hi, hj⟩ | ⟨t, u, l, v, hi, hj⟩
  · exact .inl ⟨hlt, t, o, o', getElem?_snoc hi p, getElem?_snoc hj p⟩
  · refine .inr ⟨t, u, l, v, getElem?_snoc hi p, ?_⟩
    rw [take_snoc hi p]
    exact getElem?_snoc hj p

theorem HappensBefore.trans {k : ℕ} (h : HappensBefore tr i j) (h' : HappensBefore tr j k) :
    HappensBefore tr i k := Relation.TransGen.trans h h'

/-- The operations of a thread happen before its next one. -/
theorem happensBefore_last (h : tr[i]? = some (t, o)) (o' : Op L X V) :
    HappensBefore (tr ++ [(t, o')]) i tr.length := by
  obtain ⟨hi, -⟩ := List.getElem?_eq_some_iff.mp h
  exact .single (.inl ⟨hi, t, o, o', getElem?_snoc h _, getElem?_last tr _⟩)

/-- The operation is one of this thread, or happens before one. -/
def KnownTo (tr : Trace ι L X V) (t : ι) (i : ℕ) : Prop :=
  ∃ j o, tr[j]? = some (t, o) ∧ (i = j ∨ HappensBefore tr i j)

theorem KnownTo.snoc (h : KnownTo tr t i) (p : ι × Op L X V) : KnownTo (tr ++ [p]) t i := by
  obtain ⟨j, o, hj, h⟩ := h
  exact ⟨j, o, getElem?_snoc hj p, h.imp_right fun h => h.snoc p⟩

/-- What is known to a thread happens before its next operation. -/
theorem KnownTo.before (h : KnownTo tr t i) (o : Op L X V) :
    HappensBefore (tr ++ [(t, o)]) i tr.length := by
  obtain ⟨j, o', hj, rfl | h⟩ := h
  · exact happensBefore_last hj o
  · exact (h.snoc _).trans (happensBefore_last hj o)

end Trace

variable [DecidableEq ι]

/-- The memory after the operations of a trace, each made with knowledge of the accesses before. -/
inductive Performed [DecidableEq X] (writer : L → ι) (v : L → V) :
    Trace ι L X V → Memory ι L X V → Prop
  | start : Performed writer v [] (Memory.start v)
  | next {tr : Trace ι L X V} {m m' : Memory ι L X V} {t : ι} {o : Op L X V} :
      Performed writer v tr m → m.Clear t o → m.perform writer t o = some m' →
      Performed writer v (tr ++ [(t, o)]) m'

/-- What a clock covers is known to the thread, or to the store, that has it. -/
structure Tracks (tr : Trace ι L X V) (m : Memory ι L X V) : Prop where
  own : ∀ t, m.clock t t = epoch t tr
  ahead : ∀ t u, u ≠ t → m.clock u t < m.clock t t
  behind : ∀ t l, ∀ s ∈ m.stores l, s.clock t < m.clock t t
  count : ∀ l, (m.stores l).length = storesTo l tr + 1
  knows : ∀ t i u o, tr[i]? = some (u, o) → u ≠ t → epoch u (tr.take i) ≤ m.clock t u →
    KnownTo tr t i
  carries : ∀ l n s, (m.stores l)[n]? = some s → s.clock = 0 ∨
    ∃ k t x, tr[k]? = some (t, .store l x) ∧ storesTo l (tr.take k) + 1 = n ∧
      ∀ i u o, tr[i]? = some (u, o) → epoch u (tr.take i) ≤ s.clock u →
        i = k ∨ HappensBefore tr i k
  touched : ∀ i u x, tr[i]? = some (u, .touch x) → epoch u (tr.take i) ≤ m.touched x u

namespace Tracks

theorem start (v : L → V) : Tracks ([] : Trace ι L X V) (Memory.start v) := by
  refine ⟨fun t => ?_, fun t u hu => ?_, fun t l s hs => ?_, fun l => rfl, nofun, fun l n s hs => ?_,
    nofun⟩
  · simp [Memory.start, epoch]
  · simp [Memory.start, hu.symm]
  · obtain rfl := List.mem_singleton.mp hs
    simp [Memory.start]
  · obtain rfl := List.mem_singleton.mp (List.mem_of_getElem? hs)
    exact .inl rfl

variable {tr : Trace ι L X V} {m m' : Memory ι L X V} {t : ι}

/-- The new operation is known to its thread only. -/
theorem knows_snoc {o : Op L X V} (h : Tracks tr m) (clock : ι → Clock ι)
    (hself : ∀ u, u ≠ t → ∀ i o', tr[i]? = some (u, o') → epoch u (tr.take i) ≤ clock t u →
      KnownTo (tr ++ [(t, o)]) t i)
    (hother : ∀ u, u ≠ t → clock u = m.clock u) (u i w o')
    (hi : (tr ++ [(t, o)])[i]? = some (w, o')) (hne : w ≠ u)
    (hle : epoch w ((tr ++ [(t, o)]).take i) ≤ clock u w) : KnownTo (tr ++ [(t, o)]) u i := by
  rcases getElem?_snoc_cases hi with hold | ⟨rfl, hp⟩
  · rw [take_snoc hold] at hle
    rcases eq_or_ne u t with rfl | hu
    · exact hself w hne i o' hold hle
    · rw [hother u hu] at hle
      exact (h.knows u i w o' hold hne hle).snoc _
  · -- another thread's clock is behind the one that has made the operation
    obtain ⟨rfl, rfl⟩ := Prod.mk.inj hp
    rw [hother u hne.symm, List.take_left, ← h.own w] at hle
    exact absurd (h.ahead w u hne.symm) (by omega)

/-- The stores made so far do not carry the new operation. -/
theorem carries_snoc {o : Op L X V} (h : Tracks tr m) {l : L} {n : ℕ} {s : Store ι V}
    (hs : (m.stores l)[n]? = some s) : s.clock = 0 ∨
    ∃ k u x, (tr ++ [(t, o)])[k]? = some (u, .store l x) ∧
      storesTo l ((tr ++ [(t, o)]).take k) + 1 = n ∧
      ∀ i w o', (tr ++ [(t, o)])[i]? = some (w, o') →
        epoch w ((tr ++ [(t, o)]).take i) ≤ s.clock w →
          i = k ∨ HappensBefore (tr ++ [(t, o)]) i k := by
  rcases h.carries l n s hs with h0 | ⟨k, u, x, hk, hn, hcov⟩
  · exact .inl h0
  · refine .inr ⟨k, u, x, getElem?_snoc hk _, by rw [take_snoc hk, hn], fun i w o' hi hle => ?_⟩
    rcases getElem?_snoc_cases hi with hi | ⟨rfl, hp⟩
    · rw [take_snoc hi] at hle
      exact (hcov i w o' hi hle).imp_right fun h => h.snoc _
    · obtain ⟨rfl, rfl⟩ := Prod.mk.inj hp
      rw [List.take_left, ← h.own w] at hle
      exact absurd (h.behind w l s (List.mem_of_getElem? hs)) (by omega)

theorem touched_snoc {o : Op L X V} (h : Tracks tr m) (ho : ∀ x, o ≠ .touch x) {i : ℕ} {u : ι} {x : X}
    (hi : (tr ++ [(t, o)])[i]? = some (u, .touch x)) :
    epoch u ((tr ++ [(t, o)]).take i) ≤ m.touched x u := by
  rcases getElem?_snoc_cases hi with hi | ⟨rfl, hp⟩
  · rw [take_snoc hi]
    exact h.touched i u x hi
  · exact absurd (Prod.mk.inj hp).2.symm (ho x)

variable [DecidableEq X] {writer : L → ι}

theorem load {l : L} {n : ℕ} {acquire : Bool} (h : Tracks tr m)
    (hm : m.perform writer t (.load l n acquire) = some m') :
    Tracks (tr ++ [(t, .load l n acquire)]) m' := by
  obtain ⟨s, hv, hstores, htouched, hclock⟩ := Memory.perform_load hm
  obtain ⟨hs, -⟩ := Memory.visible_eq_some hv
  have hmem := List.mem_of_getElem? hs
  have hother : ∀ u, u ≠ t → m'.clock u = m.clock u := by
    intro u hu
    rw [hclock, Function.update_of_ne hu]
  have hown : m'.clock t t = m.clock t t := by
    have := h.behind t l s hmem
    rw [hclock, Function.update_self]
    split_ifs
    · exact max_eq_left this.le
    · rfl
  have hclock_own : ∀ u, m'.clock u u = m.clock u u := by
    intro u
    rcases eq_or_ne u t with rfl | hu
    · exact hown
    · rw [hother u hu]
  refine ⟨fun u => ?_, fun u w hw => ?_, fun u l' s' hs' => ?_, fun l' => ?_, ?_,
    fun l' k s' hs' => ?_, fun i u x hi => ?_⟩
  · rw [hclock_own, h.own, epoch_snoc]
    simp [Op.isStore]
  · rw [hclock_own]
    rcases eq_or_ne w t with rfl | hwt
    · rw [hclock, Function.update_self]
      split_ifs
      · exact max_lt (h.ahead u w hw) (h.behind u l s hmem)
      · exact h.ahead u w hw
    · rw [hother w hwt]
      exact h.ahead u w hw
  · rw [hclock_own]
    exact h.behind u l' s' (hstores ▸ hs')
  · rw [hstores, h.count, storesTo_snoc]
    simp [Op.storesTo]
  · refine h.knows_snoc m'.clock (fun u hu i o' hi hle => ?_) hother
    rw [hclock, Function.update_self] at hle
    split_ifs at hle with hacq
    · rcases le_max_iff.mp hle with hle | hle
      · exact (h.knows t i u o' hi hu hle).snoc _
      · -- what the store carries is known from here on
        rcases h.carries l n s hs with h0 | ⟨k, w, x, hk, hn, hcov⟩
        · rw [h0] at hle
          exact absurd hle (by simp [epoch])
        · have hsync : HappensBefore (tr ++ [(t, .load l n acquire)]) k tr.length := by
            refine .single (.inr ⟨w, t, l, x, getElem?_snoc hk _, ?_⟩)
            rw [take_snoc hk, hn, hacq]
            exact getElem?_last tr _
          refine ⟨tr.length, _, getElem?_last tr _, .inr ?_⟩
          rcases hcov i u o' hi hle with rfl | hik
          · exact hsync
          · exact (hik.snoc _).trans hsync
    · exact (h.knows t i u o' hi hu hle).snoc _
  · exact h.carries_snoc (hstores ▸ hs')
  · rw [htouched]
    exact h.touched_snoc (by simp) hi

theorem store {l : L} {v : V} (h : Tracks tr m)
    (hm : m.perform writer t (.store l v) = some m') : Tracks (tr ++ [(t, .store l v)]) m' := by
  obtain ⟨hstores, htouched, hclock⟩ := Memory.perform_store hm
  have hother : ∀ u, u ≠ t → m'.clock u = m.clock u := by
    intro u hu
    rw [hclock, Function.update_of_ne hu]
  have hself : ∀ u, u ≠ t → m'.clock t u = m.clock t u := by
    intro u hu
    rw [hclock, Function.update_self, Function.update_of_ne hu]
  have hnext : m'.clock t t = m.clock t t + 1 := by
    rw [hclock, Function.update_self, Function.update_self]
  have hown : ∀ u, m.clock u u ≤ m'.clock u u := fun u => Memory.perform_clock hm u u
  refine ⟨fun u => ?_, fun u w hw => ?_, fun u l' s' hs' => ?_, fun l' => ?_, ?_,
    fun l' k s' hs' => ?_, fun i u x hi => ?_⟩
  · rcases eq_or_ne u t with rfl | hu
    · simp [epoch_snoc, h.own, Op.isStore, hnext]
    · simp [epoch_snoc, h.own, hother u hu, hu.symm]
  · refine lt_of_le_of_lt ?_ (lt_of_lt_of_le (h.ahead u w hw) (hown u))
    rcases eq_or_ne w t with rfl | hwt
    · exact (hself u hw.symm).le
    · rw [hother w hwt]
  · have hold : ∀ s ∈ m.stores l', s.clock u < m'.clock u u :=
      fun s hs => lt_of_lt_of_le (h.behind u l' s hs) (hown u)
    rcases eq_or_ne l' l with rfl | hl
    · rw [hstores, Function.update_self] at hs'
      rcases List.mem_append.mp hs' with hs' | hs'
      · exact hold s' hs'
      · obtain rfl := List.mem_singleton.mp hs'
        rcases eq_or_ne u t with rfl | hu
        · rw [hnext]
          exact Nat.lt_succ_self _
        · rw [hother u hu]
          exact h.ahead u t hu.symm
    · rw [hstores, Function.update_of_ne hl] at hs'
      exact hold s' hs'
  · rw [hstores, storesTo_snoc]
    rcases eq_or_ne l' l with rfl | hl
    · simp [h.count, Op.storesTo]
    · simp [h.count, Op.storesTo, hl, hl.symm]
  · refine h.knows_snoc m'.clock (fun u hu i o' hi hle => ?_) hother
    rw [hself u hu] at hle
    exact (h.knows t i u o' hi hu hle).snoc _
  · rcases eq_or_ne l' l with rfl | hl
    · rw [hstores, Function.update_self] at hs'
      rcases getElem?_snoc_cases hs' with hs' | ⟨rfl, rfl⟩
      · exact h.carries_snoc hs'
      · -- the new store carries what its thread knows
        refine .inr ⟨tr.length, t, v, getElem?_last tr _, ?_, fun i w o' hi hle => ?_⟩
        · rw [List.take_left, h.count]
        · rcases getElem?_snoc_cases hi with hold | ⟨rfl, -⟩
          · rw [take_snoc hold] at hle
            rcases eq_or_ne w t with rfl | hw
            · exact .inr (happensBefore_last hold _)
            · exact .inr ((h.knows t i w o' hold hw hle).before _)
          · exact .inl rfl
    · rw [hstores, Function.update_of_ne hl] at hs'
      exact h.carries_snoc hs'
  · rw [htouched]
    exact h.touched_snoc (by simp) hi

theorem touch {x : X} (h : Tracks tr m)
    (hm : m.perform writer t (.touch x) = some m') : Tracks (tr ++ [(t, .touch x)]) m' := by
  obtain ⟨hstores, hclock, htouched⟩ := Memory.perform_touch hm
  refine ⟨fun u => ?_, ?_, ?_, fun l => ?_, ?_, fun l k s hs => ?_, fun i u y hi => ?_⟩
  · rw [hclock, h.own, epoch_snoc]
    simp [Op.isStore]
  · rw [hclock]
    exact h.ahead
  · rw [hclock, hstores]
    exact h.behind
  · rw [hstores, h.count, storesTo_snoc]
    simp [Op.storesTo]
  · refine h.knows_snoc m'.clock (fun u hu i o' hi hle => ?_) fun u _ => by rw [hclock]
    rw [hclock] at hle
    exact (h.knows t i u o' hi hu hle).snoc _
  · exact h.carries_snoc (hstores ▸ hs)
  · rw [htouched]
    rcases getElem?_snoc_cases hi with hold | ⟨rfl, hp⟩
    · rw [take_snoc hold]
      have hle := h.touched i u y hold
      rcases eq_or_ne y x with rfl | hy
      · rw [Function.update_self]
        rcases eq_or_ne u t with rfl | hu
        · rw [Function.update_self, h.own]
          exact epoch_take_le u tr i
        · rwa [Function.update_of_ne hu]
      · rwa [Function.update_of_ne hy]
    · obtain ⟨rfl, hx⟩ := Prod.mk.inj hp
      obtain rfl := Op.touch.inj hx
      rw [List.take_left, Function.update_self, Function.update_self, h.own]

end Tracks

section Run

variable [DecidableEq X] {writer : L → ι} {v : L → V} {tr : Trace ι L X V} {m : Memory ι L X V}

theorem Performed.tracks (h : Performed writer v tr m) : Tracks tr m := by
  induction h with
  | start => exact .start v
  | @next tr m m' t o _ _ hm ih =>
    cases o with
    | load l n acquire => exact ih.load hm
    | store l v => exact ih.store hm
    | touch x => exact ih.touch hm

/-- Knowing the earlier accesses at each access is enough. -/
theorem Performed.raceFree (h : Performed writer v tr m) : RaceFree tr := by
  induction h with
  | start => exact fun i j t u x _ hi => by simp at hi
  | @next tr m m' t o hr hc _ ih =>
    intro i j w u x hlt hi hj
    rcases getElem?_snoc_cases hj with hj | ⟨rfl, hp⟩
    · have hi' : tr[i]? = some (w, .touch x) := by
        rw [← hi, List.getElem?_append_left]
        exact hlt.trans (List.getElem?_eq_some_iff.mp hj).1
      exact (ih i j w u x hlt hi' hj).snoc _
    · obtain ⟨rfl, rfl⟩ := Prod.mk.inj hp
      have hi' : tr[i]? = some (w, .touch x) := by
        rw [← hi, List.getElem?_append_left hlt]
      rcases eq_or_ne w u with rfl | hwu
      · exact happensBefore_last hi' _
      · have hcov := (hr.tracks.touched i w x hi').trans (hc w)
        exact (hr.tracks.knows u i w _ hi' hwu hcov).before _

end Run

end RelAcq
