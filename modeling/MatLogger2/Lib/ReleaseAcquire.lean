import Mathlib.Tactic

/-! Release stores and acquire loads of locations that have one writer each, and plain accesses
to other data. A store carries what its thread knew, and an acquiring load takes that over. A
load may see any store, unless its thread knows of a later one or has seen it. What is known of
a thread is how many stores it has made. -/

namespace RelAcq

variable {ι L X V : Type}

/-- How far each thread is known to have come. -/
abbrev Clock (ι : Type) := ι → ℕ

structure Store (ι V : Type) where
  value : V
  clock : Clock ι

/-- The stores of a location are in modification order. `seen` is the last one that a thread has
loaded, and `touched` says when each thread has last accessed a datum. -/
structure Memory (ι L X V : Type) where
  stores : L → List (Store ι V)
  clock : ι → Clock ι
  seen : ι → L → ℕ
  touched : X → Clock ι

inductive Op (L X V : Type)
  /-- A load that sees the `n`-th store. -/
  | load (l : L) (n : ℕ) (acquire : Bool)
  | store (l : L) (v : V)
  /-- A plain read or write. -/
  | touch (x : X)
  deriving DecidableEq

namespace Memory

/-- What was done before the threads were started is known to all of them. -/
def start [DecidableEq ι] (v : L → V) : Memory ι L X V where
  stores l := [⟨v l, 0⟩]
  clock t := Function.update 0 t 1
  seen _ _ := 0
  touched _ := 0

/-- The `n`-th store of `l`, if thread `t` may see it. -/
def visible (writer : L → ι) (m : Memory ι L X V) (t : ι) (l : L) (n : ℕ) : Option (Store ι V) :=
  let later := (m.stores l).drop (n + 1)
  let w := writer l
  if m.seen t l ≤ n ∧ ∀ s ∈ later, m.clock t w < s.clock w then (m.stores l)[n]? else none

variable {writer : L → ι} {m m' : Memory ι L X V} {t : ι}

theorem visible_eq_some {l : L} {n : ℕ} {s : Store ι V} (h : m.visible writer t l n = some s) :
    (m.stores l)[n]? = some s ∧
      ∀ k s', n < k → (m.stores l)[k]? = some s' → m.clock t (writer l) < s'.clock (writer l) := by
  simp only [visible] at h
  split_ifs at h with hv
  refine ⟨h, fun k s' hk hs => hv.2 s' ?_⟩
  refine List.mem_of_getElem? (i := k - (n + 1)) ?_
  rw [List.getElem?_drop, show n + 1 + (k - (n + 1)) = k by omega]
  exact hs

/-- A thread may have seen no more than has been stored. -/
def SeenStored (m : Memory ι L X V) : Prop := ∀ t l, m.seen t l < (m.stores l).length

theorem SeenStored.start [DecidableEq ι] (v : L → V) : (start v : Memory ι L X V).SeenStored :=
  fun _ _ => Nat.one_pos

/-- The newest store is visible. -/
theorem SeenStored.visible_newest (hs : m.SeenStored) {l : L} {s : Store ι V}
    (h : (m.stores l).getLast? = some s) :
    m.visible writer t l ((m.stores l).length - 1) = some s := by
  have hpos := hs t l
  rw [visible, if_pos, ← List.getLast?_eq_getElem?, h]
  refine ⟨by omega, fun s' hs' => ?_⟩
  rw [List.drop_of_length_le (by omega)] at hs'
  simp at hs'

variable [DecidableEq ι] [DecidableEq L] [DecidableEq X]

def perform (writer : L → ι) (m : Memory ι L X V) (t : ι) : Op L X V → Option (Memory ι L X V)
  | .load l n acquire =>
    (m.visible writer t l n).map fun s =>
      { m with
        clock := Function.update m.clock t (if acquire then m.clock t ⊔ s.clock else m.clock t)
        seen := Function.update m.seen t (Function.update (m.seen t) l n) }
  | .store l v =>
    some { m with
      stores := Function.update m.stores l (m.stores l ++ [⟨v, m.clock t⟩])
      clock := Function.update m.clock t (Function.update (m.clock t) t (m.clock t t + 1)) }
  | .touch x =>
    some { m with
      touched := Function.update m.touched x (Function.update (m.touched x) t (m.clock t t)) }

/-- Thread `t` knows of all earlier accesses to the datum it is about to touch. -/
def Clear (m : Memory ι L X V) (t : ι) : Op L X V → Prop
  | .touch x => m.touched x ≤ m.clock t
  | _ => True

theorem perform_load {l : L} {n : ℕ} {acquire : Bool}
    (h : m.perform writer t (.load l n acquire) = some m') :
    ∃ s, m.visible writer t l n = some s ∧ m'.stores = m.stores ∧ m'.touched = m.touched ∧
      m'.clock = Function.update m.clock t
        (if acquire then m.clock t ⊔ s.clock else m.clock t) := by
  simp only [perform, Option.map_eq_some_iff] at h
  obtain ⟨s, hs, rfl⟩ := h
  exact ⟨s, hs, rfl, rfl, rfl⟩

theorem perform_store {l : L} {v : V} (h : m.perform writer t (.store l v) = some m') :
    m'.stores = Function.update m.stores l (m.stores l ++ [⟨v, m.clock t⟩]) ∧
      m'.touched = m.touched ∧ m'.clock =
        Function.update m.clock t (Function.update (m.clock t) t (m.clock t t + 1)) := by
  cases h
  exact ⟨rfl, rfl, rfl⟩

theorem perform_touch {x : X} (h : m.perform writer t (.touch x) = some m') :
    m'.stores = m.stores ∧ m'.clock = m.clock ∧
      m'.touched = Function.update m.touched x (Function.update (m.touched x) t (m.clock t t)) := by
  cases h
  exact ⟨rfl, rfl, rfl⟩

/-- A thread does not forget. -/
theorem perform_clock {o : Op L X V} (h : m.perform writer t o = some m') (u : ι) :
    m.clock u ≤ m'.clock u := by
  cases o with
  | load l n acquire =>
    obtain ⟨s, -, -, -, hc⟩ := perform_load h
    rw [hc]
    rcases eq_or_ne u t with rfl | hu
    · rw [Function.update_self]
      split_ifs
      · exact le_sup_left
      · exact le_rfl
    · rw [Function.update_of_ne hu]
  | store l v =>
    obtain ⟨-, -, hc⟩ := perform_store h
    rw [hc]
    rcases eq_or_ne u t with rfl | hu
    · rw [Function.update_self, le_update_iff]
      exact ⟨Nat.le_succ _, fun _ _ => le_rfl⟩
    · rw [Function.update_of_ne hu]
  | touch x => exact ((perform_touch h).2.1 ▸ le_rfl)

theorem SeenStored.perform (hs : m.SeenStored)
    {o : Op L X V} (h : m.perform writer t o = some m') : m'.SeenStored := by
  intro u l
  cases o with
  | load l' n acquire =>
    simp only [Memory.perform, Option.map_eq_some_iff] at h
    obtain ⟨s, hv, rfl⟩ := h
    have hn := (List.getElem?_eq_some_iff.mp (visible_eq_some hv).1).1
    simp only [Function.update_apply]
    split_ifs with hu
    · rcases eq_or_ne l l' with rfl | hl
      · rwa [Function.update_self]
      · rw [Function.update_of_ne hl]
        exact hs t l
    · exact hs u l
  | store l' v =>
    cases h
    simp only [Function.update_apply]
    split_ifs with hl
    · subst hl
      rw [List.length_append]
      exact (hs u l).trans_le (Nat.le_add_right _ _)
    · exact hs u l
  | touch x =>
    cases h
    exact hs u l

end Memory
end RelAcq
