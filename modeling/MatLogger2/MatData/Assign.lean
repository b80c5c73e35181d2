import MatLogger2.Lib.Owned
import MatLogger2.MatData

/-! Copy assignment on trees of heap nodes. `reset` releases what the target owns before the source
is cloned, so that the target and the source must not contain each other. -/

namespace XBot
namespace MatData

open Owned Owned.Handle

variable {α : Type}

/-- What a node holds beside its children: `ScalarData`, `StructData` or `CellData`. -/
inductive MatDataBase (α : Type)
  | text (s : StdString)
  | number (x : α)
  | matrix (m : Eigen.MatrixXd α)
  | struct (keys : List StdString)
  | cell

def MatDataBase.build : MatDataBase α → List (MatData α) → MatData α
  | .text s, _ => .text s
  | .number x, _ => .number x
  | .matrix m, _ => .matrix m
  | .struct keys, ds => .struct (keys.zip ds)
  | .cell, ds => .cell ds

/-- The value of a variable; one that was emptied has none. -/
def valueOf (t : Handle (MatDataBase α)) : Option (MatData α) := t.fold MatDataBase.build

def valueAt (t : Handle (MatDataBase α)) (p : List ℕ) : Option (MatData α) := (t.get p).bind valueOf

/-- `MatData::operator=`; it has no result when it uses a null or a dangling handle. -/
def assign (t : Handle (MatDataBase α)) (n : ℕ) (this rhs : Slot) :
    Option (Handle (MatDataBase α) × ℕ) :=
  if this = rhs then some (t, n)
  else
    -- `_data_ptr.reset()`
    (t.write this .null).bind fun t =>
    -- `_data_ptr = rhs._data_ptr->clone()`
    (t.read rhs).bind fun source =>
    (clone n source).bind fun copy =>
    (t.write this copy.1).map fun t => (t, copy.2)

/-- `t[p] = t[q]` -/
def assignAt (t : Handle (MatDataBase α)) (n : ℕ) (p q : List ℕ) :
    Option (Handle (MatDataBase α) × ℕ) :=
  (t.slot p).bind fun this => (t.slot q).bind fun rhs => assign t n this rhs

/-- The assignment copies the value of `t[q]` to `t[p]`, and to nowhere else. -/
def CopiesValue (t : Handle (MatDataBase α)) (n : ℕ) (p q : List ℕ) : Prop :=
  ∃ t' n', assignAt t n p q = some (t', n') ∧ valueAt t' p = valueAt t q ∧
    ∀ r, ¬ r <+: p → ¬ p <+: r → t'.get r = t.get r

section

variable {t : Handle (MatDataBase α)} {n : ℕ} {p q : List ℕ}

theorem assignAt_self {x : Handle (MatDataBase α)} (hp : t.get p = some x) :
    assignAt t n p p = some (t, n) := by
  obtain ⟨s, hs⟩ := exists_slot hp
  rw [assignAt, hs, Option.bind_some, Option.bind_some, assign, if_pos rfl]

/-- What is left of an assignment to another position once the target is released. -/
theorem assignAt_eq (ht : t.addrs.Nodup) (hpq : p ≠ q) {x : Handle (MatDataBase α)}
    (hp : t.get p = some x) {this rhs : Slot} (hthis : t.slot p = some this)
    (hrhs : t.slot q = some rhs) :
    assignAt t n p q = ((t.set p .null).read rhs).bind fun source =>
      (clone n source).bind fun copy =>
      ((t.set p .null).write this copy.1).map fun t => (t, copy.2) := by
  have hne : this ≠ rhs := fun h => hpq (slot_inj ht hthis (h ▸ hrhs))
  rw [assignAt, hthis, hrhs, Option.bind_some, Option.bind_some, assign, if_neg hne,
    write_slot ht hthis hp, Option.bind_some]

/-- The target contains the source: the source has been released. -/
theorem assignAt_inner (ht : t.Sound n) (hpq : p ≠ q) (hpre : p <+: q)
    {x y : Handle (MatDataBase α)} (hp : t.get p = some x) (hq : t.get q = some y) :
    assignAt t n p q = none := by
  obtain ⟨this, hthis⟩ := exists_slot hp
  obtain ⟨rhs, hrhs⟩ := exists_slot hq
  rw [assignAt_eq ht.nodup hpq hp hthis hrhs]
  obtain ⟨r, rfl⟩ := hpre
  rcases List.eq_nil_or_concat' r with rfl | ⟨r, i, rfl⟩
  · exact absurd (List.append_nil p).symm hpq
  · rw [← List.append_assoc] at hrhs
    rw [read_released ht.nodup hp hrhs, Option.bind_none]

/-- The source contains the target: the clone meets the handle that was emptied. -/
theorem assignAt_outer (ht : t.Sound n) (hpq : p ≠ q) (hpre : q <+: p)
    {x y : Handle (MatDataBase α)} (hp : t.get p = some x) (hq : t.get q = some y) :
    assignAt t n p q = none := by
  obtain ⟨this, hthis⟩ := exists_slot hp
  obtain ⟨rhs, hrhs⟩ := exists_slot hq
  rw [assignAt_eq ht.nodup hpq hp hthis hrhs]
  obtain ⟨r, rfl⟩ := hpre
  have hkept : (t.set (q ++ r) .null).slot q = some rhs := by
    refine slot_set (fun hpre => ?_) hrhs _
    exact hpre.eq_of_length_le (by rw [List.length_append]; omega)
  rw [read_slot (ht.set_null hp).nodup hkept, get_set_of_prefix hq, Option.bind_some]
  have hr : y.get r = some x := by rwa [get_append, hq] at hp
  rw [clone_none (get_set hr .null), Option.bind_none]

/-- Neither contains the other: a copy of the source is stored at the target. -/
theorem assignAt_apart (ht : t.Sound n) (hpq : ¬ p <+: q) (hqp : ¬ q <+: p)
    {x y c : Handle (MatDataBase α)} {n' : ℕ} (hp : t.get p = some x) (hq : t.get q = some y)
    (hc : clone n y = some (c, n')) : assignAt t n p q = some (t.set p c, n') := by
  obtain ⟨this, hthis⟩ := exists_slot hp
  obtain ⟨rhs, hrhs⟩ := exists_slot hq
  have hne : p ≠ q := fun h => hpq (h ▸ List.prefix_refl p)
  have hnodup := (ht.set_null hp).nodup
  rw [assignAt_eq ht.nodup hne hp hthis hrhs,
    read_slot hnodup (slot_set (fun h => absurd h hpq) hrhs _), get_set_of_not_prefix hpq hqp, hq,
    Option.bind_some, hc, Option.bind_some,
    write_slot hnodup (slot_set (fun _ => rfl) hthis _) (get_set hp _), set_set, Option.map_some]

/-- Assignments leave every node with one owner. -/
theorem assignAt_sound (ht : t.Sound n) {x y : Handle (MatDataBase α)} (hp : t.get p = some x)
    (hq : t.get q = some y) {t' : Handle (MatDataBase α)} {n' : ℕ}
    (h : assignAt t n p q = some (t', n')) : t'.Sound n' := by
  by_cases hpq : p = q
  · subst hpq
    obtain ⟨rfl, rfl⟩ := Prod.mk.inj (Option.some.inj ((assignAt_self hp).symm.trans h))
    exact ht
  by_cases hpre : p <+: q
  · rw [assignAt_inner ht hpq hpre hp hq] at h
    cases h
  by_cases hpre' : q <+: p
  · rw [assignAt_outer ht hpq hpre' hp hq] at h
    cases h
  cases hc : clone n y with
  | none =>
    obtain ⟨this, hthis⟩ := exists_slot hp
    obtain ⟨rhs, hrhs⟩ := exists_slot hq
    rw [assignAt_eq ht.nodup hpq hp hthis hrhs,
      read_slot (ht.set_null hp).nodup (slot_set (fun h => absurd h hpre) hrhs _),
      get_set_of_not_prefix hpre hpre', hq, Option.bind_some, hc] at h
    cases h
  | some copy =>
    rw [assignAt_apart ht hpre hpre' hp hq hc] at h
    obtain ⟨rfl, rfl⟩ := Prod.mk.inj (Option.some.inj h)
    exact ht.set_clone hp hc

theorem copiesValue_iff (ht : t.Sound n) (hp : (t.get p).isSome) (hq : (valueAt t q).isSome) :
    CopiesValue t n p q ↔ p = q ∨ ¬ p <+: q ∧ ¬ q <+: p := by
  obtain ⟨x, hp⟩ := Option.isSome_iff_exists.mp hp
  obtain ⟨d, hd⟩ := Option.isSome_iff_exists.mp hq
  obtain ⟨y, hq, hy⟩ := Option.bind_eq_some_iff.mp hd
  by_cases hpq : p = q
  · subst hpq
    exact ⟨fun _ => .inl rfl, fun _ => ⟨t, n, assignAt_self hp, rfl, fun _ _ _ => rfl⟩⟩
  constructor
  · rintro ⟨t', n', h, -, -⟩
    refine .inr ⟨fun hpre => ?_, fun hpre => ?_⟩
    · rw [assignAt_inner ht hpq hpre hp hq] at h
      cases h
    · rw [assignAt_outer ht hpq hpre hp hq] at h
      cases h
  · rintro (h | ⟨hpre, hpre'⟩)
    · exact absurd h hpq
    obtain ⟨c, n', hc⟩ := exists_clone MatDataBase.build hy n
    refine ⟨t.set p c, n', assignAt_apart ht hpre hpre' hp hq hc, ?_, fun r hrp hpr => ?_⟩
    · rw [valueAt, get_set hp, valueAt, hq, Option.bind_some, Option.bind_some]
      exact clone_fold MatDataBase.build hc
    · exact get_set_of_not_prefix hpr hrp t c

end

/-- `t["a"] = 1; t["b"] = 2` -/
def twoFields : Handle (MatDataBase ℤ) :=
  .owns 0 (.struct [[97], [98]]) [.owns 1 (.number 1) [], .owns 2 (.number 2) []]

theorem twoFields_sound : twoFields.Sound 3 := by
  constructor <;> simp [twoFields, addrs, addrsAll]

theorem copiesValue_iff_fields :
    CopiesValue twoFields 3 [0] [1] ↔ ([0] : List ℕ) = [1] ∨ ¬ [0] <+: [1] ∧ ¬ [1] <+: [0] :=
  copiesValue_iff twoFields_sound rfl rfl

/-- `t = t["a"]` and `t["a"] = t` -/
theorem field_to_struct_dangling :
    twoFields.Sound 3 ∧ valueAt twoFields [] = some (.struct [([97], .number 1), ([98], .number 2)]) ∧
      valueAt twoFields [0] = some (.number 1) ∧
      assignAt twoFields 3 [] [0] = none ∧ assignAt twoFields 3 [0] [] = none ∧
      ¬ CopiesValue twoFields 3 [] [0] ∧ ¬ CopiesValue twoFields 3 [0] [] := by
  have hdown : assignAt twoFields 3 [] [0] = none := rfl
  have hup : assignAt twoFields 3 [0] [] = none := rfl
  refine ⟨twoFields_sound, rfl, rfl, hdown, hup, ?_, ?_⟩
  · rintro ⟨t', n', h, -⟩
    rw [hdown] at h
    cases h
  · rintro ⟨t', n', h, -⟩
    rw [hup] at h
    cases h

end MatData
end XBot
