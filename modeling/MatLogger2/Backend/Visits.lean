import MatLogger2.Backend.Decode

/-! The nodes of a variable that the decoder comes to. It goes on to the next child whatever the one
before has returned, but not after an exception. -/

namespace XBot

open Matio

variable {α : Type}

namespace MatioBackend

/-- The children that the decoder asks for, one after the other. -/
def children : Matvar α → List (Option (Matvar α))
  | .cell _ dims data =>
    (List.range (cellDim dims).toNat).map (Matvar.getCell dims (data.getD []))
  | .struct _ dims fieldnames data =>
    (Matvar.counted fieldnames).map fun key =>
      Matvar.getStructFieldByName dims fieldnames (data.getD []) key 0
  | _ => []

section Reached

variable [Zero α]

/-- A child decoded on its own. -/
def decodeChild (c : Option (Matvar α)) : Exec (Bool × MatData α) :=
  c.elim .undefined fun c => makeMatdata c default

theorem decodeChild_eq_value {c : Option (Matvar α)} {r : Bool × MatData α} :
    decodeChild c = .value r ↔ ∃ m, c = some m ∧ makeMatdata m default = .value r := by
  cases c with
  | none => simp [decodeChild]
  | some m => simp [decodeChild]

/-- The children that the decoder comes to. -/
def reached (m : Matvar α) : List (Option (Matvar α)) := Exec.reached decodeChild (children m)

/-- `make_matdata` is called on `x` when it is called on `m`; null is a child that is
not there. -/
inductive Visits : Matvar α → Option (Matvar α) → Prop
  | self (m : Matvar α) : Visits m (some m)
  | null {m : Matvar α} : none ∈ reached m → Visits m none
  | child {m c : Matvar α} {x : Option (Matvar α)} :
      some c ∈ reached m → Visits c x → Visits m x

theorem mem_children {m : Matvar α} {c : Option (Matvar α)} (h : c ∈ reached m) : c ∈ children m :=
  Exec.mem_of_mem_reached h

theorem reached_leaf {m : Matvar α} (h : children m = []) : reached m = [] := by
  rw [reached, h]
  rfl

end Reached

theorem sizeOf_child {m c : Matvar α} (h : some c ∈ children m) : sizeOf c < sizeOf m := by
  cases m with
  | cell name dims data =>
    obtain ⟨i, -, hget⟩ := List.mem_map.mp h
    have hlt := sizeOf_getCell hget
    cases data with
    | none => simp [Matvar.getCell] at hget
    | some data =>
      simp only [Option.getD_some] at hlt
      simp only [Matvar.cell.sizeOf_spec, Option.some.sizeOf_spec]
      omega
  | struct name dims fieldnames data =>
    obtain ⟨key, -, hget⟩ := List.mem_map.mp h
    have hlt := sizeOf_getField hget
    cases data with
    | none =>
      obtain ⟨k, -, hk⟩ := Option.bind_eq_some_iff.mp hget
      simp at hk
    | some data =>
      simp only [Option.getD_some] at hlt
      simp only [Matvar.struct.sizeOf_spec, Option.some.sizeOf_spec]
      omega
  | double => cases h
  | complex => cases h
  | char => cases h
  | unsupported => cases h

/-- Induction over what the decoder visits. -/
theorem visit_induction {motive : Matvar α → Prop}
    (step : ∀ m, (∀ c, some c ∈ children m → motive c) → motive m) (m : Matvar α) : motive m :=
  step m fun c _ => visit_induction step c
termination_by sizeOf m
decreasing_by
  rename_i h
  exact sizeOf_child h

/-- Each element of a cell and each field of a struct array is there; what a struct
calls its fields is distinct. -/
def Filled : Matvar α → Prop
  | .struct _ dims fieldnames data => fieldnames.Nodup ∧
      (∀ key ∈ fieldnames, (0 : UInt8) ∉ key) ∧
      (data.getD []).length = dims.prod * fieldnames.length ∧ none ∉ data.getD []
  | .cell _ dims data => (data.getD []).length = dims.prod ∧ none ∉ data.getD []
  | _ => True

/-- What a struct calls its fields is distinct. -/
def Distinct : Matvar α → Prop
  | .struct _ _ fieldnames _ => fieldnames.Nodup
  | _ => True

theorem Filled.distinct {m : Matvar α} (hm : Filled m) : Distinct m := by
  cases m with
  | struct => exact hm.1
  | _ => trivial

/-- The children that are counted are there: a cell has at least as many elements as
its one dimension says, a struct with fields has an element. -/
def Counted : Matvar α → Prop
  | .cell _ dims _ => cellDim dims ≤ dims.prod
  | .struct _ dims fieldnames _ => Matvar.counted fieldnames = [] ∨ dims.prod ≠ 0
  | _ => True

theorem getCell_eq_none_iff {dims : List ℕ} {data : List (Option (Matvar α))}
    (hlen : data.length = dims.prod) (hnull : none ∉ data) (i : ℕ) :
    Matvar.getCell dims data i = none ↔ dims.prod ≤ i := by
  unfold Matvar.getCell
  split_ifs with hi
  · rw [List.getElem?_eq_getElem (by omega), Option.join_some]
    refine iff_of_false (fun h => hnull ?_) (by omega)
    rw [← h]
    exact List.getElem_mem _
  · exact iff_of_true rfl (by omega)

theorem getStructField_eq_none_iff {dims : List ℕ} {fieldnames : List StdString}
    {data : List (Option (Matvar α))} (hnul : ∀ key ∈ fieldnames, (0 : UInt8) ∉ key)
    (hlen : data.length = dims.prod * fieldnames.length) (hnull : none ∉ data) {key : StdString}
    (hkey : key ∈ Matvar.counted fieldnames) :
    Matvar.getStructFieldByName dims fieldnames data key 0 = none ↔ dims.prod = 0 := by
  obtain ⟨i, hi, hidx⟩ :=
    Matvar.exists_fieldIndex hkey (hnul key ((Matvar.counted_initial fieldnames).subset hkey))
  rw [Matvar.getStructFieldByName, hidx, Option.bind_some, Nat.zero_mul, Nat.zero_add]
  split_ifs with hprod
  · have hlt : i < data.length := by
      rw [hlen]
      exact hi.trans_le (Nat.le_mul_of_pos_left _ hprod)
    rw [List.getElem?_eq_getElem hlt, Option.join_some]
    refine iff_of_false (fun h => hnull ?_) (by omega)
    rw [← h]
    exact List.getElem_mem _
  · exact iff_of_true rfl (by omega)

/-- A node has a null child if and only if its children are not as counted. -/
theorem null_child_iff {m : Matvar α} (hm : Filled m) : none ∈ children m ↔ ¬ Counted m := by
  cases m with
  | cell name dims data =>
    obtain ⟨hlen, hnull⟩ := hm
    rw [children, Counted]
    generalize cellDim dims = n
    simp only [List.mem_map, List.mem_range, getCell_eq_none_iff hlen hnull]
    constructor
    · rintro ⟨i, hi, hle⟩
      omega
    · intro h
      exact ⟨dims.prod, by omega, le_rfl⟩
  | struct name dims fieldnames data =>
    obtain ⟨-, hnul, hlen, hnull⟩ := hm
    rw [children, Counted, not_or, not_not, List.mem_map]
    constructor
    · rintro ⟨key, hkey, hget⟩
      exact ⟨List.ne_nil_of_mem hkey, (getStructField_eq_none_iff hnul hlen hnull hkey).mp hget⟩
    · rintro ⟨hne, hprod⟩
      obtain ⟨key, hkey⟩ := List.exists_mem_of_ne_nil _ hne
      exact ⟨key, hkey, (getStructField_eq_none_iff hnul hlen hnull hkey).mpr hprod⟩
  | double => exact iff_of_false (List.not_mem_nil) (not_not.mpr trivial)
  | complex => exact iff_of_false (List.not_mem_nil) (not_not.mpr trivial)
  | char => exact iff_of_false (List.not_mem_nil) (not_not.mpr trivial)
  | unsupported => exact iff_of_false (List.not_mem_nil) (not_not.mpr trivial)

/-- A cell that is counted to have more elements than it has, has none. -/
theorem prod_eq_zero_of_lt {dims : List ℕ} (h : (dims.prod : ℤ) < cellDim dims) : dims.prod = 0 := by
  obtain ⟨i, hi⟩ : ∃ i, cellDim dims = intDim dims i := by
    unfold cellDim
    split_ifs
    · exact ⟨0, rfl⟩
    · exact ⟨1, rfl⟩
  have hle := toNat_toInt_le (dims.getD i 0)
  rw [hi, intDim] at h
  have hdvd : dims.getD i 0 ∣ dims.prod := by
    by_cases hlt : i < dims.length
    · have heq : dims.getD i 0 = dims[i] := by simp [hlt]
      rw [heq]
      exact List.dvd_prod (List.getElem_mem hlt)
    · have heq : dims.getD i 0 = 0 := by simp [not_lt.mp hlt]
      rw [heq] at h hle
      omega
  by_contra hne
  have := Nat.le_of_dvd (Nat.pos_of_ne_zero hne) hdvd
  omega

/-- If any child is not there, the first is not. -/
theorem head_children {m : Matvar α} (hm : Filled m) (h : ¬ Counted m) :
    (children m).head? = some none := by
  cases m with
  | cell name dims data =>
    rw [Counted, not_le] at h
    have hzero := prod_eq_zero_of_lt h
    rw [children, List.head?_map, List.head?_range, if_neg (by omega), Option.map_some,
      (getCell_eq_none_iff hm.1 hm.2 0).mpr hzero.le]
  | struct name dims fieldnames data =>
    obtain ⟨-, hnul, hlen, hnull⟩ := hm
    rw [Counted, not_or, not_not] at h
    obtain ⟨key, keys, hkeys⟩ := List.exists_cons_of_ne_nil h.1
    have hkey : key ∈ Matvar.counted fieldnames := by
      rw [hkeys]
      exact List.mem_cons_self
    rw [children, hkeys, List.map_cons, List.head?_cons,
      (getStructField_eq_none_iff hnul hlen hnull hkey).mpr h.2]
  | double => exact absurd trivial h
  | complex => exact absurd trivial h
  | char => exact absurd trivial h
  | unsupported => exact absurd trivial h

theorem children_singleton (name : StdString) (c : Matvar α) :
    children (.cell name [1, 1] (some [some c])) = [some c] := by
  have hdim : cellDim [1, 1] = (1 : ℕ) := cellDim_column (by norm_num)
  rw [children, hdim]
  rfl

section Reached

variable [Zero α]

/-- The decoder comes to a null child if and only if the children are not as counted. -/
theorem null_reached_iff {m : Matvar α} (hm : Filled m) : none ∈ reached m ↔ ¬ Counted m := by
  refine ⟨fun h => (null_child_iff hm).mp (mem_children h), fun h => ?_⟩
  obtain ⟨cs, hcs⟩ := List.head?_eq_some_iff.mp (head_children hm h)
  rw [reached, hcs, Exec.reached]
  exact List.mem_cons_self

theorem reached_singleton (name : StdString) (c : Matvar α) :
    reached (.cell name [1, 1] (some [some c])) = [some c] := by
  rw [reached, children_singleton, Exec.reached]
  cases decodeChild (some c) <;> rfl

theorem visits_leaf {m p : Matvar α} (hm : children m = []) (h : Visits m (some p)) : p = m := by
  cases h with
  | self => rfl
  | child hmem => rw [reached_leaf hm] at hmem; cases hmem

theorem Visits.trans {m p : Matvar α} {x : Option (Matvar α)} (h : Visits m (some p))
    (hx : Visits p x) : Visits m x := by
  generalize hc : some p = c at h
  induction h with
  | self m => exact Option.some.inj hc ▸ hx
  | null => cases hc
  | child hmem _ ih => exact .child hmem (ih hc)

/-- What holds of all visited nodes holds of the first, and below each child. -/
theorem forall_visits {P : Matvar α → Prop} {m : Matvar α} :
    (∀ p, Visits m (some p) → P p) ↔
      P m ∧ ∀ c, some c ∈ reached m → ∀ p, Visits c (some p) → P p := by
  refine ⟨fun h => ⟨h m (.self m), fun c hc p hp => h p (.child hc hp)⟩, fun h p hp => ?_⟩
  cases hp with
  | self => exact h.1
  | child hc hp => exact h.2 _ hc p hp

theorem forall_visits_singleton {P : Matvar α → Prop} {name : StdString} {c : Matvar α}
    (hc : children c = []) :
    (∀ p, Visits (.cell name [1, 1] (some [some c])) (some p) → P p) ↔
      P (.cell name [1, 1] (some [some c])) ∧ P c := by
  rw [forall_visits, reached_singleton]
  refine and_congr_right fun _ => ⟨fun h => h c (List.mem_singleton_self _) c (.self c), ?_⟩
  intro h d hd p hp
  cases List.mem_singleton.mp hd
  rw [visits_leaf hc hp]
  exact h

/-- Null is visited as a child of some node. -/
theorem visits_null_iff {m : Matvar α} :
    Visits m none ↔ ∃ p, Visits m (some p) ∧ none ∈ reached p := by
  constructor
  · intro h
    generalize hc : none = c at h
    induction h with
    | self m => cases hc
    | null hmem => exact ⟨_, .self _, hmem⟩
    | child hmem _ ih =>
      obtain ⟨p, hp, hnull⟩ := ih hc
      exact ⟨p, .child hmem hp, hnull⟩
  · rintro ⟨p, hp, hnull⟩
    exact hp.trans (.null hnull)

end Reached

end MatioBackend
end XBot
