import MatLogger2.Eigen

/-! The trees of strings, numbers, matrices, structs and cells that can be saved.
A struct is a `std::map`: its fields are sorted by key, and a key occurs once. -/

namespace XBot

inductive MatData (α : Type)
  | text (s : StdString)
  | number (x : α)
  | matrix (m : Eigen.MatrixXd α)
  | struct (fields : List (StdString × MatData α))
  | cell (elems : List (MatData α))

namespace MatData

variable {α : Type}

instance [Zero α] : Inhabited (MatData α) := ⟨.number 0⟩

/-- `operator[]` of a struct, for assignment. -/
def setField (fields : List (StdString × MatData α)) (key : StdString) (d : MatData α) :
    List (StdString × MatData α) :=
  match fields with
  | [] => [(key, d)]
  | f :: fields =>
    if key < f.1 then (key, d) :: f :: fields
    else if key = f.1 then (key, d) :: fields
    else f :: setField fields key d

/-- `operator[]` of a struct, for its value: a new field has the default one. -/
def getField [Zero α] (fields : List (StdString × MatData α)) (key : StdString) : MatData α :=
  (fields.lookup key).getD default

/-- Fields in the order of their keys are added at the end. -/
theorem setField_last {fields : List (StdString × MatData α)} {key : StdString}
    (h : ∀ f ∈ fields, f.1 < key) (d : MatData α) :
    setField fields key d = fields ++ [(key, d)] := by
  induction fields with
  | nil => rfl
  | cons f fields ih =>
    have hf := h f List.mem_cons_self
    have hlt : ¬ key < f.1 := List.lt_asymm hf
    have hne : ¬ key = f.1 := by
      rintro rfl
      exact List.lt_irrefl _ hf
    rw [setField, if_neg hlt, if_neg hne, ih fun g hg => h g (List.mem_cons_of_mem f hg)]
    rfl

theorem lookup_cons_eq {β : Type} (f : StdString × β) (fields : List (StdString × β))
    (key : StdString) :
    (f :: fields).lookup key = if key = f.1 then some f.2 else fields.lookup key := by
  rw [List.lookup_cons]
  by_cases h : key = f.1
  · simp [h]
  · rw [beq_false_of_ne h, if_neg h]

/-- A key that occurs once is found with its value. -/
theorem lookup_of_mem {β : Type} {fields : List (StdString × β)}
    (hnodup : (fields.map Prod.fst).Nodup) {f : StdString × β} (hf : f ∈ fields) :
    fields.lookup f.1 = some f.2 := by
  induction fields with
  | nil => cases hf
  | cons g fields ih =>
    rw [List.map_cons, List.nodup_cons] at hnodup
    rw [lookup_cons_eq]
    rcases List.mem_cons.mp hf with rfl | hf
    · rw [if_pos rfl]
    · rw [if_neg, ih hnodup.2 hf]
      intro h
      exact hnodup.1 (h ▸ List.mem_map_of_mem hf)

theorem lookup_setField (fields : List (StdString × MatData α)) (key key' : StdString)
    (d : MatData α) :
    (setField fields key d).lookup key' = if key' = key then some d else fields.lookup key' := by
  induction fields with
  | nil => rw [setField, lookup_cons_eq]
  | cons f fields ih =>
    rw [setField]
    by_cases hlt : key < f.1
    · rw [if_pos hlt, lookup_cons_eq]
    by_cases heq : key = f.1
    · rw [if_neg hlt, if_pos heq, lookup_cons_eq, lookup_cons_eq, heq]
      split_ifs <;> rfl
    · rw [if_neg hlt, if_neg heq, lookup_cons_eq, lookup_cons_eq, ih]
      split_ifs with hf hk
      · exact absurd (hk.symm.trans hf) heq
      · rfl
      · rfl
      · rfl

/-- One assignment after the other. -/
def setAll (fields kvs : List (StdString × MatData α)) : List (StdString × MatData α) :=
  kvs.foldl (fun fields f => setField fields f.1 f.2) fields

/-- Fields that come in the order of their keys are added as they are. -/
theorem setAll_sorted {fields kvs : List (StdString × MatData α)}
    (h : ∀ f ∈ fields, ∀ g ∈ kvs, f.1 < g.1) (hsorted : (kvs.map Prod.fst).Pairwise (· < ·)) :
    setAll fields kvs = fields ++ kvs := by
  induction kvs generalizing fields with
  | nil => rw [setAll, List.foldl_nil, List.append_nil]
  | cons g kvs ih =>
    rw [List.map_cons, List.pairwise_cons] at hsorted
    have hstep : setAll fields (g :: kvs) = setAll (fields ++ [g]) kvs := by
      rw [setAll, List.foldl_cons, setField_last fun f hf => h f hf g List.mem_cons_self]
      rfl
    rw [hstep, ih _ hsorted.2, List.append_assoc, List.singleton_append]
    intro f hf g' hg'
    rcases List.mem_append.mp hf with hf | hf
    · exact h f hf g' (List.mem_cons_of_mem g hg')
    · rw [List.mem_singleton.mp hf]
      exact hsorted.1 _ (List.mem_map_of_mem hg')

/-- A field that is assigned to once has what was assigned. -/
theorem lookup_setAll {fields kvs : List (StdString × MatData α)}
    (hnodup : (kvs.map Prod.fst).Nodup) (key : StdString) :
    (setAll fields kvs).lookup key = (kvs.lookup key).or (fields.lookup key) := by
  induction kvs generalizing fields with
  | nil => rw [setAll, List.foldl_nil, List.lookup_nil, Option.none_or]
  | cons g kvs ih =>
    rw [List.map_cons, List.nodup_cons] at hnodup
    have hstep : setAll fields (g :: kvs) = setAll (setField fields g.1 g.2) kvs := rfl
    rw [hstep, ih hnodup.2, lookup_setField, lookup_cons_eq]
    split_ifs with h
    · have hnone : kvs.lookup key = none := by
        rw [List.lookup_eq_none_iff]
        intro f hf
        rw [bne_iff_ne, h]
        intro hfg
        exact hnodup.1 (hfg ▸ List.mem_map_of_mem hf)
      rw [hnone]
      rfl
    · rfl

/-- Induction over a tree. -/
@[elab_as_elim, induction_eliminator]
theorem tree_induction {motive : MatData α → Prop} (text : ∀ s, motive (.text s))
    (number : ∀ x, motive (.number x)) (matrix : ∀ m, motive (.matrix m))
    (struct : ∀ fields, (∀ f ∈ fields, motive f.2) → motive (.struct fields))
    (cell : ∀ elems, (∀ d ∈ elems, motive d) → motive (.cell elems)) (d : MatData α) : motive d :=
  match d with
  | .text s => text s
  | .number x => number x
  | .matrix m => matrix m
  | .struct fields =>
    struct fields fun f _ => tree_induction text number matrix struct cell f.2
  | .cell elems => cell elems fun d _ => tree_induction text number matrix struct cell d
termination_by sizeOf d
decreasing_by
  · rename_i hf
    have := List.sizeOf_lt_of_mem hf
    obtain ⟨key, d⟩ := f
    simp only [Prod.mk.sizeOf_spec] at this
    simp only [MatData.struct.sizeOf_spec]
    omega
  · rename_i hd
    have := List.sizeOf_lt_of_mem hd
    simp only [MatData.cell.sizeOf_spec]
    omega

/-- `P` holds of the tree and of all trees in it. -/
inductive Each (P : MatData α → Prop) : MatData α → Prop
  | text {s : StdString} : P (.text s) → Each P (.text s)
  | number {x : α} : P (.number x) → Each P (.number x)
  | matrix {m : Eigen.MatrixXd α} : P (.matrix m) → Each P (.matrix m)
  | struct {fields : List (StdString × MatData α)} :
      P (.struct fields) → (∀ f ∈ fields, Each P f.2) → Each P (.struct fields)
  | cell {elems : List (MatData α)} :
      P (.cell elems) → (∀ d ∈ elems, Each P d) → Each P (.cell elems)

theorem each_struct {P : MatData α → Prop} {fields : List (StdString × MatData α)} :
    Each P (.struct fields) ↔ P (.struct fields) ∧ ∀ f ∈ fields, Each P f.2 :=
  ⟨fun h => by cases h with | struct h hf => exact ⟨h, hf⟩, fun h => .struct h.1 h.2⟩

theorem each_cell {P : MatData α → Prop} {elems : List (MatData α)} :
    Each P (.cell elems) ↔ P (.cell elems) ∧ ∀ d ∈ elems, Each P d :=
  ⟨fun h => by cases h with | cell h hd => exact ⟨h, hd⟩, fun h => .cell h.1 h.2⟩

/-- Struct keys are sorted and can be C strings; an `int` can count a cell. -/
def WellFormed : MatData α → Prop
  | .struct fields => (fields.map Prod.fst).Pairwise (· < ·) ∧ ∀ f ∈ fields, (0 : UInt8) ∉ f.1
  | .cell elems => elems.length < 2 ^ 31
  | _ => True

/-- An `int` can hold the dimensions of a matrix, and count the fields of a struct. -/
def FitsInt : MatData α → Prop
  | .matrix m => m.rows < 2 ^ 31 ∧ m.cols < 2 ^ 31
  | .struct fields => fields.length < 2 ^ 31
  | _ => True

mutual

/-- What can be told apart after a round trip: a number is a matrix of one element. -/
def norm : MatData α → MatData α
  | .text s => .text s
  | .number x => .matrix ⟨1, 1, [x], rfl⟩
  | .matrix m => .matrix m
  | .struct fields => .struct (normFields fields)
  | .cell elems => .cell (normElems elems)

def normFields : List (StdString × MatData α) → List (StdString × MatData α)
  | [] => []
  | (key, d) :: fields => (key, norm d) :: normFields fields

def normElems : List (MatData α) → List (MatData α)
  | [] => []
  | d :: elems => norm d :: normElems elems

end

theorem normFields_eq (fields : List (StdString × MatData α)) :
    normFields fields = fields.map fun f => (f.1, norm f.2) := by
  induction fields with
  | nil => rw [normFields, List.map_nil]
  | cons f fields ih =>
    obtain ⟨key, d⟩ := f
    rw [normFields, ih, List.map_cons]

theorem normElems_eq (elems : List (MatData α)) : normElems elems = elems.map norm := by
  induction elems with
  | nil => rw [normElems, List.map_nil]
  | cons d elems ih => rw [normElems, ih, List.map_cons]

end MatData
end XBot
