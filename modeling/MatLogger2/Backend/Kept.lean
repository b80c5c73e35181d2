import Mathlib.Data.List.ReduceOption
import MatLogger2.Backend.Decoded
import MatLogger2.Lib.Utf16

/-! When all of a variable of the file is in a tree of the logger: the numbers and the bytes of
each array, the elements of each cell one by one, and the fields of all elements of each struct
array under their names. -/

namespace XBot

open Matio

variable {α : Type}

namespace MatData

/-- A new field is added somewhere. -/
theorem setField_perm {fields : List (StdString × MatData α)} {key : StdString}
    (h : fields.lookup key = none) (d : MatData α) :
    (setField fields key d).Perm ((key, d) :: fields) := by
  induction fields with
  | nil => exact .refl _
  | cons f fields ih =>
    rw [lookup_cons_eq] at h
    split_ifs at h with hkey
    rw [setField, if_neg hkey]
    split_ifs
    · exact .refl _
    · exact ((ih h).cons f).trans (.swap _ _ _)

theorem setAll_perm (fields kvs : List (StdString × MatData α))
    (hnodup : (kvs.map Prod.fst).Nodup) (hnew : ∀ f ∈ kvs, fields.lookup f.1 = none) :
    (setAll fields kvs).Perm (kvs ++ fields) := by
  induction kvs generalizing fields with
  | nil => exact .refl _
  | cons g kvs ih =>
    rw [List.map_cons, List.nodup_cons] at hnodup
    have hstep : setAll fields (g :: kvs) = setAll (setField fields g.1 g.2) kvs := rfl
    have hrest : ∀ f ∈ kvs, (setField fields g.1 g.2).lookup f.1 = none := by
      intro f hf
      rw [lookup_setField, if_neg, hnew f (List.mem_cons_of_mem g hf)]
      intro h
      exact hnodup.1 (h ▸ List.mem_map_of_mem hf)
    rw [hstep]
    refine (ih _ hnodup.2 hrest).trans ?_
    refine ((setField_perm (hnew g List.mem_cons_self) g.2).append_left kvs).trans ?_
    exact List.perm_middle

/-- The fields that distinct keys have been given are found again. -/
theorem struct_perm {keys : List StdString} {ds : List (MatData α)} (hnodup : keys.Nodup)
    (hlen : keys.length = ds.length) : (setAll [] (keys.zip ds)).Perm (keys.zip ds) := by
  have hall := setAll_perm [] (keys.zip ds) (by rwa [List.map_fst_zip hlen.le]) fun _ _ => rfl
  rwa [List.append_nil] at hall

end MatData

/-- What distinct keys have does not depend on the order in which they are listed. -/
theorem eq_of_zip_perm {κ β : Type} {keys : List κ} (hnodup : keys.Nodup) {bs bs' : List β}
    (hlen : keys.length = bs.length) (hlen' : keys.length = bs'.length)
    (h : (keys.zip bs).Perm (keys.zip bs')) : bs = bs' := by
  refine List.ext_getElem (hlen.symm.trans hlen') fun i hi hi' => ?_
  have hmem : (keys[i], bs[i]) ∈ keys.zip bs' := by
    rw [← h.mem_iff, ← List.getElem_zip (h := by rw [List.length_zip]; omega)]
    exact List.getElem_mem _
  obtain ⟨j, hj, he⟩ := List.getElem_of_mem hmem
  rw [List.getElem_zip, Prod.mk.injEq, hnodup.getElem_inj_iff] at he
  obtain ⟨rfl, he⟩ := he
  exact he.symm

namespace MatioBackend

/-- The elements of a cell, or of all fields of a struct array. -/
def elements : Matvar α → List (Matvar α)
  | .cell _ _ data => (data.getD []).reduceOption
  | .struct _ _ _ data => (data.getD []).reduceOption
  | _ => []

/-- The fields of all elements of a struct array. -/
def fieldsOf (dims : List ℕ) (fieldnames : List StdString) : List StdString :=
  (List.replicate dims.prod fieldnames).flatten

/-- The characters of a text; units of 16 bits, in generalised UTF-8. -/
def bytesOf (nbytes : ℕ) : Text → List UInt8
  | .utf8 mem _ => (List.range nbytes).map mem
  | .utf16 us => Utf16.toWtf8 (us.getD [])
  | .uint16 us => Utf16.toWtf8 (us.getD [])
  | .unsupported _ => []

/-- All that is stored in a variable is in a tree, each part at its place. Of an array, all elements
are, in any order; of a complex one, both parts. -/
inductive Kept : Matvar α → MatData α → Prop
  | double {name : StdString} {dims : List ℕ} {data : Option (List α)} {mat : Eigen.MatrixXd α} :
      (data.getD []).Subperm mat.data → Kept (.double name dims data) (.matrix mat)
  | complex {name : StdString} {dims : List ℕ} {view : List α} {data : Option (List α × List α)}
      {mat : Eigen.MatrixXd α} :
      ((data.map fun d => d.1 ++ d.2).getD []).Subperm mat.data →
      Kept (.complex name dims view data) (.matrix mat)
  | char {name : StdString} {dims : List ℕ} {nbytes : ℕ} {text : Text} {s : StdString} :
      (bytesOf nbytes text).Subperm s → Kept (.char name dims nbytes text) (.text s)
  | cell {name : StdString} {dims : List ℕ} {data : Option (List (Option (Matvar α)))}
      {elems : List (MatData α)} :
      List.Forall₂ Kept (data.getD []).reduceOption elems →
      Kept (.cell name dims data) (.cell elems)
  | struct {name : StdString} {dims : List ℕ} {fieldnames : List StdString}
      {data : Option (List (Option (Matvar α)))} {fields : List (StdString × MatData α)}
      {elems : List (MatData α)} :
      fields.Perm ((fieldsOf dims fieldnames).zip elems) →
      List.Forall₂ Kept (data.getD []).reduceOption elems →
      Kept (.struct name dims fieldnames data) (.struct fields)

theorem map_some_reduceOption {β : Type} {xs : List (Option β)} (h : none ∉ xs) :
    xs.reduceOption.map some = xs := by
  induction xs with
  | nil => rfl
  | cons x xs ih =>
    rw [List.mem_cons, not_or] at h
    cases x with
    | none => exact absurd rfl h.1
    | some b => rw [List.reduceOption_cons_of_some, List.map_cons, ih h.2]

theorem length_reduceOption {β : Type} {xs : List (Option β)} (h : none ∉ xs) :
    xs.reduceOption.length = xs.length := by
  have hlen := congrArg List.length (map_some_reduceOption h)
  rwa [List.length_map] at hlen

theorem length_fieldsOf (dims : List ℕ) (fieldnames : List StdString) :
    (fieldsOf dims fieldnames).length = dims.prod * fieldnames.length := by
  simp [fieldsOf]

/-- How many elements a node has. -/
def elementCount : Matvar α → ℕ
  | .cell _ dims _ => dims.prod
  | .struct _ dims fieldnames _ => dims.prod * fieldnames.length
  | _ => 0

theorem length_elements {m : Matvar α} (hm : Filled m) : (elements m).length = elementCount m := by
  cases m with
  | cell name dims data => rw [elements, length_reduceOption hm.2, hm.1, elementCount]
  | struct name dims fieldnames data =>
    rw [elements, length_reduceOption hm.2.2.2, hm.2.2.1, elementCount]
  | double => rfl
  | complex => rfl
  | char => rfl
  | unsupported => rfl

/-! When an array, a cell or a struct is kept. -/

theorem kept_double_iff {name : StdString} {dims : List ℕ} {data : Option (List α)}
    {mat : Eigen.MatrixXd α} :
    Kept (.double name dims data) (.matrix mat) ↔ (data.getD []).Subperm mat.data := by
  constructor
  · intro h
    cases h with
    | double h => exact h
  · exact .double

theorem kept_complex_iff {name : StdString} {dims : List ℕ} {view : List α}
    {data : Option (List α × List α)} {mat : Eigen.MatrixXd α} :
    Kept (.complex name dims view data) (.matrix mat) ↔
      ((data.map fun d => d.1 ++ d.2).getD []).Subperm mat.data := by
  constructor
  · intro h
    cases h with
    | complex h => exact h
  · exact .complex

theorem kept_char_iff {name : StdString} {dims : List ℕ} {nbytes : ℕ} {text : Text}
    {s : StdString} :
    Kept (.char name dims nbytes text : Matvar α) (.text s) ↔ (bytesOf nbytes text).Subperm s := by
  constructor
  · intro h
    cases h with
    | char h => exact h
  · exact .char

theorem kept_cell_iff {name : StdString} {dims : List ℕ} {data : Option (List (Option (Matvar α)))}
    {ds : List (MatData α)} :
    Kept (.cell name dims data) (.cell ds) ↔
      List.Forall₂ Kept (elements (.cell name dims data)) ds := by
  constructor
  · intro h
    cases h with
    | cell h => exact h
  · exact .cell

theorem kept_struct_iff {name : StdString} {dims : List ℕ} {fieldnames : List StdString}
    {data : Option (List (Option (Matvar α)))} {fields : List (StdString × MatData α)} :
    Kept (.struct name dims fieldnames data) (.struct fields) ↔
      ∃ ds, fields.Perm ((fieldsOf dims fieldnames).zip ds) ∧
        List.Forall₂ Kept (elements (.struct name dims fieldnames data)) ds := by
  constructor
  · intro h
    cases h with
    | struct hperm h => exact ⟨_, hperm, h⟩
  · rintro ⟨ds, hperm, h⟩
    exact .struct hperm h

end MatioBackend
end XBot
