import MatLogger2.Backend.Visits

/-! What the decoder makes of each kind of node: of cells and structs, a value in
which each child has been decoded on its own, and the conjunction of what the
children returned. -/

namespace XBot

open Matio

variable {α : Type}

namespace MatioBackend

/-- What is read has the sizes that are asked for. -/
theorem mapData_sizes {data : Option (List α)} {rows cols : ℤ} {mat : Eigen.MatrixXd α}
    (h : mapData data rows cols 1 = .value mat) : mat.rows = rows ∧ mat.cols = cols := by
  unfold mapData at h
  rw [mul_one] at h
  split_ifs at h with hneg
  split at h
  · rename_i m hm
    unfold Eigen.MatrixXd.map at hm
    split_ifs at hm
    cases hm
    cases h
    exact ⟨Int.toNat_of_nonneg (by omega), Int.toNat_of_nonneg (by omega)⟩
  · cases h

/-- A matrix of two dimensions comes back as it is, if an `int` can hold them. -/
theorem mapData_eq_value (mat : Eigen.MatrixXd α) :
    mapData (some mat.data) (toInt mat.rows) (toInt mat.cols) 1 = .value mat ↔
      mat.rows < 2 ^ 31 ∧ mat.cols < 2 ^ 31 := by
  constructor
  · intro h
    obtain ⟨hrows, hcols⟩ := mapData_sizes h
    have hr := toInt_range mat.rows
    have hc := toInt_range mat.cols
    rw [← hrows] at hr
    rw [← hcols] at hc
    omega
  · rintro ⟨hrows, hcols⟩
    rw [toInt_natCast hrows, toInt_natCast hcols, mapData, if_neg (by omega), mul_one,
      Int.toNat_natCast, Int.toNat_natCast, Option.getD_some, Eigen.MatrixXd.map_data]

theorem getCell_column {ms : List (Matvar α)} {i : ℕ} (h : i < ms.length) :
    Matvar.getCell [ms.length, 1] (ms.map some) i = some ms[i] := by
  rw [Matvar.getCell, if_pos (by simpa using h), List.getElem?_map, List.getElem?_eq_getElem h]
  rfl

theorem getStructFieldByName_of_mem {fs : List (StdString × Matvar α)} (hlt : fs.length < 2 ^ 31)
    (hnodup : (fs.map Prod.fst).Nodup) (hnul : ∀ f ∈ fs, (0 : UInt8) ∉ f.1)
    {f : StdString × Matvar α} (hf : f ∈ fs) :
    Matvar.getStructFieldByName [1, 1] (fs.map Prod.fst) (fs.map fun f => some f.2) f.1 0 =
      some f.2 := by
  obtain ⟨i, hi, rfl⟩ := List.getElem_of_mem hf
  have hidx := Matvar.fieldIndex_getElem (by simpa using hlt) hnodup
    (i := i) (by simpa using hi) (by simpa using hnul _ (List.getElem_mem hi))
  rw [List.getElem_map] at hidx
  rw [Matvar.getStructFieldByName, hidx, Option.bind_some, if_pos (by simp), Nat.zero_mul,
    Nat.zero_add, List.getElem?_map, List.getElem?_eq_getElem hi]
  rfl

/-- Kinds of nodes that are decoded. -/
def Supported : Matvar α → Prop
  | .char _ _ _ (.unsupported _) => False
  | .char _ dims _ _ => dims.getD 0 0 = 1
  | .cell _ dims _ => dims.getD 0 0 = 1 ∨ dims.getD 1 0 = 1
  | .unsupported _ => False
  | _ => True

/-- A map of so many rows and columns fits an `int`, and the data. -/
def Mapped (data : Option (List α)) (rows cols : ℤ) : Prop :=
  0 ≤ rows ∧ 0 ≤ cols ∧ cols < 2 ^ 31 ∧ rows.toNat * cols.toNat ≤ (data.getD []).length

/-- Sizes, taken as `int`, that do not lead beyond the data, nor below zero. -/
def Sized : Matvar α → Prop
  | .double _ dims data => Mapped data (intDim dims 0) (intDim dims 1 * slicesOf dims)
  | .complex _ dims view data =>
    Mapped (data.map fun _ => view) (intDim dims 0) (intDim dims 1 * slicesOf dims)
  | .char _ dims _ (.utf16 us) => dims.getD 0 0 = 1 → dims.getD 1 0 ≤ (us.getD []).length
  | .char _ dims _ (.uint16 us) => dims.getD 0 0 = 1 → dims.getD 1 0 ≤ (us.getD []).length
  | .char _ dims _ (.utf8 _ size) => dims.getD 0 0 = 1 → dims.getD 1 0 ≤ size
  | .cell _ dims _ => 0 ≤ cellDim dims
  | _ => True

/-- An array of numbers or characters. -/
def Leaf : Matvar α → Prop
  | .double .. => True
  | .complex .. => True
  | .char .. => True
  | _ => False

/-- A cell or a struct. -/
def Node : Matvar α → Prop
  | .cell .. => True
  | .struct .. => True
  | _ => False

theorem children_leaf {m : Matvar α} (hnode : ¬ Node m) : children m = [] := by
  cases m with
  | cell => exact absurd trivial hnode
  | struct => exact absurd trivial hnode
  | _ => rfl

section Children

variable [Zero α]

theorem makeMatdata_cell (name : StdString) (dims : List ℕ)
    (data : Option (List (Option (Matvar α)))) (matdata : MatData α) :
    makeMatdata (.cell name dims data) matdata =
      if cellDim dims < 0 then .thrown "vector::_M_default_append"
      else (Exec.all ((children (.cell name dims data)).map decodeChild)).bind fun elems =>
        .value (decide (dims.getD 0 0 = 1 ∨ dims.getD 1 0 = 1) && elems.all (·.1),
          .cell (elems.map (·.2))) := by
  rw [makeMatdata, children, List.map_map]
  generalize cellDim dims = n
  refine if_congr Iff.rfl rfl (congrArg (fun f => (Exec.all (List.map f _)).bind _) ?_)
  funext i
  rw [Function.comp_apply, decodeChild]
  split <;> rename_i h <;> rw [h] <;> rfl

/-- A cell is decoded element by element. -/
theorem decode_cell_iff (name : StdString) {dims : List ℕ}
    {data : Option (List (Option (Matvar α)))} {matdata : MatData α} {r : Bool × MatData α} :
    makeMatdata (.cell name dims data) matdata = .value r ↔
      ¬ cellDim dims < 0 ∧ ∃ rs,
        List.Forall₂ (fun c r => decodeChild c = .value r) (children (.cell name dims data)) rs ∧
        r = (decide (dims.getD 0 0 = 1 ∨ dims.getD 1 0 = 1) && rs.all (·.1),
          .cell (rs.map (·.2))) := by
  rw [makeMatdata_cell]
  by_cases hneg : cellDim dims < 0
  · rw [if_pos hneg]
    exact iff_of_false (fun h => by cases h) fun h => h.1 hneg
  · rw [if_neg hneg, Exec.bind_eq_value]
    simp only [Exec.all_eq_value, List.forall₂_map_left_iff, Exec.value.injEq, hneg,
      not_false_eq_true, true_and, eq_comm (b := r)]

/-- One turn of the loop over the fields. -/
def decodeField (dims : List ℕ) (fieldnames : List StdString) (data : List (Option (Matvar α)))
    (acc : Bool × List (StdString × MatData α)) (name : StdString) :
    Exec (Bool × List (StdString × MatData α)) :=
  (Matvar.getStructFieldByName dims fieldnames data name 0).elim .undefined fun field =>
    (makeMatdata field (MatData.getField acc.2 name)).bind fun r =>
      .value (acc.1 && r.1, MatData.setField acc.2 name r.2)

theorem makeMatdata_struct (name : StdString) (dims : List ℕ) (fieldnames : List StdString)
    (data : Option (List (Option (Matvar α)))) (matdata : MatData α) :
    makeMatdata (.struct name dims fieldnames data) matdata =
      (Exec.foldl (decodeField dims fieldnames (data.getD [])) (true, [])
        (Matvar.counted fieldnames)).bind fun r => .value (r.1, .struct r.2) := by
  rw [makeMatdata]
  refine congrArg (fun f => (Exec.foldl f _ _).bind _) ?_
  funext acc key
  unfold decodeField
  split <;> rename_i h <;> rw [h] <;> rfl

/-- A field that has no value yet is decoded on its own. -/
theorem decodeField_new {dims : List ℕ} {fieldnames : List StdString}
    {data : List (Option (Matvar α))} {ok : Bool} {done : List (StdString × MatData α)}
    {key : StdString} (hkey : done.lookup key = none) :
    decodeField dims fieldnames data (ok, done) key =
      (decodeChild (Matvar.getStructFieldByName dims fieldnames data key 0)).bind fun r =>
        .value (ok && r.1, MatData.setField done key r.2) := by
  rw [decodeField, decodeChild, MatData.getField, hkey]
  cases Matvar.getStructFieldByName dims fieldnames data key 0 <;> rfl

/-- Distinct fields are decoded one after the other. -/
theorem foldl_decodeField {dims : List ℕ} {fieldnames : List StdString}
    {data : List (Option (Matvar α))} {keys : List StdString} (hnodup : keys.Nodup) {ok : Bool}
    (done : List (StdString × MatData α)) (hdone : ∀ key ∈ keys, done.lookup key = none)
    {r : Bool × List (StdString × MatData α)} :
    Exec.foldl (decodeField dims fieldnames data) (ok, done) keys = .value r ↔
      ∃ rs, List.Forall₂ (fun c r => decodeChild c = .value r)
          (keys.map fun key => Matvar.getStructFieldByName dims fieldnames data key 0) rs ∧
        r = (ok && rs.all (·.1), MatData.setAll done (keys.zip (rs.map (·.2)))) := by
  induction keys generalizing ok done with
  | nil =>
    rw [Exec.foldl_nil, Exec.value.injEq, List.map_nil]
    constructor
    · rintro rfl
      exact ⟨[], .nil, by simp [MatData.setAll]⟩
    · rintro ⟨rs, hrs, rfl⟩
      cases hrs
      simp [MatData.setAll]
  | cons key keys ih =>
    rw [List.nodup_cons] at hnodup
    have hdone' : ∀ d : MatData α, ∀ key' ∈ keys, (MatData.setField done key d).lookup key' = none := by
      intro d key' hkey'
      rw [MatData.lookup_setField, if_neg, hdone key' (List.mem_cons_of_mem key hkey')]
      rintro rfl
      exact hnodup.1 hkey'
    rw [Exec.foldl_cons_eq_value, decodeField_new (hdone key List.mem_cons_self), List.map_cons]
    simp only [Exec.bind_eq_value, Exec.value.injEq]
    constructor
    · rintro ⟨_, ⟨r', hr', rfl⟩, hs⟩
      obtain ⟨rs, hrs, rfl⟩ := (ih hnodup.2 _ (hdone' _)).mp hs
      exact ⟨r' :: rs, .cons hr' hrs, by simp [Bool.and_assoc, MatData.setAll]⟩
    · rintro ⟨rs, hrs, rfl⟩
      cases hrs with
      | cons hr' hrs =>
        rename_i r' rs
        refine ⟨_, ⟨r', hr', rfl⟩, (ih hnodup.2 _ (hdone' _)).mpr ⟨rs, hrs, ?_⟩⟩
        simp [Bool.and_assoc, MatData.setAll]

/-- A struct is decoded field by field. -/
theorem decode_struct_iff (name : StdString) {dims : List ℕ} {fieldnames : List StdString}
    (hnodup : (Matvar.counted fieldnames).Nodup) {data : Option (List (Option (Matvar α)))}
    {matdata : MatData α} {r : Bool × MatData α} :
    makeMatdata (.struct name dims fieldnames data) matdata = .value r ↔
      ∃ rs, List.Forall₂ (fun c r => decodeChild c = .value r)
          (children (.struct name dims fieldnames data)) rs ∧
        r = (rs.all (·.1),
          .struct (MatData.setAll [] ((Matvar.counted fieldnames).zip (rs.map (·.2))))) := by
  rw [makeMatdata_struct, Exec.bind_eq_value, children]
  simp only [foldl_decodeField hnodup [] (fun _ _ => rfl), Bool.true_and,
    Exec.value.injEq]
  constructor
  · rintro ⟨_, ⟨rs, hrs, rfl⟩, rfl⟩
    exact ⟨rs, hrs, rfl⟩
  · rintro ⟨rs, hrs, rfl⟩
    exact ⟨_, ⟨rs, hrs, rfl⟩, rfl⟩

theorem makeMatdata_leaf {m : Matvar α} (hleaf : Leaf m) (matdata : MatData α) :
    makeMatdata m matdata = makeScalarMatdata m matdata := by
  cases m with
  | double => rw [makeMatdata]
  | complex => rw [makeMatdata]
  | char => rw [makeMatdata]
  | struct => cases hleaf
  | cell => cases hleaf
  | unsupported => cases hleaf

/-- Which value the children of a node make. -/
def build : Matvar α → List (MatData α) → MatData α
  | .cell .., ds => .cell ds
  | .struct _ _ fieldnames _, ds => .struct (MatData.setAll [] ((Matvar.counted fieldnames).zip ds))
  | _, _ => default

/-- A cell or a struct returns what its children return. -/
theorem node_value_iff {m : Matvar α} (hnode : Node m) (hm : Distinct m) (matdata : MatData α)
    {r : Bool × MatData α} :
    makeMatdata m matdata = .value r ↔ Sized m ∧ ∃ rs,
      List.Forall₂ (fun c r => decodeChild c = .value r) (children m) rs ∧
      (r.1 = true ↔ Supported m ∧ ∀ r' ∈ rs, r'.1 = true) ∧ r.2 = build m (rs.map (·.2)) := by
  obtain ⟨ok, d⟩ := r
  cases m with
  | cell name dims data =>
    rw [decode_cell_iff, not_lt]
    refine and_congr_right fun _ => exists_congr fun rs => and_congr_right fun _ => ?_
    rw [Prod.mk.injEq, Bool.eq_iff_iff, Bool.and_eq_true, decide_eq_true_iff, List.all_eq_true]
    rfl
  | struct name dims fieldnames data =>
    have hnodup := (Matvar.counted_initial fieldnames).sublist.nodup hm
    rw [decode_struct_iff name hnodup]
    refine Iff.trans (exists_congr fun rs => and_congr_right fun _ => ?_)
      ⟨fun h => ⟨trivial, h⟩, fun h => h.2⟩
    rw [Prod.mk.injEq, Bool.eq_iff_iff, List.all_eq_true]
    exact and_congr_left fun _ => iff_congr Iff.rfl ⟨fun h => ⟨trivial, h⟩, fun h => h.2⟩
  | double => cases hnode
  | complex => cases hnode
  | char => cases hnode
  | unsupported => cases hnode

/-- Where a node has been decoded, its children have. -/
theorem decodeChild_of_value {m : Matvar α} (hm : Distinct m) {matdata : MatData α}
    {r : Bool × MatData α} (h : makeMatdata m matdata = .value r) {c : Option (Matvar α)}
    (hc : c ∈ children m) : ∃ r', decodeChild c = .value r' := by
  have hnode : Node m := by
    by_contra hnode
    rw [children_leaf hnode] at hc
    cases hc
  obtain ⟨-, rs, hrs, -⟩ := (node_value_iff hnode hm matdata).mp h
  exact Exec.exists_forall₂_iff.mp ⟨rs, hrs⟩ c hc

/-- Where a node has been decoded, all children have been reached. -/
theorem reached_of_value {m : Matvar α} (hm : Distinct m) {matdata : MatData α}
    {r : Bool × MatData α} (h : makeMatdata m matdata = .value r) : reached m = children m :=
  Exec.reached_eq fun _ hc => decodeChild_of_value hm h (mem_children hc)

/-- A column of cells is decoded cell by cell. -/
theorem decode_cell {ms : List (Matvar α)} (hlt : ms.length < 2 ^ 31) (name : StdString)
    {data : Option (List (Option (Matvar α)))} (hdata : data.getD [] = ms.map some)
    (matdata : MatData α) {r : Bool × MatData α} :
    makeMatdata (.cell name [ms.length, 1] data) matdata = .value r ↔
      ∃ rs, List.Forall₂ (fun m r => makeMatdata m default = .value r) ms rs ∧
        r = (rs.all (·.1), .cell (rs.map (·.2))) := by
  have hcells : children (.cell name [ms.length, 1] data) = ms.map some := by
    rw [children, cellDim_column hlt, hdata, Int.toNat_natCast]
    refine List.ext_getElem (by simp) fun i hi _ => ?_
    rw [List.length_map, List.length_range] at hi
    rw [List.getElem_map, List.getElem_range, List.getElem_map, getCell_column hi]
  have hdims : decide ([ms.length, 1].getD 0 0 = 1 ∨ [ms.length, 1].getD 1 0 = 1) = true :=
    decide_eq_true (.inr rfl)
  have hneg : ¬ cellDim [ms.length, 1] < 0 := by
    rw [cellDim_column hlt]
    omega
  rw [decode_cell_iff, hcells, hdims]
  simp only [hneg, not_false_eq_true, true_and, Bool.true_and, List.forall₂_map_left_iff]
  rfl

/-- A struct with sorted keys is decoded field by field. -/
theorem decode_struct {fs : List (StdString × Matvar α)} (hlt : fs.length < 2 ^ 31)
    (hsorted : (fs.map Prod.fst).Pairwise (· < ·)) (hnul : ∀ f ∈ fs, (0 : UInt8) ∉ f.1)
    (name : StdString) {data : Option (List (Option (Matvar α)))}
    (hdata : data.getD [] = fs.map fun f => some f.2) (matdata : MatData α)
    {r : Bool × MatData α} :
    makeMatdata (.struct name [1, 1] (fs.map Prod.fst) data) matdata = .value r ↔
      ∃ rs, List.Forall₂ (fun f r => makeMatdata f.2 default = .value r) fs rs ∧
        r = (rs.all (·.1), .struct ((fs.map Prod.fst).zip (rs.map (·.2)))) := by
  have hcounted := Matvar.counted_eq (by rwa [List.length_map] : (fs.map Prod.fst).length < 2 ^ 31)
  have hfields : children (.struct name [1, 1] (fs.map Prod.fst) data) =
      fs.map fun f => some f.2 := by
    rw [children, hcounted, hdata, List.map_map]
    exact List.map_congr_left fun f hf =>
      getStructFieldByName_of_mem hlt hsorted.nodup hnul hf
  rw [decode_struct_iff name (by rw [hcounted]; exact hsorted.nodup), hcounted, hfields]
  simp only [List.forall₂_map_left_iff]
  refine exists_congr fun rs => and_congr_right fun hrs => ?_
  have hlen : (fs.map Prod.fst).length = (rs.map Prod.snd).length := by
    rw [List.length_map, List.length_map, hrs.length_eq]
  rw [MatData.setAll_sorted (by simp) (by rwa [List.map_fst_zip hlen.le]), List.nil_append]

end Children
end MatioBackend
end XBot
