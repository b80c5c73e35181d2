import MatLogger2.Lib.Exec
import MatLogger2.Lib.Utf16
import MatLogger2.MatData
import MatLogger2.Matio.Matvar

/-! From a variable of the MAT-file library back to a tree of the logger. A null
child is dereferenced, and so is null data where there should be elements. -/

namespace XBot

open Matio

variable {α : Type}

namespace MatioBackend

/-- `Eigen::Map` of stored data, with `int` sizes; a negative size or an overflow of
their product has no defined outcome. -/
def mapData (data : Option (List α)) (rows cols slices : ℤ) : Exec (Eigen.MatrixXd α) :=
  if rows < 0 ∨ cols * slices < 0 ∨ cols * slices ≥ 2 ^ 31 then .undefined
  else
    match Eigen.MatrixXd.map (data.getD []) rows.toNat (cols * slices).toNat with
    | some m => .value m
    | none => .undefined

/-- `dims[i]`, where an `int` is wanted. -/
def intDim (dims : List ℕ) (i : ℕ) : ℤ := toInt (dims.getD i 0)

/-- The number of slices of an array. -/
def slicesOf (dims : List ℕ) : ℤ := if dims.length ≠ 3 then 1 else intDim dims 2

theorem intDim_zero (n : ℕ) (dims : List ℕ) : intDim (n :: dims) 0 = toInt n := by
  rw [intDim, List.getD_cons_zero]

theorem intDim_one (n k : ℕ) (dims : List ℕ) : intDim (n :: k :: dims) 1 = toInt k := by
  rw [intDim, List.getD_cons_succ, List.getD_cons_zero]

theorem slicesOf_matrix (n k : ℕ) : slicesOf [n, k] = 1 := if_pos (by simp)

theorem slicesOf_cube (n k l : ℕ) : slicesOf [n, k, l] = toInt l := by
  rw [slicesOf, if_neg (by simp), intDim, List.getD_cons_succ, List.getD_cons_succ,
    List.getD_cons_zero]

/-- `u16string::assign` and the conversion to UTF-8. `wstring_convert` throws at a surrogate without
its other half, but drops the first half of a character at the end. -/
def readUnits (units : Option (List UInt16)) (count : ℕ) : Exec StdString :=
  if count ≤ (units.getD []).length then
    match Utf16.toUtf8 (Utf16.complete ((units.getD []).take count)) with
    | some text => .value text
    | none => .thrown "wstring_convert::to_bytes"
  else .undefined

theorem toUtf8_of_readUnits {us : Option (List UInt16)} {n : ℕ} {t : StdString}
    (h : readUnits us n = .value t) :
    n ≤ (us.getD []).length ∧ Utf16.toUtf8 (Utf16.complete ((us.getD []).take n)) = some t := by
  unfold readUnits at h
  split_ifs at h with hle
  split at h
  · rename_i text htext
    injection h with h
    rw [htext, h]
    exact ⟨hle, rfl⟩
  · cases h

/-- `string::assign`. -/
def readBytes (mem : ℕ → UInt8) (size count : ℕ) : Exec StdString :=
  if count ≤ size then .value ((List.range count).map mem) else .undefined

theorem readBytes_eq {mem : ℕ → UInt8} {size count : ℕ} {t : StdString}
    (h : readBytes mem size count = .value t) : t = (List.range count).map mem := by
  unfold readBytes at h
  split_ifs at h
  exact (Exec.value.inj h).symm

/-- The returned value, and what has become of `matdata`. -/
def makeScalarMatdata (m : Matvar α) (matdata : MatData α) : Exec (Bool × MatData α) :=
  match m with
  | .double _ dims data =>
    (mapData data (intDim dims 0) (intDim dims 1) (slicesOf dims)).bind fun mat =>
      .value (true, .matrix mat)
  | .complex _ dims view data =>
    (mapData (data.map fun _ => view) (intDim dims 0) (intDim dims 1) (slicesOf dims)).bind
      fun mat => .value (true, .matrix mat)
  | .char _ dims _ text =>
    if dims.getD 0 0 ≠ 1 then .value (false, matdata)
    else
      match text with
      | .utf16 units => (readUnits units (dims.getD 1 0)).bind fun s => .value (true, .text s)
      | .uint16 units => (readUnits units (dims.getD 1 0)).bind fun s => .value (true, .text s)
      | .utf8 mem size =>
        (readBytes mem size (dims.getD 1 0)).bind fun s => .value (true, .text s)
      | .unsupported _ => .value (false, .text [])
  | _ => .value (false, matdata)

theorem makeScalarMatdata_char (name : StdString) (dims : List ℕ) (nbytes : ℕ) (text : Text)
    (matdata : MatData α) :
    makeScalarMatdata (.char name dims nbytes text) matdata =
      if dims.getD 0 0 ≠ 1 then .value (false, matdata)
      else
        match text with
        | .utf16 units => (readUnits units (dims.getD 1 0)).bind fun s => .value (true, .text s)
        | .uint16 units => (readUnits units (dims.getD 1 0)).bind fun s => .value (true, .text s)
        | .utf8 mem size =>
        (readBytes mem size (dims.getD 1 0)).bind fun s => .value (true, .text s)
        | .unsupported _ => .value (false, .text []) :=
  rfl

/-- The length of a cell, which has one dimension of 1. -/
def cellDim (dims : List ℕ) : ℤ := if dims.getD 0 0 ≠ 1 then intDim dims 0 else intDim dims 1

theorem cellDim_column {n : ℕ} (h : n < 2 ^ 31) : cellDim [n, 1] = n := by
  have hone : toInt (1 : ℕ) = (1 : ℕ) := toInt_natCast (by norm_num)
  by_cases hn : n = 1
  · rw [cellDim, if_neg (by simp [hn]), intDim_one, hone, hn]
  · rw [cellDim, if_pos (by simp [hn]), intDim_zero, toInt_natCast h]

theorem sizeOf_getCell {dims : List ℕ} {data : List (Option (Matvar α))} {i : ℕ} {m : Matvar α}
    (h : Matvar.getCell dims data i = some m) : sizeOf m < sizeOf data := by
  unfold Matvar.getCell at h
  split_ifs at h
  have := List.sizeOf_lt_of_mem (List.mem_of_getElem? (Option.join_eq_some_iff.mp h))
  simp only [Option.some.sizeOf_spec] at this
  omega

theorem sizeOf_getField {dims : List ℕ} {fieldnames : List StdString}
    {data : List (Option (Matvar α))} {name : StdString} {i : ℕ} {m : Matvar α}
    (h : Matvar.getStructFieldByName dims fieldnames data name i = some m) :
    sizeOf m < sizeOf data := by
  unfold Matvar.getStructFieldByName at h
  obtain ⟨k, -, h⟩ := Option.bind_eq_some_iff.mp h
  split_ifs at h
  have := List.sizeOf_lt_of_mem (List.mem_of_getElem? (Option.join_eq_some_iff.mp h))
  simp only [Option.some.sizeOf_spec] at this
  omega

def makeMatdata [Zero α] (m : Matvar α) (matdata : MatData α) : Exec (Bool × MatData α) :=
  match m with
  | .cell _ dims data =>
    let ok := dims.getD 0 0 = 1 ∨ dims.getD 1 0 = 1
    if cellDim dims < 0 then .thrown "vector::_M_default_append"
    else
      (Exec.all ((List.range (cellDim dims).toNat).map fun i =>
        match _h : Matvar.getCell dims (data.getD []) i with
        | none => .undefined
        | some cell => makeMatdata cell default)).bind fun elems =>
      .value (ok && elems.all (·.1), .cell (elems.map (·.2)))
  | .struct _ dims fieldnames data =>
    (Exec.foldl (fun (acc : Bool × List (StdString × MatData α)) name =>
        match _h : Matvar.getStructFieldByName dims fieldnames (data.getD []) name 0 with
        | none => .undefined
        | some field =>
          (makeMatdata field (MatData.getField acc.2 name)).bind fun r =>
            .value (acc.1 && r.1, MatData.setField acc.2 name r.2))
      (true, []) (Matvar.counted fieldnames)).bind fun r =>
    .value (r.1, .struct r.2)
  | .double .. => makeScalarMatdata m matdata
  | .complex .. => makeScalarMatdata m matdata
  | .char .. => makeScalarMatdata m matdata
  | .unsupported _ => .value (false, matdata)
termination_by sizeOf m
decreasing_by
  · have := sizeOf_getCell _h
    cases data with
    | none => simp [Matvar.getCell] at _h
    | some data =>
      simp only [Option.getD_some] at this
      simp only [Matvar.cell.sizeOf_spec, Option.some.sizeOf_spec]
      omega
  · have := sizeOf_getField _h
    cases data with
    | none =>
      unfold Matvar.getStructFieldByName at _h
      obtain ⟨k, -, h⟩ := Option.bind_eq_some_iff.mp _h
      simp at h
    | some data =>
      simp only [Option.getD_some] at this
      simp only [Matvar.struct.sizeOf_spec, Option.some.sizeOf_spec]
      omega

end MatioBackend
end XBot
