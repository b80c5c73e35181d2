import Mathlib.Data.List.TakeWhile
import MatLogger2.Eigen

/-! The variables of the MAT-file library: trees of arrays whose data a pointer
leads to, which may be null. What the library computes with sizes in memory is
taken not to overflow; its conversions to `int` and `unsigned` are kept. -/

/-- A C string ends at its first NUL. -/
def cstr (s : StdString) : StdString := s.takeWhile (· ≠ 0)

theorem cstr_of_notMem {s : StdString} (h : (0 : UInt8) ∉ s) : cstr s = s := by
  refine List.takeWhile_eq_self_iff.mpr fun c hc => decide_eq_true ?_
  rintro rfl
  exact h hc

theorem cstr_cstr (s : StdString) : cstr (cstr s) = cstr s := by
  unfold cstr
  rw [List.takeWhile_takeWhile]
  simp

namespace Matio

/-- The data of a char array, by its data type. UTF-8 text is memory from an
address on, of which `size` bytes are its own; text of 16-bit units is an array. -/
inductive Text
  | utf8 (mem : ℕ → UInt8) (size : ℕ)
  | utf16 (units : Option (List UInt16))
  | uint16 (units : Option (List UInt16))
  | unsupported (dataType : ℕ)

/-- A `matvar_t`, by its class. Names of variables without use are left out of
`unsupported` ones. The data of a complex array are two pointers, to the real and
the imaginary parts; `view` is what the pointers show when they are read as elements. -/
inductive Matvar (α : Type)
  | double (name : StdString) (dims : List ℕ) (data : Option (List α))
  | complex (name : StdString) (dims : List ℕ) (view : List α) (data : Option (List α × List α))
  | char (name : StdString) (dims : List ℕ) (nbytes : ℕ) (text : Text)
  | struct (name : StdString) (dims : List ℕ) (fieldnames : List StdString)
    (data : Option (List (Option (Matvar α))))
  | cell (name : StdString) (dims : List ℕ) (data : Option (List (Option (Matvar α))))
  | unsupported (classType : ℕ)

instance {α : Type} : Inhabited (Matvar α) := ⟨.unsupported 0⟩

/-- Bytes that the decoder of UTF-8 takes for the character at a first byte. -/
def utf8Step (c : UInt8) : ℕ :=
  if c ≤ 0x7F then 1
  else if c &&& 0xE0 = 0xC0 then 2
  else if c &&& 0xF0 = 0xE0 then 3
  else if c &&& 0xF8 = 0xF0 then 4
  else 0

/-- The bytes of `count` characters from `k` on. -/
def utf8Nbytes (mem : ℕ → UInt8) : ℕ → ℕ → ℕ
  | 0, k => k
  | count + 1, k => utf8Nbytes mem count (k + utf8Step (mem k))

namespace Matvar

variable {α : Type}

/-- `Mat_VarCreate` of a numeric array. -/
def createDouble (name : StdString) (dims : List ℕ) (data : List α) : Matvar α :=
  .double (cstr name) dims (some data)

/-- `Mat_VarCreate` of a char array in UTF-8: `dims` counts characters. -/
def createText (name : StdString) (dims : List ℕ) (mem : ℕ → UInt8) (size : ℕ) : Matvar α :=
  .char (cstr name) dims (utf8Nbytes mem dims.prod 0) (.utf8 mem size)

/-- `Mat_VarCreate` of a cell array without data. -/
def createCell (name : StdString) (dims : List ℕ) : Matvar α :=
  .cell (cstr name) dims (if dims.prod > 0 then some (List.replicate dims.prod none) else none)

/-- `Mat_VarCreateStruct`, given an `unsigned` number of fields. -/
def createStruct (name : StdString) (dims : List ℕ) (fields : List StdString) : Matvar α :=
  let fieldnames := (fields.take (fields.length % 2 ^ 32)).map cstr
  .struct (cstr name) dims fieldnames
    (if fieldnames.length > 0 ∧ dims.prod > 0
      then some (List.replicate (dims.prod * fieldnames.length) none) else none)

/-- The fields that a loop with an `int` runs over. -/
def counted (fieldnames : List StdString) : List StdString :=
  (fieldnames.zipIdx.takeWhile fun p => (p.2 : ℤ) < toInt fieldnames.length).map Prod.fst

theorem counted_eq {fieldnames : List StdString} (h : fieldnames.length < 2 ^ 31) :
    counted fieldnames = fieldnames := by
  have hall : ∀ p ∈ fieldnames.zipIdx, decide ((p.2 : ℤ) < toInt fieldnames.length) = true := by
    rintro ⟨name, i⟩ hp
    have := List.snd_lt_of_mem_zipIdx hp
    rw [toInt_natCast h, decide_eq_true_iff]
    omega
  rw [counted, List.takeWhile_eq_self_iff.mpr hall]
  exact List.zipIdx_map_fst 0 fieldnames

theorem length_counted (fieldnames : List StdString) : (counted fieldnames).length < 2 ^ 31 := by
  rw [counted, List.length_map]
  by_contra hge
  -- the field at 2^31 - 1 would be below an int
  have hlt : 2 ^ 31 - 1 < (fieldnames.zipIdx.takeWhile
      fun p => (p.2 : ℤ) < toInt fieldnames.length).length := by omega
  have hget := List.getElem_mem hlt
  have hmem := List.mem_takeWhile_imp hget
  rw [(List.takeWhile_prefix _).getElem, List.getElem_zipIdx, decide_eq_true_iff] at hmem
  have := (toInt_range fieldnames.length).2
  omega

theorem counted_initial (fieldnames : List StdString) : counted fieldnames <+: fieldnames := by
  have h := (List.takeWhile_prefix (l := fieldnames.zipIdx)
    (fun p => decide ((p.2 : ℤ) < toInt fieldnames.length))).map Prod.fst
  rw [List.zipIdx_map_fst] at h
  exact h

/-- The search of a field. -/
def fieldIndex (fieldnames : List StdString) (fieldName : StdString) : Option ℕ :=
  (counted fieldnames).findIdx? (· = cstr fieldName)

theorem fieldIndex_counted {fieldnames : List StdString} (hnodup : (counted fieldnames).Nodup)
    {i : ℕ} (hi : i < (counted fieldnames).length) (hnul : (0 : UInt8) ∉ (counted fieldnames)[i]) :
    fieldIndex fieldnames (counted fieldnames)[i] = some i := by
  rw [fieldIndex, cstr_of_notMem hnul, List.findIdx?_eq_some_iff_getElem]
  refine ⟨hi, decide_eq_true rfl, fun j hj => ?_⟩
  rw [decide_eq_true_iff]
  intro he
  exact hj.ne ((hnodup.getElem_inj_iff).mp he)

theorem fieldIndex_getElem {fieldnames : List StdString} (hlt : fieldnames.length < 2 ^ 31)
    (hnodup : fieldnames.Nodup) {i : ℕ} (hi : i < fieldnames.length)
    (hnul : (0 : UInt8) ∉ fieldnames[i]) : fieldIndex fieldnames fieldnames[i] = some i := by
  have hcounted := counted_eq hlt
  have h := fieldIndex_counted (by rwa [hcounted]) (i := i) (by rwa [hcounted])
    (by simpa only [hcounted] using hnul)
  simpa only [hcounted] using h

/-- A field that is counted is found. -/
theorem exists_fieldIndex {fieldnames : List StdString} {key : StdString}
    (hkey : key ∈ counted fieldnames) (hnul : (0 : UInt8) ∉ key) :
    ∃ i < fieldnames.length, fieldIndex fieldnames key = some i := by
  have hsome : (fieldIndex fieldnames key).isSome := by
    rw [fieldIndex, cstr_of_notMem hnul, List.findIdx?_isSome, List.any_eq_true]
    exact ⟨key, hkey, decide_eq_true rfl⟩
  obtain ⟨i, hi⟩ := Option.isSome_iff_exists.mp hsome
  obtain ⟨hlt, -⟩ := List.findIdx?_eq_some_iff_getElem.mp hi
  exact ⟨i, hlt.trans_le (counted_initial fieldnames).length_le, hi⟩

def nameOf : Matvar α → StdString
  | .double name _ _ => name
  | .complex name _ _ _ => name
  | .char name _ _ _ => name
  | .struct name _ _ _ => name
  | .cell name _ _ => name
  | .unsupported _ => []

def setName (name : StdString) : Matvar α → Matvar α
  | .double _ dims data => .double name dims data
  | .complex _ dims view data => .complex name dims view data
  | .char _ dims nbytes text => .char name dims nbytes text
  | .struct _ dims fieldnames data => .struct name dims fieldnames data
  | .cell _ dims data => .cell name dims data
  | .unsupported classType => .unsupported classType

@[simp] theorem setName_nameOf (m : Matvar α) : m.setName m.nameOf = m := by
  cases m <;> rfl

/-- `Mat_VarSetStructFieldByName`. -/
def setStructFieldByName (m : Matvar α) (fieldName : StdString) (index : ℕ) (field : Matvar α) :
    Matvar α :=
  match m with
  | .struct name dims fieldnames (some data) =>
    match fieldIndex fieldnames fieldName with
    | none => m
    | some i =>
      if index < dims.prod then
        .struct name dims fieldnames
          (some (data.set (index * fieldnames.length + i) (some (field.setName (cstr fieldName)))))
      else m
  | _ => m

/-- `Mat_VarSetCell`. -/
def setCell (m : Matvar α) (index : ℕ) (cell : Matvar α) : Matvar α :=
  match m with
  | .cell name dims (some data) =>
    if index < dims.prod then .cell name dims (some (data.set index (some cell))) else m
  | _ => m

/-- `Mat_VarGetCell`. -/
def getCell (dims : List ℕ) (data : List (Option (Matvar α))) (index : ℕ) : Option (Matvar α) :=
  if index < dims.prod then data[index]?.join else none

/-- `Mat_VarGetStructFieldByName`. -/
def getStructFieldByName (dims : List ℕ) (fieldnames : List StdString)
    (data : List (Option (Matvar α))) (fieldName : StdString) (index : ℕ) : Option (Matvar α) :=
  (fieldIndex fieldnames fieldName).bind fun i =>
    if index < dims.prod then data[index * fieldnames.length + i]?.join else none

theorem nameOf_setStructField (m field : Matvar α) (key : StdString) (index : ℕ) :
    Matvar.nameOf (m.setStructFieldByName key index field) = Matvar.nameOf m := by
  unfold Matvar.setStructFieldByName
  split
  · split
    · rfl
    · split_ifs <;> rfl
  · rfl

theorem nameOf_setCell (m elem : Matvar α) (index : ℕ) :
    Matvar.nameOf (m.setCell index elem) = Matvar.nameOf m := by
  unfold Matvar.setCell
  split
  · split_ifs <;> rfl
  · rfl

/-- Whether `data` is null. -/
def noData : Matvar α → Bool
  | .double _ _ data => data.isNone
  | .complex _ _ _ data => data.isNone
  | .char _ _ _ (.utf8 _ _) => false
  | .char _ _ _ (.utf16 units) => units.isNone
  | .char _ _ _ (.uint16 units) => units.isNone
  | .char _ _ _ (.unsupported _) => false
  | .struct _ _ _ data => data.isNone
  | .cell _ _ data => data.isNone
  | .unsupported _ => false

end Matvar
end Matio
