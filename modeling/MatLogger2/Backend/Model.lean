import MatLogger2.Backend.Encode
import MatLogger2.Backend.Decode
import MatLogger2.Matio.File
import MatLogger2.Logger.Model

/-! The backend that keeps the variables in a MAT-file. -/

namespace XBot

open Matio

variable {α : Type}

structure MatioBackend (α : Type) where
  matFile : Option (MatFile α)
  readOnly : Bool

namespace MatioBackend

/-- After `init` on a new file. -/
def init : MatioBackend α := ⟨some .empty, false⟩

/-- `write`, on memory that holds `data`; `none` if that is too short. -/
def write (lib : Library α) (s : MatioBackend α) (varName : StdString) (data : List α)
    (rows cols slices : ℤ) : Option (MatioBackend α × Bool) :=
  match s.matFile with
  | none => some (s, false)
  | some f =>
    if s.readOnly then some (s, false)
    else if slices ≤ 0 then some (s, false)
    else
      let dims := if slices = 1 then [rows.toNat, cols.toNat] else [rows.toNat, cols.toNat, slices.toNat]
      if dims.prod ≤ data.length then
        let r := f.writeAppend lib (cstr varName) dims (data.take dims.prod)
        some ({ s with matFile := some r.1 }, r.2)
      else none

/-- The matrix and the number of slices that `readvar` has found, if any. -/
def readvar (s : MatioBackend α) (varName : StdString) :
    Exec (Option (Eigen.MatrixXd α × ℤ)) :=
  match s.matFile with
  | none => .value none
  | some f =>
    match f.read varName with
    | none => .value none
    | some m =>
      if m.noData then .value none
      else
        match m with
        | .double _ dims data =>
          (mapData data (intDim dims 0) (intDim dims 1) (slicesOf dims)).bind fun mat =>
            .value (some (mat, slicesOf dims))
        | .complex _ dims view data =>
          (mapData (data.map fun _ => view) (intDim dims 0) (intDim dims 1) (slicesOf dims)).bind
            fun mat => .value (some (mat, slicesOf dims))
        | _ => .value none

theorem readvar_double {s : MatioBackend α} {f : MatFile α} {varName name : StdString}
    {dims : List ℕ} {data : List α} (hopen : s.matFile = some f)
    (hread : f.read varName = some (.double name dims (some data))) :
    s.readvar varName =
      (mapData (some data) (intDim dims 0) (intDim dims 1) (slicesOf dims)).bind fun mat =>
        .value (some (mat, slicesOf dims)) := by
  simp only [readvar, hopen, hread, Matvar.noData, Option.isNone_some, Bool.false_eq_true,
    if_false]

def writeContainer (lib : Library α) (heap : Heap) (s : MatioBackend α) (name : StdString)
    (data : MatData α) : MatioBackend α × Bool :=
  match s.matFile with
  | none => (s, false)
  | some f =>
    let r := f.write lib (makeMatvar heap (cstr name) data)
    ({ s with matFile := some r.1 }, r.2)

def readContainer [Zero α] (s : MatioBackend α) (varName : StdString) (matdata : MatData α) :
    Exec (Bool × MatData α) :=
  match s.matFile with
  | none => .value (false, matdata)
  | some f =>
    match f.read varName with
    | none => .value (false, matdata)
    | some m => if m.noData then .value (false, matdata) else makeMatdata m matdata

/-- A call of the logger, which does not look at what it returns. -/
def perform (lib : Library α) (heap : Heap) (s : MatioBackend α) :
    BackendCall α → Option (MatioBackend α)
  | .write varName data rows cols slices => (s.write lib varName data rows cols slices).map (·.1)
  | .writeContainer name data => some (s.writeContainer lib heap name data).1

end MatioBackend
end XBot
