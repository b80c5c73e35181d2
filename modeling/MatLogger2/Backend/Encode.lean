import MatLogger2.Matio.Matvar
import MatLogger2.MatData

/-! From a tree of the logger to a variable of the MAT-file library. -/

namespace XBot

open Matio

variable {α : Type}

/-- The memory from a string's first byte on: its own bytes, a NUL, and whatever
follows. -/
structure Heap where
  bytes : StdString → ℕ → UInt8
  own : ∀ s i (h : i < s.length), bytes s i = s[i]
  nul : ∀ s, bytes s s.length = 0

/-- A heap with zeros after every string. -/
def Heap.zeros : Heap where
  bytes s i := s.getD i 0
  own s i h := by simp [h]
  nul s := by simp

namespace MatioBackend

/-- The visitor's call for a matrix. -/
def createMatrix (name : StdString) (mat : Eigen.MatrixXd α) : Matvar α :=
  Matvar.createDouble name [mat.rows, mat.cols] mat.data

/-- The visitor's call for a string: as many characters as the string has bytes. Its own are these
and the NUL. -/
def createText (heap : Heap) (name text : StdString) : Matvar α :=
  Matvar.createText name [1, text.length] (heap.bytes text) (text.length + 1)

/-- The visitor's call for a number. -/
def createNumber (name : StdString) (value : α) : Matvar α :=
  Matvar.createDouble name [1, 1] [value]

/-- The loop that sets the fields, whose names are in the struct already. -/
def setFields (matStruct : Matvar α) (fields : List (StdString × Matvar α)) : Matvar α :=
  fields.foldl (fun m f => m.setStructFieldByName (cstr f.1) 0 f.2) matStruct

/-- The loop that sets the cells, not more than an `int` can count. -/
def setCells (outercell : Matvar α) (elems : List (Matvar α)) : Matvar α :=
  (elems.foldl (fun p elem => (p.1.setCell p.2 elem, p.2 + 1)) (outercell, 0)).1

mutual

def makeMatvar (heap : Heap) (name : StdString) : MatData α → Matvar α
  | .text s => createText heap name s
  | .number x => createNumber name x
  | .matrix m => createMatrix name m
  | .struct fields =>
    setFields (Matvar.createStruct name [1, 1] (fields.map fun f => cstr f.1))
      (makeFields heap fields)
  | .cell elems => setCells (Matvar.createCell name [elems.length, 1]) (makeElems heap elems)

def makeFields (heap : Heap) : List (StdString × MatData α) → List (StdString × Matvar α)
  | [] => []
  | (key, d) :: fields => (key, makeMatvar heap key d) :: makeFields heap fields

def makeElems (heap : Heap) : List (MatData α) → List (Matvar α)
  | [] => []
  | d :: elems => makeMatvar heap [] d :: makeElems heap elems

end

theorem makeFields_eq (heap : Heap) (fields : List (StdString × MatData α)) :
    makeFields heap fields = fields.map fun f => (f.1, makeMatvar heap f.1 f.2) := by
  induction fields with
  | nil => rw [makeFields, List.map_nil]
  | cons f fields ih =>
    obtain ⟨key, d⟩ := f
    rw [makeFields, ih, List.map_cons]

theorem makeElems_eq (heap : Heap) (elems : List (MatData α)) :
    makeElems heap elems = elems.map (makeMatvar heap []) := by
  induction elems with
  | nil => rw [makeElems, List.map_nil]
  | cons d elems ih => rw [makeElems, ih, List.map_cons]

theorem nameOf_makeMatvar (heap : Heap) (name : StdString) (d : MatData α) :
    (makeMatvar heap name d).nameOf = cstr name := by
  cases d with
  | text s => rw [makeMatvar]; rfl
  | number x => rw [makeMatvar]; rfl
  | matrix m => rw [makeMatvar]; rfl
  | struct fields =>
    rw [makeMatvar, setFields]
    refine List.foldlRecOn (motive := fun m : Matvar α => m.nameOf = cstr name) _ _ rfl ?_
    intro m hm f _
    rw [Matvar.nameOf_setStructField, hm]
  | cell elems =>
    rw [makeMatvar, setCells]
    refine List.foldlRecOn (motive := fun p : Matvar α × ℕ => p.1.nameOf = cstr name) _ _
      (b := (Matvar.createCell name [elems.length, 1], 0)) rfl ?_
    intro p hp elem _
    rw [Matvar.nameOf_setCell, hp]

end MatioBackend
end XBot
