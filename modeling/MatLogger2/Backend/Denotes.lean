import MatLogger2.Backend.Container

/-! What a variable of the file says: the value of which it has the structure, the sizes and the
elements, a text as units of 16 bits. -/

namespace XBot

open Matio

variable {α : Type}

namespace MatData

/-- The names of the fields are links. -/
def Linked : MatData α → Prop
  | .struct fields => ∀ f ∈ fields, IsLink f.1
  | _ => True

/-- The file can hold the value: ASCII text, and names of fields that are links, not more than an
`int` can count. -/
def Storable : MatData α → Prop
  | .text s => Ascii s
  | .struct fields => fields.length < 2 ^ 31 ∧ ∀ f ∈ fields, IsLink f.1
  | _ => True

end MatData

namespace MatioBackend

/-- A variable of the file denotes a value. -/
inductive Denotes : Matvar α → MatData α → Prop
  | text {name s : StdString} {nbytes : ℕ} {us : Option (List UInt16)} :
      Utf16.toUtf8 (us.getD []) = some s →
      Denotes (.char name [1, (us.getD []).length] nbytes (.uint16 us)) (.text s)
  | number {name : StdString} {x : α} : Denotes (.double name [1, 1] (some [x])) (.number x)
  | matrix {name : StdString} {data : Option (List α)} {mat : Eigen.MatrixXd α} :
      data.getD [] = mat.data → Denotes (.double name [mat.rows, mat.cols] data) (.matrix mat)
  | struct {name : StdString} {data : Option (List (Option (Matvar α)))} {ms : List (Matvar α)}
      {fields : List (StdString × MatData α)} :
      data.getD [] = ms.map some → List.Forall₂ Denotes ms (fields.map Prod.snd) →
      Denotes (.struct name [1, 1] (fields.map Prod.fst) data) (.struct fields)
  | cell {name : StdString} {data : Option (List (Option (Matvar α)))} {ms : List (Matvar α)}
      {elems : List (MatData α)} :
      data.getD [] = ms.map some → List.Forall₂ Denotes ms elems →
      Denotes (.cell name [elems.length, 1] data) (.cell elems)

theorem eq_of_denotes_number {m : Matvar α} {x : α} (h : Denotes m (.number x)) :
    ∃ name, m = .double name [1, 1] (some [x]) := by
  cases h
  exact ⟨_, rfl⟩

/-- What the file can hold is stored as it is. -/
theorem denotes_stored (heap : Heap) {d : MatData α} (hwf : MatData.Each MatData.WellFormed d)
    (hd : MatData.Each MatData.Storable d) (name : StdString) :
    ∃ m, (makeMatvar heap name d).stored = some m ∧ Denotes m d := by
  induction d generalizing name with
  | text s =>
    cases hd with
    | text hascii =>
      obtain ⟨us, hstored, hlen, -, hutf8, -⟩ := stored_units (α := α) heap name hascii
      refine ⟨_, hstored, ?_⟩
      rw [← hlen]
      exact .text hutf8
  | number x => exact ⟨_, stored_number heap name x, .number⟩
  | matrix mat => exact ⟨_, stored_matrix heap name mat, .matrix (data_stored_matrix mat)⟩
  | struct fields ih =>
    obtain ⟨hnode, hsub⟩ := MatData.each_struct.mp hwf
    obtain ⟨⟨hlt, -⟩, hfields⟩ := MatData.each_struct.mp hd
    choose! g hstored hback using fun f hf => ih f hf (hsub f hf) (hfields f hf) f.1
    have hdata : (if fields = [] then none else some (fields.map fun f => some (g f))).getD [] =
        (fields.map g).map some := by
      rw [List.map_map]
      split_ifs with hnil
      · rw [hnil]
        rfl
      · rfl
    refine ⟨_, stored_struct heap name hnode hlt hstored, .struct hdata ?_⟩
    rw [List.forall₂_map_left_iff, List.forall₂_map_right_iff, List.forall₂_same]
    exact hback
  | cell elems ih =>
    obtain ⟨-, hsub⟩ := MatData.each_cell.mp hwf
    obtain ⟨-, helems⟩ := MatData.each_cell.mp hd
    choose! g hstored hback using fun d hd => ih d hd (hsub d hd) (helems d hd) []
    refine ⟨_, stored_cell heap name hstored, .cell rfl ?_⟩
    rw [List.forall₂_map_left_iff, List.forall₂_same]
    exact hback

end MatioBackend
end XBot
