import MatLogger2.Backend.Model
import MatLogger2.Backend.Text

/-! A tree, written to a file and read back from it. In the file a text consists of
units of 16 bits, an empty array has no data, and a cell always has. -/

namespace XBot

open Matio

variable {α : Type}

namespace MatData

/-- ASCII text, and keys that are no paths of the file. -/
def Plain : MatData α → Prop
  | .text s => Ascii s
  | .struct fields => ∀ f ∈ fields, (47 : UInt8) ∉ f.1
  | _ => True

/-- A text, a matrix or a struct without elements. -/
def hollow : MatData α → Bool
  | .text s => s.isEmpty
  | .matrix m => m.size = 0
  | .struct fields => fields.isEmpty
  | _ => false

end MatData

namespace MatioBackend

theorem storedAll_some {ms ms' : List (Matvar α)}
    (h : List.Forall₂ (fun m m' => m.stored = some m') ms ms') :
    Matvar.storedAll (ms.map some) = some (ms'.map some) := by
  induction h with
  | nil => rfl
  | cons hm _ ih => rw [List.map_cons, Matvar.storedAll, hm, ih, Option.bind_some, Option.map_some,
      List.map_cons]

section

variable (heap : Heap)

theorem storedAll_fields {fields : List (StdString × MatData α)} {g : StdString × MatData α → Matvar α}
    (h : ∀ f ∈ fields, (makeMatvar heap f.1 f.2).stored = some (g f)) :
    Matvar.storedAll (fields.map fun f => some (makeMatvar heap f.1 f.2)) =
      some (fields.map fun f => some (g f)) := by
  have hfields : List.Forall₂ (fun m m' => m.stored = some m')
      (fields.map fun f => makeMatvar heap f.1 f.2) (fields.map g) := by
    rw [List.forall₂_map_left_iff, List.forall₂_map_right_iff, List.forall₂_same]
    exact h
  have hall := storedAll_some hfields
  rw [List.map_map, List.map_map] at hall
  exact hall

theorem storedAll_elems {elems : List (MatData α)} {g : MatData α → Matvar α}
    (h : ∀ d ∈ elems, (makeMatvar heap [] d).stored = some (g d)) :
    Matvar.storedAll (elems.map fun d => some (makeMatvar heap [] d)) =
      some ((elems.map g).map some) := by
  have helems : List.Forall₂ (fun m m' => m.stored = some m')
      (elems.map (makeMatvar heap [])) (elems.map g) := by
    rw [List.forall₂_map_left_iff, List.forall₂_map_right_iff, List.forall₂_same]
    exact h
  have hall := storedAll_some helems
  rw [List.map_map] at hall
  exact hall

/-! What the nodes of a tree are in the file. -/

theorem stored_number (name : StdString) (x : α) :
    (makeMatvar heap name (.number x)).stored = some (.double (cstr name) [1, 1] (some [x])) := by
  rw [makeMatvar, createNumber, Matvar.createDouble, Matvar.stored]
  rfl

theorem stored_matrix (name : StdString) (mat : Eigen.MatrixXd α) :
    (makeMatvar heap name (.matrix mat)).stored =
      some (.double (cstr name) [mat.rows, mat.cols]
        (if [mat.rows, mat.cols].prod = 0 then none else some mat.data)) := by
  rw [makeMatvar, createMatrix, Matvar.createDouble, Matvar.stored]

theorem data_stored_matrix (mat : Eigen.MatrixXd α) :
    (if [mat.rows, mat.cols].prod = 0 then none else some mat.data).getD [] = mat.data := by
  split_ifs with hzero
  · rw [List.prod_pair, ← mat.length_data] at hzero
    rw [List.length_eq_zero_iff.mp hzero]
    rfl
  · rfl

theorem stored_struct (name : StdString) {fields : List (StdString × MatData α)}
    (hwf : MatData.WellFormed (.struct fields)) (hlt : fields.length < 2 ^ 31)
    {g : StdString × MatData α → Matvar α}
    (h : ∀ f ∈ fields, (makeMatvar heap f.1 f.2).stored = some (g f)) :
    (makeMatvar heap name (.struct fields)).stored =
      some (.struct (cstr name) [1, 1] (fields.map Prod.fst)
        (if fields = [] then none else some (fields.map fun f => some (g f)))) := by
  rw [makeMatvar_struct heap name hwf hlt]
  split_ifs with hnil
  · rw [Matvar.stored]
  · rw [Matvar.stored, storedAll_fields heap h, Option.map_some]

theorem stored_cell (name : StdString) {elems : List (MatData α)} {g : MatData α → Matvar α}
    (h : ∀ d ∈ elems, (makeMatvar heap [] d).stored = some (g d)) :
    (makeMatvar heap name (.cell elems)).stored =
      some (.cell (cstr name) [elems.length, 1] (some ((elems.map g).map some))) := by
  rw [makeMatvar_cell]
  split_ifs with hnil
  · rw [Matvar.stored, hnil]
    rfl
  · rw [Matvar.stored, storedAll_elems heap h, Option.map_some]

variable [Zero α]

theorem makeMatdata_stored_matrix (name : StdString) {mat : Eigen.MatrixXd α}
    (hrows : mat.rows < 2 ^ 31) (hcols : mat.cols < 2 ^ 31) (data : Option (List α))
    (hdata : data.getD [] = mat.data) (matdata : MatData α) :
    makeMatdata (.double name [mat.rows, mat.cols] data) matdata = .value (true, .matrix mat) := by
  have h := (makeMatdata_matrix name mat matdata).mpr ⟨hrows, hcols⟩
  rw [createMatrix, Matvar.createDouble, makeMatdata, makeScalarMatdata] at h
  rw [makeMatdata, makeScalarMatdata]
  unfold mapData at h ⊢
  rw [Option.getD_some] at h
  rw [hdata]
  exact h

/-- What is in the file is decoded as the tree; it has data, if the tree is not hollow. -/
theorem decode_stored {d : MatData α} (hwf : MatData.Each MatData.WellFormed d)
    (hplain : MatData.Each MatData.Plain d) (hfit : MatData.Each MatData.FitsInt d)
    (name : StdString) :
    ∃ m, (makeMatvar heap name d).stored = some m ∧
      (∀ matdata, makeMatdata m matdata = .value (true, d.norm)) ∧ m.noData = d.hollow := by
  induction d generalizing name with
  | text s =>
    cases hplain with
    | text hascii =>
      obtain ⟨m, hm, hback, hnil⟩ := stored_ascii (α := α) heap name hascii
      refine ⟨m, hm, hback, ?_⟩
      rw [Bool.eq_iff_iff, hnil, MatData.hollow, List.isEmpty_iff]
  | number x =>
    refine ⟨_, stored_number heap name x, fun matdata => ?_, rfl⟩
    rw [MatData.norm]
    exact makeMatdata_number name x matdata
  | matrix mat =>
    cases hfit with
    | matrix hsize =>
      refine ⟨_, stored_matrix heap name mat, fun matdata => ?_, ?_⟩
      · rw [MatData.norm]
        exact makeMatdata_stored_matrix _ hsize.1 hsize.2 _ (data_stored_matrix mat) matdata
      · rw [MatData.hollow, Matvar.noData, List.prod_pair, Eigen.MatrixXd.size]
        split_ifs with hzero <;> simp [hzero]
  | struct fields ih =>
    obtain ⟨hnode, hsub⟩ := MatData.each_struct.mp hwf
    obtain ⟨-, hplain⟩ := MatData.each_struct.mp hplain
    obtain ⟨hlt, hfit⟩ := MatData.each_struct.mp hfit
    choose! g hstored hback _ using
      fun f hf => ih f hf (hsub f hf) (hplain f hf) (hfit f hf) f.1
    refine ⟨_, stored_struct heap name hnode hlt hstored, fun matdata => ?_, ?_⟩
    · rw [MatData.norm, MatData.normFields_eq, decode_fields_iff hnode hlt]
      exact fun f hf => hback f hf default
    · rw [MatData.hollow, Matvar.noData]
      split_ifs with hnil
      · rw [hnil]
        rfl
      · rw [List.isEmpty_eq_false_iff.mpr hnil]
        rfl
  | cell elems ih =>
    obtain ⟨hlt, hsub⟩ := MatData.each_cell.mp hwf
    obtain ⟨-, hplain⟩ := MatData.each_cell.mp hplain
    obtain ⟨-, hfit⟩ := MatData.each_cell.mp hfit
    choose! g hstored hback _ using
      fun d hd => ih d hd (hsub d hd) (hplain d hd) (hfit d hd) []
    refine ⟨_, stored_cell heap name hstored, fun matdata => ?_, rfl⟩
    rw [MatData.norm, MatData.normElems_eq, decode_elems_iff hlt g _ _ rfl]
    exact fun d hd => hback d hd default

/-- A tree saved under a new name comes back, numbers as matrices, unless it is a
text, a matrix or a struct without elements: that is refused. -/
theorem container_round_trip (lib : Library α) {s s' : MatioBackend α} {f : MatFile α}
    {name : StdString} {d : MatData α} (hopen : s.matFile = some f)
    (hnew : f.find (cstr name) = none) (hwf : MatData.Each MatData.WellFormed d)
    (hplain : MatData.Each MatData.Plain d) (hfit : MatData.Each MatData.FitsInt d)
    (hwrite : s.writeContainer lib heap name d = (s', true)) (out : MatData α) :
    s'.readContainer name out = .value (if d.hollow then (false, out) else (true, d.norm)) := by
  obtain ⟨m, hm, hback, hhollow⟩ := decode_stored heap hwf hplain hfit (cstr name)
  have hname : (makeMatvar heap (cstr name) d).nameOf = cstr name := by
    rw [nameOf_makeMatvar, cstr_cstr]
  have hput := MatFile.write_new lib (by rw [hname]; exact hnew) hm
  rw [hname] at hput
  rw [writeContainer, hopen] at hwrite
  have hs' : s'.matFile = some (f.put (cstr name) m false) := by
    simp only [Prod.mk.injEq] at hwrite
    rw [← hwrite.1, hput]
  have hread : (f.put (cstr name) m false).read name = some m := by
    rw [MatFile.read, MatFile.find_put, if_pos rfl]
  rw [readContainer, hs']
  simp only [hread, hhollow]
  cases d.hollow with
  | true => rfl
  | false => exact hback out

theorem container_round_trip_cell :
    let d : MatData ℤ := .cell [.number 5, .text [], .cell []]
    let r := (init : MatioBackend ℤ).writeContainer .strict .zeros [120] d
    r.2 = true ∧ r.1.readContainer [120] default = .value (true, d.norm) := by
  intro d r
  have hwrite : r.2 = true := rfl
  refine ⟨hwrite, ?_⟩
  refine container_round_trip (s := init) .zeros .strict rfl rfl ?_ ?_ ?_ (Prod.ext rfl hwrite) default
  · refine .cell (by simp [MatData.WellFormed]) ?_
    simp only [List.mem_cons, List.not_mem_nil, or_false, forall_eq_or_imp, forall_eq]
    exact ⟨.number trivial, .text trivial, .cell (by simp [MatData.WellFormed]) (by simp)⟩
  · refine .cell trivial ?_
    simp only [List.mem_cons, List.not_mem_nil, or_false, forall_eq_or_imp, forall_eq]
    exact ⟨.number trivial, .text (by simp [MatData.Plain, Ascii]), .cell trivial (by simp)⟩
  · refine .cell trivial ?_
    simp only [List.mem_cons, List.not_mem_nil, or_false, forall_eq_or_imp, forall_eq]
    exact ⟨.number trivial, .text trivial, .cell trivial (by simp)⟩

/-- A text without characters is saved, but reading it is refused. -/
theorem empty_text_refused :
    let r := (init : MatioBackend ℤ).writeContainer .strict .zeros [120] (.text [])
    r.2 = true ∧ r.1.readContainer [120] (.text [65]) = .value (false, .text [65]) ∧
      r.1.readContainer [120] (.text [65]) ≠ .value (true, (MatData.text []).norm) := by
  intro r
  have hread : r.1.readContainer [120] (.text [65]) = .value (false, .text [65]) := rfl
  refine ⟨rfl, hread, ?_⟩
  rw [hread]
  intro h
  injection h with h
  cases h

end

end MatioBackend
end XBot
