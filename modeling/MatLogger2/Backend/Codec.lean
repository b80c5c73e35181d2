import MatLogger2.Backend.Encoded
import MatLogger2.Backend.Decoded

/-! A tree, made into a variable of the library and read back from it, with no file
in between. The encoder keeps sizes as they are, the decoder takes the dimensions
of a matrix and the number of fields as an `int`. -/

namespace XBot

open Matio

variable {α : Type}

namespace MatioBackend

/-- The children have all been decoded as wanted, if they are what comes back. -/
theorem decoded_children {β δ : Type} (decode : β → Exec (Bool × MatData α)) (encode : δ → β)
    (want : δ → MatData α) (ds : List δ) :
    (∃ rs, List.Forall₂ (fun m r => decode m = .value r) (ds.map encode) rs ∧
      rs.all (·.1) = true ∧ rs.map (·.2) = ds.map want) ↔
      ∀ d ∈ ds, decode (encode d) = .value (true, want d) := by
  constructor
  · rintro ⟨rs, hrs, hok, hsnd⟩
    have heq : rs = ds.map fun d => (true, want d) := by
      have hfst : rs.map Prod.fst = ds.map fun _ => true := by
        have hlen : rs.length = ds.length := by
          simpa using congrArg List.length hsnd
        rw [List.map_const', List.eq_replicate_iff, List.length_map]
        refine ⟨hlen, fun b hb => ?_⟩
        obtain ⟨r, hr, rfl⟩ := List.mem_map.mp hb
        exact List.all_eq_true.mp hok r hr
      rw [← List.zip_unzip rs, List.unzip_eq_map, hfst, hsnd, List.zip_map']
    rw [heq, List.forall₂_map_left_iff, List.forall₂_map_right_iff, List.forall₂_same] at hrs
    exact hrs
  · intro h
    refine ⟨ds.map fun d => (true, want d), ?_, by simp, by simp⟩
    rw [List.forall₂_map_left_iff, List.forall₂_map_right_iff, List.forall₂_same]
    exact h

theorem zip_keys {β γ κ : Type} {fields : List (κ × β)} {ys : List γ} {g : κ × β → γ}
    (hlen : ys.length = fields.length) :
    (fields.map Prod.fst).zip ys = fields.map (fun f => (f.1, g f)) ↔ ys = fields.map g := by
  constructor
  · intro h
    have hsnd := congrArg (List.map Prod.snd) h
    rw [List.map_snd_zip (by simp [hlen]), List.map_map] at hsnd
    exact hsnd
  · rintro rfl
    exact List.zip_map'

section

variable [Zero α]

theorem makeMatdata_matrix (name : StdString) (mat : Eigen.MatrixXd α) (matdata : MatData α) :
    makeMatdata (createMatrix name mat) matdata = .value (true, .matrix mat) ↔
      mat.rows < 2 ^ 31 ∧ mat.cols < 2 ^ 31 := by
  rw [createMatrix, Matvar.createDouble, makeMatdata, makeScalarMatdata, intDim_zero, intDim_one,
    slicesOf_matrix, Exec.bind_eq_value, ← mapData_eq_value mat]
  constructor
  · rintro ⟨m, hm, h⟩
    injection h with h
    injection h with _ h
    injection h with h
    rw [hm, h]
  · intro h
    exact ⟨mat, h, rfl⟩

theorem makeMatdata_number (name : StdString) (x : α) (matdata : MatData α) :
    makeMatdata (createNumber name x) matdata = .value (true, .matrix ⟨1, 1, [x], rfl⟩) :=
  (makeMatdata_matrix name ⟨1, 1, [x], rfl⟩ matdata).mpr ⟨by norm_num, by norm_num⟩

/-- A struct is decoded as wanted, if its fields are. -/
theorem decode_fields_iff {fields : List (StdString × MatData α)}
    (hwf : MatData.WellFormed (.struct fields)) (hlt : fields.length < 2 ^ 31)
    (encode : StdString × MatData α → Matvar α) (want : StdString × MatData α → MatData α)
    (name : StdString) (matdata : MatData α) :
    makeMatdata (.struct name [1, 1] (fields.map Prod.fst)
        (if fields = [] then none else some (fields.map fun f => some (encode f)))) matdata =
      .value (true, .struct (fields.map fun f => (f.1, want f))) ↔
      ∀ f ∈ fields, makeMatdata (encode f) default = .value (true, want f) := by
  have hdata : (if fields = [] then none
      else some (fields.map fun f => some (encode f))).getD [] =
      (fields.map fun f => (f.1, encode f)).map fun f => some f.2 := by
    rw [List.map_map]
    split_ifs with hnil
    · rw [hnil]
      rfl
    · rfl
  have hkeys : fields.map Prod.fst = (fields.map fun f => (f.1, encode f)).map Prod.fst := by
    rw [List.map_map]
    rfl
  rw [hkeys, decode_struct (by rwa [List.length_map]) (by rw [← hkeys]; exact hwf.1)
    (List.forall_mem_map.mpr hwf.2) name hdata matdata]
  refine Iff.trans ?_ (decoded_children (fun f : StdString × Matvar α => makeMatdata f.2 default)
    (fun f => (f.1, encode f)) want fields)
  refine exists_congr fun rs => and_congr_right fun hrs => ?_
  have hlen : (rs.map Prod.snd).length = fields.length := by
    rw [List.length_map, ← hrs.length_eq, List.length_map]
  rw [← hkeys, Prod.mk.injEq, eq_comm (a := true), MatData.struct.injEq,
    eq_comm (b := List.zip _ _), zip_keys hlen]

/-- A cell is decoded as wanted, if its elements are. -/
theorem decode_elems_iff {elems : List (MatData α)} (hlt : elems.length < 2 ^ 31)
    (encode : MatData α → Matvar α) (want : MatData α → MatData α) (name : StdString)
    {data : Option (List (Option (Matvar α)))}
    (hdata : data.getD [] = (elems.map encode).map some) (matdata : MatData α) :
    makeMatdata (.cell name [elems.length, 1] data) matdata =
      .value (true, .cell (elems.map want)) ↔
      ∀ d ∈ elems, makeMatdata (encode d) default = .value (true, want d) := by
  have hdecode := decode_cell (by rwa [List.length_map]) name hdata matdata
    (r := (true, .cell (elems.map want)))
  rw [List.length_map] at hdecode
  rw [hdecode]
  refine Iff.trans ?_ (decoded_children (fun m => makeMatdata m default) encode want elems)
  refine exists_congr fun rs => and_congr_right fun _ => ?_
  rw [Prod.mk.injEq, eq_comm (a := true), MatData.cell.injEq, eq_comm (b := List.map _ rs)]

end

end MatioBackend
end XBot
