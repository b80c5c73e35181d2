import MatLogger2.Backend.Encode

/-! What the encoder makes of each kind of node. The loops that set fields and
cells one by one fill the whole struct or cell, since keys are distinct and no
index is too large for an `int`. -/

namespace XBot

open Matio

variable {α : Type}

namespace MatioBackend

variable (heap : Heap)

/-- One cell after the other is set. -/
theorem setCells_eq (name : StdString) (elems : List (Matvar α)) :
    setCells (Matvar.createCell name [elems.length, 1]) elems =
      .cell (cstr name) [elems.length, 1] (if elems = [] then none else some (elems.map some)) := by
  have hstep : ∀ (rest done : List (Matvar α)), done ++ rest = elems → elems ≠ [] →
      (rest.foldl (fun p elem => (p.1.setCell p.2 elem, p.2 + 1))
        (Matvar.cell (cstr name) [elems.length, 1]
          (some (done.map some ++ List.replicate rest.length none)), done.length)).1 =
        .cell (cstr name) [elems.length, 1] (some (elems.map some)) := by
    intro rest
    induction rest with
    | nil =>
      intro done hd _
      rw [List.append_nil] at hd
      simp [hd]
    | cons elem rest ih =>
      intro done hd hne
      have hlt : done.length < elems.length := by
        rw [← hd, List.length_append, List.length_cons]
        omega
      have hset : (done.map some ++ List.replicate (rest.length + 1) none).set done.length
          (some elem) = (done ++ [elem]).map some ++ List.replicate rest.length none := by
        rw [List.set_append_right _ _ (by simp), List.length_map, Nat.sub_self, List.replicate_succ,
          List.set_cons_zero]
        simp
      have := ih (done ++ [elem]) (by rw [List.append_assoc]; exact hd) hne
      rw [List.length_append, List.length_singleton] at this
      rw [List.foldl_cons, ← this]
      simp only [Matvar.setCell, List.prod_cons, List.prod_nil, mul_one, hlt, if_true,
        List.length_cons, hset]
  rw [setCells, Matvar.createCell]
  by_cases hne : elems = []
  · subst hne
    rfl
  · have hpos := List.length_pos_iff.mpr hne
    have := hstep elems [] rfl hne
    simp only [List.map_nil, List.nil_append, List.length_nil] at this
    rw [if_neg hne, ← this]
    simp only [List.prod_cons, List.prod_nil, mul_one, hpos, if_true]

theorem makeMatvar_cell (name : StdString) (elems : List (MatData α)) :
    makeMatvar heap name (.cell elems) =
      .cell (cstr name) [elems.length, 1]
        (if elems = [] then none else some (elems.map fun d => some (makeMatvar heap [] d))) := by
  have h := setCells_eq name (elems.map (makeMatvar heap []))
  rw [List.length_map] at h
  rw [makeMatvar, makeElems_eq, h, List.map_map]
  simp only [List.map_eq_nil_iff]
  rfl

/-- One field after the other is set. -/
theorem setFields_eq (name : StdString) (fields : List (StdString × Matvar α))
    (hlt : fields.length < 2 ^ 31) (hnodup : (fields.map Prod.fst).Nodup)
    (hnul : ∀ f ∈ fields, (0 : UInt8) ∉ f.1) (hname : ∀ f ∈ fields, f.2.nameOf = f.1) :
    setFields (.struct name [1, 1] (fields.map Prod.fst)
        (some (List.replicate fields.length none))) fields =
      .struct name [1, 1] (fields.map Prod.fst) (some (fields.map fun f => some f.2)) := by
  have hstep : ∀ (rest done : List (StdString × Matvar α)), done ++ rest = fields →
      setFields (.struct name [1, 1] (fields.map Prod.fst)
        (some (done.map (fun f => some f.2) ++ List.replicate rest.length none))) rest =
      .struct name [1, 1] (fields.map Prod.fst) (some (fields.map fun f => some f.2)) := by
    intro rest
    induction rest with
    | nil =>
      intro done hd
      rw [List.append_nil] at hd
      simp [setFields, hd]
    | cons f rest ih =>
      intro done hd
      have hmem : f ∈ fields := by simp [← hd]
      have hi : done.length < (fields.map Prod.fst).length := by
        rw [List.length_map, ← hd, List.length_append, List.length_cons]
        omega
      have hget : (fields.map Prod.fst)[done.length] = f.1 := by simp [← hd]
      have hidx := Matvar.fieldIndex_getElem (by rwa [List.length_map]) hnodup hi
        (by rw [hget]; exact hnul f hmem)
      rw [hget] at hidx
      have hkey := cstr_of_notMem (hnul f hmem)
      have hfield : f.2.setName f.1 = f.2 := by rw [← hname f hmem, Matvar.setName_nameOf]
      have hset : (done.map (fun f : StdString × Matvar α => some f.2) ++
          List.replicate (rest.length + 1) none).set done.length (some f.2) =
          (done ++ [f]).map (fun f => some f.2) ++ List.replicate rest.length none := by
        rw [List.set_append_right _ _ (by simp), List.length_map, Nat.sub_self, List.replicate_succ,
          List.set_cons_zero]
        simp
      have := ih (done ++ [f]) (by rw [List.append_assoc]; exact hd)
      rw [setFields] at this ⊢
      rw [List.foldl_cons, ← this]
      simp only [Matvar.setStructFieldByName, hkey, hidx, List.prod_cons, List.prod_nil, mul_one,
        Nat.zero_mul, Nat.zero_add, Nat.lt_one_iff, if_true, hfield, List.length_cons, hset]
  exact hstep fields [] rfl

theorem makeMatvar_struct (name : StdString) {fields : List (StdString × MatData α)}
    (hwf : MatData.WellFormed (.struct fields)) (hlt : fields.length < 2 ^ 31) :
    makeMatvar heap name (.struct fields) =
      .struct (cstr name) [1, 1] (fields.map Prod.fst) (if fields = [] then none
        else some (fields.map fun f => some (makeMatvar heap f.1 f.2))) := by
  have hkey : ∀ f ∈ fields, cstr f.1 = f.1 := fun f hf => cstr_of_notMem (hwf.2 f hf)
  have hkeys : fields.map (fun f => cstr f.1) = fields.map Prod.fst := List.map_congr_left hkey
  have hkeys' : (fields.map Prod.fst).map cstr = fields.map Prod.fst := by
    rw [List.map_map]
    exact List.map_congr_left hkey
  have hcount : fields.length % 2 ^ 32 = fields.length := Nat.mod_eq_of_lt (by omega)
  have htake : (fields.map Prod.fst).take fields.length = fields.map Prod.fst :=
    List.take_of_length_le (by rw [List.length_map])
  rw [makeMatvar, makeFields_eq, Matvar.createStruct, hkeys, List.length_map, hcount, htake, hkeys']
  by_cases hne : fields = []
  · subst hne
    rfl
  have hpos := List.length_pos_iff.mpr hne
  have hset := setFields_eq (cstr name)
    (fields.map fun f => (f.1, makeMatvar heap f.1 f.2)) (by rwa [List.length_map])
    (by rw [List.map_map]; exact hwf.1.nodup) (List.forall_mem_map.mpr hwf.2)
    (by
      simp only [List.forall_mem_map]
      intro f hf
      rw [nameOf_makeMatvar, hkey f hf])
  rw [List.length_map, List.map_map, List.map_map] at hset
  rw [if_neg hne]
  simp only [List.length_map, hpos, List.prod_cons, List.prod_nil, mul_one, one_mul, Nat.one_pos,
    and_self, if_true]
  exact hset

end MatioBackend
end XBot
