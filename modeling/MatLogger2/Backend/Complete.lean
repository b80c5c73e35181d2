import MatLogger2.Backend.Kept
import MatLogger2.Backend.Shape
import MatLogger2.Backend.Supported

/-! What a successful read leaves out: each node that it comes to is kept if it is whole, and
otherwise less is there than the node has. -/

namespace XBot

open Matio

variable {α : Type}

namespace MatioBackend

/-- The data that a file has for an array: null only if there are no elements. -/
def Stored : Matvar α → Prop
  | .double _ dims data => 2 ≤ dims.length ∧ (data = none ↔ dims.prod = 0) ∧
      (data.getD []).length = dims.prod
  | .complex _ dims view data => 2 ≤ dims.length ∧ view.length = 2 ∧
      (data = none ↔ dims.prod = 0) ∧ ∀ d ∈ data, d.1.length = dims.prod ∧ d.2.length = dims.prod
  | .char _ dims _ (.utf16 us) => (us.getD []).length = dims.prod
  | .char _ dims _ (.uint16 us) => (us.getD []).length = dims.prod
  | _ => True

/-- The decoder looks at all elements of a node. -/
def Whole : Matvar α → Prop
  | .double _ dims _ => dims.prod = 0 ∨ Shaped dims
  | .complex _ dims _ _ => dims.prod = 0
  | .char _ dims nbytes (.utf8 _ _) => nbytes ≤ dims.getD 1 0
  | .char _ dims _ (.utf16 us) =>
    dims.getD 1 0 = dims.prod ∧ Utf16.complete (us.getD []) = us.getD []
  | .char _ dims _ (.uint16 us) =>
    dims.getD 1 0 = dims.prod ∧ Utf16.complete (us.getD []) = us.getD []
  | .char _ _ _ (.unsupported _) => True
  | .cell _ dims _ => cellDim dims = dims.prod
  | .struct _ dims fieldnames _ =>
    fieldnames = [] ∨ dims.prod = 0 ∨ dims.prod = 1 ∧ fieldnames.length < 2 ^ 31
  | .unsupported _ => True

/-- The children that are visited are the first of the elements. -/
theorem children_prefix {m : Matvar α} (hm : Filled m) (hnull : none ∉ children m) :
    ∃ cs, cs <+: elements m ∧ children m = cs.map some := by
  refine ⟨(elements m).take (children m).length, List.take_prefix _ _, ?_⟩
  cases m with
  | cell name dims data =>
    have hdata := map_some_reduceOption hm.2
    rw [elements, List.map_take, hdata]
    refine List.ext_getElem ?_ fun i hi hi' => ?_
    · have hcounted := (null_child_iff hm).not_left.mp hnull
      rw [Counted] at hcounted
      rw [List.length_take, hm.1, children, List.length_map, List.length_range]
      omega
    · have hget : (children (.cell name dims data))[i] =
          Matvar.getCell dims (data.getD []) i := by
        simp only [children, List.getElem_map, List.getElem_range]
      have hlt : i < (data.getD []).length := (List.length_take_le' _ _).trans_lt' hi'
      rw [List.getElem_take, hget, Matvar.getCell, if_pos (by rw [← hm.1]; exact hlt),
        List.getElem?_eq_getElem hlt, Option.join_some]
  | struct name dims fieldnames data =>
    have hcounted := (null_child_iff hm).not_left.mp hnull
    obtain ⟨hnodup, hnul, hlen, hnone⟩ := hm
    have hdata := map_some_reduceOption hnone
    have hpre := Matvar.counted_initial fieldnames
    rw [elements, List.map_take, hdata]
    rw [Counted] at hcounted
    refine List.ext_getElem ?_ fun i hi hi' => ?_
    · rw [List.length_take, children, List.length_map, hlen]
      rcases hcounted with hnil | hprod
      · rw [hnil]
        simp
      · have := hpre.length_le.trans (Nat.le_mul_of_pos_left _ (Nat.pos_of_ne_zero hprod))
        omega
    · have hi'' : i < (Matvar.counted fieldnames).length := by
        rw [children, List.length_map] at hi
        exact hi
      have hget : (children (.struct name dims fieldnames data))[i] =
          Matvar.getStructFieldByName dims fieldnames (data.getD [])
            (Matvar.counted fieldnames)[i] 0 := by
        simp only [children, List.getElem_map]
      have hlt : i < (data.getD []).length := (List.length_take_le' _ _).trans_lt' hi'
      have hprod : dims.prod ≠ 0 := by
        intro h
        rw [hlen, h, Nat.zero_mul] at hlt
        omega
      have hidx := Matvar.fieldIndex_counted (hpre.sublist.nodup hnodup) hi''
        (hnul _ (hpre.subset (List.getElem_mem hi'')))
      rw [List.getElem_take, hget, Matvar.getStructFieldByName, hidx, Option.bind_some,
        if_pos (Nat.pos_of_ne_zero hprod), Nat.zero_mul, Nat.zero_add,
        List.getElem?_eq_getElem hlt, Option.join_some]
  | double => rfl
  | complex => rfl
  | char => rfl
  | unsupported => rfl

/-- The children are all elements of a node, if it is whole. -/
theorem length_children_iff {m : Matvar α} (hnode : Node m) (hm : Filled m)
    (hnull : none ∉ children m) (hsized : Sized m) :
    (children m).length ≤ (elements m).length ∧
      ((children m).length = (elements m).length ↔ Whole m) := by
  have hcounted := (null_child_iff hm).not_left.mp hnull
  rw [length_elements hm]
  cases m with
  | cell name dims data =>
    rw [Counted] at hcounted
    rw [Sized] at hsized
    rw [children, elementCount, Whole, List.length_map, List.length_range]
    omega
  | struct name dims fieldnames data =>
    rw [Counted] at hcounted
    have hle := (Matvar.counted_initial fieldnames).length_le
    have hint := Matvar.length_counted fieldnames
    rw [children, elementCount, Whole, List.length_map]
    rcases hcounted with hnil | hprod
    · rw [hnil, List.length_nil, eq_comm, Nat.mul_eq_zero, List.length_eq_zero_iff]
      refine ⟨Nat.zero_le _, fun h => ?_, fun h => ?_⟩
      · rcases h with h | h
        · exact .inr (.inl h)
        · exact .inl h
      · rcases h with h | h | ⟨-, h⟩
        · exact .inr h
        · exact .inl h
        · rw [Matvar.counted_eq h] at hnil
          exact .inr hnil
    · have hmul := Nat.le_mul_of_pos_left fieldnames.length (Nat.pos_of_ne_zero hprod)
      refine ⟨hle.trans hmul, fun h => ?_, fun h => ?_⟩
      · by_cases hnil : fieldnames = []
        · exact .inl hnil
        · have hpos := List.length_pos_iff.mpr hnil
          refine .inr (.inr ⟨?_, by omega⟩)
          have : dims.prod * fieldnames.length = 1 * fieldnames.length := by omega
          exact Nat.eq_of_mul_eq_mul_right hpos this
      · rcases h with h | h | ⟨hone, hlt⟩
        · subst h
          simp at hle
          simp [hle]
        · exact absurd h hprod
        · rw [Matvar.counted_eq hlt, hone, Nat.one_mul]
  | double => cases hnode
  | complex => cases hnode
  | char => cases hnode
  | unsupported => cases hnode

/-- The elements of a mapped array are the first that are stored. -/
theorem mapData_elements {data : Option (List α)} {rows cols slices : ℤ} {mat : Eigen.MatrixXd α}
    (h : mapData data rows cols slices = .value mat) :
    mat.data = (data.getD []).take (rows.toNat * (cols * slices).toNat) := by
  unfold mapData at h
  split_ifs at h with hneg
  split at h
  · rename_i m hm
    unfold Eigen.MatrixXd.map at hm
    split_ifs at hm
    cases hm
    cases h
    rfl
  · cases h

theorem mapData_data {data : Option (List α)} {dims : List ℕ} {mat : Eigen.MatrixXd α}
    (h : mapData data (intDim dims 0) (intDim dims 1) (slicesOf dims) = .value mat) :
    mat.data = (data.getD []).take (mappedSize dims) ∧ mat.data.length = mappedSize dims ∧
      mappedSize dims ≤ (data.getD []).length ∧ intDim dims 1 * slicesOf dims < 2 ^ 31 := by
  obtain ⟨-, -, hlt, hle⟩ := mapData_value_iff.mp ⟨mat, h⟩
  rw [← mappedSize] at hle
  have hmat := mapData_elements h
  rw [← mappedSize] at hmat
  refine ⟨hmat, ?_, hle, hlt⟩
  rw [hmat, List.length_take, Nat.min_eq_left hle]

/-- The first `n` units of a text are all of it, or less. -/
theorem kept_units {us : Option (List UInt16)} {n : ℕ} {t : StdString}
    (h : readUnits us n = .value t) :
    (Utf16.toWtf8 (us.getD [])).Subperm t ↔
      n = (us.getD []).length ∧ Utf16.complete (us.getD []) = us.getD [] := by
  obtain ⟨hle, hutf8⟩ := toUtf8_of_readUnits h
  have hpre : Utf16.complete ((us.getD []).take n) <+: us.getD [] :=
    (Utf16.complete_prefix _).trans (List.take_prefix _ _)
  obtain ⟨rest, hrest⟩ := hpre
  have happ := Utf16.toWtf8_append hutf8 rest
  rw [hrest] at happ
  constructor
  · intro hsub
    have hnil : rest = [] := by
      by_contra hne
      have hlen := hsub.length_le
      have hpos := List.length_pos_iff.mpr (Utf16.toWtf8_ne_nil hne)
      rw [happ, List.length_append] at hlen
      omega
    rw [hnil, List.append_nil] at hrest
    have hlen := (Utf16.complete_prefix ((us.getD []).take n)).length_le
    rw [hrest, List.length_take] at hlen
    have hn : n = (us.getD []).length := by omega
    rw [hn, List.take_length] at hrest
    exact ⟨hn, hrest⟩
  · rintro ⟨hn, hcomplete⟩
    rw [hn, List.take_length, hcomplete, List.append_right_eq_self] at hrest
    rw [happ, hrest, Utf16.toWtf8, List.append_nil]

theorem kept_double {name : StdString} {dims : List ℕ} {data : Option (List α)}
    (hm : Stored (.double name dims data)) {mat : Eigen.MatrixXd α}
    (h : mapData data (intDim dims 0) (intDim dims 1) (slicesOf dims) = .value mat) :
    Kept (.double name dims data) (.matrix mat) ↔ Whole (.double name dims data) := by
  obtain ⟨hrank, -, hlen⟩ := hm
  obtain ⟨hdata, hsize, hle, hlt⟩ := mapData_data h
  rw [hlen] at hle
  have hiff : mappedSize dims = dims.prod ↔ dims.prod = 0 ∨ Shaped dims := by
    by_cases hprod : dims.prod = 0
    · exact iff_of_true (by omega) (.inl hprod)
    · rw [mappedSize_eq_iff hrank hprod hlt]
      exact ⟨.inr, fun h => h.resolve_left hprod⟩
  rw [kept_double_iff, Whole, ← hiff]
  constructor
  · intro hsub
    have := hsub.length_le
    omega
  · intro hall
    rw [hdata, hall, ← hlen, List.take_length]

/-- Of a complex array with elements, no more numbers are looked at than there are real parts. -/
theorem kept_complex {name : StdString} {dims : List ℕ} {view : List α}
    {data : Option (List α × List α)} (hm : Stored (.complex name dims view data))
    {mat : Eigen.MatrixXd α}
    (h : mapData (data.map fun _ => view) (intDim dims 0) (intDim dims 1) (slicesOf dims) =
      .value mat) :
    Kept (.complex name dims view data) (.matrix mat) ↔ Whole (.complex name dims view data) := by
  obtain ⟨hrank, -, hnone, hparts⟩ := hm
  obtain ⟨-, hsize, -, -⟩ := mapData_data h
  rw [kept_complex_iff, Whole, ← hnone]
  cases data with
  | none => exact iff_of_true List.nil_subperm rfl
  | some data =>
    obtain ⟨hre, him⟩ := hparts data rfl
    have hprod : dims.prod ≠ 0 := fun h => by cases hnone.mpr h
    have hmapped := mappedSize_le hrank hprod
    refine iff_of_false (fun hsub => ?_) (Option.some_ne_none _)
    have hlen := hsub.length_le
    rw [Option.map_some, Option.getD_some, List.length_append, hre, him, hsize] at hlen
    omega

theorem kept_bytes {mem : ℕ → UInt8} {size n nbytes : ℕ} {t : StdString}
    (h : readBytes mem size n = .value t) :
    ((List.range nbytes).map mem).Subperm t ↔ nbytes ≤ n := by
  obtain rfl := readBytes_eq h
  constructor
  · intro hsub
    simpa using hsub.length_le
  · intro hle
    exact ((List.range_sublist.mpr hle).map mem).subperm

/-- A leaf is kept if the decoder looks at all of it. -/
theorem kept_leaf {m : Matvar α} (hleaf : Leaf m) (hm : Stored m) {matdata : MatData α}
    {r : Bool × MatData α} (h : makeScalarMatdata m matdata = .value r) (hok : r.1 = true) :
    Kept m r.2 ↔ Whole m := by
  cases m with
  | double name dims data =>
    obtain ⟨mat, hmap, h⟩ := Exec.bind_eq_value.mp h
    cases h
    exact kept_double hm hmap
  | complex name dims view data =>
    obtain ⟨mat, hmap, h⟩ := Exec.bind_eq_value.mp h
    cases h
    exact kept_complex hm hmap
  | char name dims nbytes text =>
    rw [makeScalarMatdata_char] at h
    by_cases hrow : dims.getD 0 0 = 1
    · rw [if_neg (not_not.mpr hrow)] at h
      cases text with
      | utf16 us =>
        obtain ⟨t, ht, h⟩ := Exec.bind_eq_value.mp h
        cases h
        rw [kept_char_iff, bytesOf, kept_units ht, Whole, hm]
      | uint16 us =>
        obtain ⟨t, ht, h⟩ := Exec.bind_eq_value.mp h
        cases h
        rw [kept_char_iff, bytesOf, kept_units ht, Whole, hm]
      | utf8 mem size =>
        obtain ⟨t, ht, h⟩ := Exec.bind_eq_value.mp h
        cases h
        rw [kept_char_iff, bytesOf, kept_bytes ht, Whole]
      | unsupported dataType =>
        cases h
        cases hok
    · rw [if_pos hrow] at h
      cases h
      cases hok
  | struct => cases hleaf
  | cell => cases hleaf
  | unsupported => cases hleaf

section Decoded

variable [Zero α]

/-- What is built of the first children is all of a node if there are no other elements, and if
each child is kept. -/
theorem kept_build_iff {m : Matvar α} (hnode : Node m) (hm : Filled m) (hnull : none ∉ children m)
    {ds : List (MatData α)} (hlen : ds.length = (children m).length) :
    Kept m (build m ds) ↔ List.Forall₂ Kept (elements m) ds := by
  have hcounted := (null_child_iff hm).not_left.mp hnull
  cases m with
  | cell name dims data => rw [build, kept_cell_iff]
  | struct name dims fieldnames data =>
    rw [Counted] at hcounted
    rw [children, List.length_map] at hlen
    have hpre := Matvar.counted_initial fieldnames
    have hnodup := hpre.sublist.nodup hm.1
    -- the fields that are looked at are those of the first element
    have hfirst : (fieldsOf dims fieldnames).take ds.length = Matvar.counted fieldnames := by
      rw [hlen]
      rcases hcounted with hnil | hprod
      · rw [hnil, List.length_nil, List.take_zero]
      · obtain ⟨k, hk⟩ := Nat.exists_eq_succ_of_ne_zero hprod
        rw [fieldsOf, hk, List.replicate_succ, List.flatten_cons, List.take_append_of_le_length
          hpre.length_le, ← List.prefix_iff_eq_take.mp hpre]
    have hall : ∀ {ds' : List (MatData α)}, ds'.length = ds.length →
        List.Forall₂ Kept (elements (.struct name dims fieldnames data)) ds' →
        fieldsOf dims fieldnames = Matvar.counted fieldnames := by
      intro ds' hlen' hkept
      rw [← hfirst, ← hlen', ← hkept.length_eq, length_elements hm, elementCount, ← length_fieldsOf,
        List.take_length]
    have hperm := MatData.struct_perm hnodup hlen.symm
    rw [build, kept_struct_iff]
    constructor
    · rintro ⟨ds', hperm', hkept⟩
      have hlen' : ds'.length = ds.length := by
        have heq := (hperm.symm.trans hperm').length_eq
        rw [List.length_zip, List.length_zip, length_fieldsOf, ← hkept.length_eq, length_elements hm,
          elementCount] at heq
        have heq' := hkept.length_eq
        rw [length_elements hm, elementCount] at heq'
        omega
      have hfields := hall hlen' hkept
      rw [hfields] at hperm'
      rw [eq_of_zip_perm hnodup hlen.symm (hlen.symm.trans hlen'.symm) (hperm.symm.trans hperm')]
      exact hkept
    · intro hkept
      refine ⟨ds, ?_, hkept⟩
      rw [hall rfl hkept]
      exact hperm
  | double => cases hnode
  | complex => cases hnode
  | char => cases hnode
  | unsupported => cases hnode

/-- So is every tree. -/
theorem kept_decoded {m : Matvar α} (hm : ∀ p, Visits m (some p) → Filled p ∧ Stored p)
    {matdata : MatData α} {r : Bool × MatData α} (h : makeMatdata m matdata = .value r)
    (hok : r.1 = true) : Kept m r.2 ↔ ∀ p, Visits m (some p) → Whole p := by
  induction m using visit_induction generalizing matdata r with
  | step m ih =>
    have hself := hm m (.self m)
    rw [forall_visits]
    by_cases hnode : Node m
    · obtain ⟨hsized, rs, hrs, hok', hd⟩ :=
        (node_value_iff hnode hself.1.distinct matdata).mp h
      obtain ⟨-, hall⟩ := hok'.mp hok
      have hreached := reached_of_value hself.1.distinct h
      have hnull : none ∉ children m := by
        intro hnone
        obtain ⟨r', hr'⟩ := decodeChild_of_value hself.1.distinct h hnone
        cases hr'
      obtain ⟨cs, hpre, hcs⟩ := children_prefix hself.1 hnull
      obtain ⟨-, hwhole⟩ := length_children_iff hnode hself.1 hnull hsized
      have hmem : ∀ c, some c ∈ children m ↔ c ∈ cs := by simp [hcs]
      -- each child is kept if what is visited below it is whole
      have hkids : List.Forall₂ (fun c d => Kept c d ↔ ∀ p, Visits c (some p) → Whole p) cs
          (rs.map (·.2)) := by
        rw [hcs, List.forall₂_map_left_iff] at hrs
        rw [List.forall₂_map_right_iff]
        refine List.forall₂_iff_get.mpr ⟨hrs.length_eq, fun i hi hi' => ?_⟩
        have hc := (hmem _).mpr (List.get_mem cs ⟨i, hi⟩)
        exact ih _ hc (fun p hp => hm p (.child (by rwa [hreached]) hp)) (hrs.get hi hi')
          (hall _ (List.getElem_mem hi'))
      have hlen : (rs.map (·.2)).length = (children m).length := by
        rw [List.length_map, ← hrs.length_eq]
      rw [hd, kept_build_iff hnode hself.1 hnull hlen, hreached, ← hwhole]
      simp only [hmem, ← Exec.forall₂_iff_forall hkids]
      constructor
      · intro hkept
        have heq : (children m).length = (elements m).length := by rw [← hlen, ← hkept.length_eq]
        rw [hcs, List.length_map] at heq
        rw [hcs, List.length_map, hpre.eq_of_length heq]
        exact ⟨rfl, hkept⟩
      · rintro ⟨heq, hkept⟩
        rw [hcs, List.length_map] at heq
        rwa [← hpre.eq_of_length heq]
    · rw [reached_leaf (children_leaf hnode)]
      simp only [List.not_mem_nil, false_imp_iff, implies_true, and_true]
      by_cases hleaf : Leaf m
      · rw [makeMatdata_leaf hleaf] at h
        exact kept_leaf hleaf hself.2 h hok
      · cases m with
        | unsupported =>
          rw [makeMatdata] at h
          cases h
          cases hok
        | cell => exact absurd trivial hnode
        | struct => exact absurd trivial hnode
        | _ => exact absurd trivial hleaf

end Decoded

/-! What `readvar` leaves out. -/

def dimsOf : Matvar α → List ℕ
  | .double _ dims _ => dims
  | .complex _ dims _ _ => dims
  | _ => []

/-- The real parts of the elements that are stored. -/
def realsOf : Matvar α → List α
  | .double _ _ data => data.getD []
  | .complex _ _ _ data => (data.map Prod.fst).getD []
  | _ => []

/-- All elements are looked at, and what is found there are their real parts. -/
def AllRead : Matvar α → Prop
  | .double _ dims _ => Shaped dims
  | .complex _ dims view data => Shaped dims ∧ view.take dims.prod = (data.map Prod.fst).getD []
  | _ => True

theorem slicesOf_eq {dims : List ℕ} (hrank : 2 ≤ dims.length) (h : Shaped dims) :
    slicesOf dims = (dims.drop 2).prod := by
  match dims, hrank with
  | [r, c], _ =>
    rw [slicesOf_matrix]
    simp
  | [r, c, s], _ =>
    rw [slicesOf_cube, toInt_natCast (h.1 s (by simp))]
    simp
  | r :: c :: s :: t :: rest, _ =>
    have hrest := h.2.resolve_left (by simp)
    rw [slicesOf_long, hrest]
    rfl

/-- The map of an array of elements is all of it if the array is shaped so. -/
theorem mapped_all_iff {data : Option (List α)} {dims : List ℕ} {mat : Eigen.MatrixXd α}
    (hrank : 2 ≤ dims.length) (hprod : dims.prod ≠ 0)
    (h : mapData data (intDim dims 0) (intDim dims 1) (slicesOf dims) = .value mat) (xs : List α) :
    (mat.data.length = dims.prod ∧ mat.data = xs ∧ slicesOf dims = (dims.drop 2).prod) ↔
      Shaped dims ∧ (data.getD []).take dims.prod = xs := by
  obtain ⟨hdata, hsize, -, hlt⟩ := mapData_data h
  have hiff := mappedSize_eq_iff hrank hprod hlt
  rw [hsize, hdata, hiff]
  constructor
  · rintro ⟨hshaped, hxs, -⟩
    rw [hiff.mpr hshaped] at hxs
    exact ⟨hshaped, hxs⟩
  · rintro ⟨hshaped, hxs⟩
    rw [hiff.mpr hshaped]
    exact ⟨hshaped, hxs, slicesOf_eq hrank hshaped⟩

theorem readvar_all_iff {s : MatioBackend α} {f : MatFile α} {varName : StdString} {m : Matvar α}
    (hopen : s.matFile = some f) (hread : f.read varName = some m) (hm : Stored m)
    {mat : Eigen.MatrixXd α} {slices : ℤ} (h : s.readvar varName = .value (some (mat, slices))) :
    (mat.data.length = (dimsOf m).prod ∧ mat.data = realsOf m ∧
      slices = ((dimsOf m).drop 2).prod) ↔ AllRead m := by
  unfold readvar at h
  simp only [hopen, hread] at h
  by_cases hno : m.noData = true
  · rw [if_pos hno] at h
    cases h
  rw [if_neg hno] at h
  cases m with
  | double name dims data =>
    obtain ⟨hrank, hnone, hlen⟩ := hm
    obtain ⟨mat', hmap, h⟩ := Exec.bind_eq_value.mp h
    obtain ⟨rfl, rfl⟩ := Prod.mk.inj (Option.some.inj (Exec.value.inj h))
    have hprod : dims.prod ≠ 0 := fun h => hno (Option.isNone_iff_eq_none.mpr (hnone.mpr h))
    rw [dimsOf, realsOf, AllRead, mapped_all_iff hrank hprod hmap, ← hlen, List.take_length]
    exact and_iff_left rfl
  | complex name dims view data =>
    obtain ⟨hrank, -, hnone, -⟩ := hm
    obtain ⟨mat', hmap, h⟩ := Exec.bind_eq_value.mp h
    obtain ⟨rfl, rfl⟩ := Prod.mk.inj (Option.some.inj (Exec.value.inj h))
    have hprod : dims.prod ≠ 0 := fun h => hno (Option.isNone_iff_eq_none.mpr (hnone.mpr h))
    rw [dimsOf, realsOf, AllRead, mapped_all_iff hrank hprod hmap]
    cases data with
    | none => exact absurd rfl hno
    | some data => rfl
  | _ => cases h

/-- What is read with success is complete if and only if each node is looked at as a
whole. -/
theorem complete_iff [Zero α] :
    (∀ (m : Matvar α) (matdata d : MatData α), (∀ p, Visits m (some p) → Filled p ∧ Stored p) →
      makeMatdata m matdata = .value (true, d) →
      (Kept m d ↔ ∀ p, Visits m (some p) → Whole p)) ∧
    ∀ (s : MatioBackend α) (f : MatFile α) (varName : StdString) (m : Matvar α)
      (mat : Eigen.MatrixXd α) (slices : ℤ), s.matFile = some f → f.read varName = some m →
      Stored m → s.readvar varName = .value (some (mat, slices)) →
      ((mat.data.length = (dimsOf m).prod ∧ mat.data = realsOf m ∧
        slices = ((dimsOf m).drop 2).prod) ↔ AllRead m) := by
  refine ⟨fun m matdata d hm h => ?_, fun s f varName m mat slices hopen hread hm h =>
    readvar_all_iff hopen hread hm h⟩
  exact kept_decoded hm h rfl

/-- A column of two numbers. -/
theorem complete_iff_column :
    let m : Matvar ℤ := .double [120] [2, 1] (some [5, 6])
    let s : MatioBackend ℤ := ⟨some ⟨[([120], m)], []⟩, true⟩
    let mat : Eigen.MatrixXd ℤ := ⟨2, 1, [5, 6], rfl⟩
    s.readvar [120] = .value (some (mat, slicesOf [2, 1])) ∧
      (Kept m (.matrix mat) ↔ ∀ p, Visits m (some p) → Whole p) ∧
      ((mat.data.length = (dimsOf m).prod ∧ mat.data = realsOf m ∧
        slicesOf [2, 1] = ((dimsOf m).drop 2).prod) ↔ AllRead m) := by
  intro m s mat
  have hstored : Stored m := ⟨le_rfl, by simp, rfl⟩
  have hmap : mapData (some mat.data) (toInt mat.rows) (toInt mat.cols) 1 = .value mat :=
    (mapData_eq_value mat).mpr ⟨by norm_num [mat], by norm_num [mat]⟩
  have hopen : s.matFile = some ⟨[([120], m)], []⟩ := rfl
  have hfound : MatFile.read ⟨[([120], m)], []⟩ [120] = some m := rfl
  have hread : s.readvar [120] = .value (some (mat, slicesOf [2, 1])) := by
    rw [readvar_double hopen hfound, intDim_zero, intDim_one,
      slicesOf_matrix]
    exact Exec.bind_eq_value.mpr ⟨mat, hmap, rfl⟩
  have hmake : makeMatdata m default = .value (true, .matrix mat) := by
    rw [makeMatdata_leaf (m := m) trivial, makeScalarMatdata, intDim_zero, intDim_one, slicesOf_matrix]
    exact Exec.bind_eq_value.mpr ⟨mat, hmap, rfl⟩
  refine ⟨hread, complete_iff.1 m default (.matrix mat) (fun p hp => ?_) hmake,
    complete_iff.2 s _ [120] m mat _ hopen hfound hstored hread⟩
  rw [visits_leaf rfl hp]
  exact ⟨trivial, hstored⟩

/-- Of an array of 1 x 1 x 1 x 2 elements, one is read. -/
theorem rank_four_incomplete :
    let m : Matvar ℤ := .double [120] [1, 1, 1, 2] (some [5, 6])
    let s : MatioBackend ℤ := ⟨some ⟨[([120], m)], []⟩, true⟩
    let mat : Eigen.MatrixXd ℤ := ⟨1, 1, [5], rfl⟩
    (∀ p, Visits m (some p) → Filled p ∧ Stored p) ∧
      makeMatdata m default = .value (true, .matrix mat) ∧
      s.readvar [120] = .value (some (mat, 1)) ∧
      ¬ Kept m (.matrix mat) ∧ ¬ (realsOf m).Subperm mat.data := by
  intro m s mat
  have hone : toInt (1 : ℕ) = 1 := toInt_natCast (by norm_num)
  have hmap : mapData (some [5, 6]) (toInt (1 : ℕ)) (toInt (1 : ℕ)) 1 = .value mat := by
    rw [hone]
    rfl
  have hopen : s.matFile = some ⟨[([120], m)], []⟩ := rfl
  have hfound : MatFile.read ⟨[([120], m)], []⟩ [120] = some m := rfl
  have hpart : ¬ (realsOf m).Subperm mat.data := by
    intro hsub
    simpa [mat, m, realsOf] using hsub.length_le
  refine ⟨fun p hp => ?_, ?_, ?_, mt kept_double_iff.mp hpart, hpart⟩
  · rw [visits_leaf rfl hp]
    exact ⟨trivial, by simp, by simp, rfl⟩
  · rw [makeMatdata_leaf (m := m) trivial, makeScalarMatdata, intDim_zero, intDim_one, slicesOf_long]
    exact Exec.bind_eq_value.mpr ⟨mat, hmap, rfl⟩
  · rw [readvar_double hopen hfound, intDim_zero, intDim_one,
      slicesOf_long]
    exact Exec.bind_eq_value.mpr ⟨mat, hmap, rfl⟩

end MatioBackend
end XBot
