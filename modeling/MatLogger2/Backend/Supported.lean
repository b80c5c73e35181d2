import MatLogger2.Backend.NullChild

/-! What the decoder returns: true, if each node that it comes to is of a kind that
it knows. An unknown node does not keep the others from being decoded. -/

namespace XBot

open Matio

variable {α : Type}

/-- A way down a tree. -/
inductive Turn
  | index (i : ℕ)
  | field (key : StdString)

/-- The tree at a place in a tree. -/
def MatData.at? : MatData α → List Turn → Option (MatData α)
  | d, [] => some d
  | .cell elems, .index i :: path => elems[i]?.bind fun d => d.at? path
  | .struct fields, .field key :: path => (fields.lookup key).bind fun d => d.at? path
  | _, _ => none

namespace MatioBackend

/-- The text of an array in UTF-16 is well formed. -/
def TextFormed : Matvar α → Prop
  | .char _ _ _ (.utf16 us) => (Utf16.toUtf8 (us.getD [])).isSome
  | .char _ _ _ (.uint16 us) => (Utf16.toUtf8 (us.getD [])).isSome
  | _ => True

/-- The decoder comes to a node along a path. -/
inductive At : Matvar α → List Turn → Matvar α → Prop
  | here (m : Matvar α) : At m [] m
  | cell {name : StdString} {dims : List ℕ} {data : Option (List (Option (Matvar α)))} {i : ℕ}
      {c p : Matvar α} {path : List Turn} :
      (children (.cell name dims data))[i]? = some (some c) → At c path p →
      At (.cell name dims data) (.index i :: path) p
  | field {name : StdString} {dims : List ℕ} {fieldnames : List StdString}
      {data : Option (List (Option (Matvar α)))} {key : StdString} {c p : Matvar α}
      {path : List Turn} :
      key ∈ Matvar.counted fieldnames →
      Matvar.getStructFieldByName dims fieldnames (data.getD []) key 0 = some c → At c path p →
      At (.struct name dims fieldnames data) (.field key :: path) p

/-- There is a path to each node that the decoder comes to. -/
theorem exists_at [Zero α] {m p : Matvar α} (h : Visits m (some p)) : ∃ path, At m path p := by
  generalize hx : some p = x at h
  induction h with
  | self m => exact ⟨[], Option.some.inj hx ▸ .here _⟩
  | null => cases hx
  | @child m c _ hmem _ ih =>
    obtain ⟨path, hpath⟩ := ih hx
    have hmem := mem_children hmem
    cases m with
    | cell name dims data =>
      obtain ⟨i, hi⟩ := List.mem_iff_getElem?.mp hmem
      exact ⟨.index i :: path, .cell hi hpath⟩
    | struct name dims fieldnames data =>
      obtain ⟨key, hkey, hget⟩ := List.mem_map.mp hmem
      exact ⟨.field key :: path, .field hkey hget hpath⟩
    | double => cases hmem
    | complex => cases hmem
    | char => cases hmem
    | unsupported => cases hmem

theorem mapData_value_iff {data : Option (List α)} {rows cols slices : ℤ} :
    (∃ mat, mapData data rows cols slices = .value mat) ↔ Mapped data rows (cols * slices) := by
  unfold mapData Mapped Eigen.MatrixXd.map
  generalize cols * slices = n
  by_cases hneg : rows < 0 ∨ n < 0 ∨ n ≥ 2 ^ 31
  · rw [if_pos hneg]
    refine iff_of_false ?_ fun h => by omega
    rintro ⟨_, h⟩
    cases h
  · rw [if_neg hneg]
    by_cases hle : rows.toNat * n.toNat ≤ (data.getD []).length
    · rw [dif_pos hle]
      exact iff_of_true ⟨_, rfl⟩ ⟨by omega, by omega, by omega, hle⟩
    · rw [dif_neg hle]
      refine iff_of_false ?_ fun h => hle h.2.2.2
      rintro ⟨_, h⟩
      cases h

theorem readUnits_value_iff {us : Option (List UInt16)} (h : (Utf16.toUtf8 (us.getD [])).isSome)
    (n : ℕ) : (∃ s, readUnits us n = .value s) ↔ n ≤ (us.getD []).length := by
  rw [Utf16.toUtf8, Option.isSome_map] at h
  unfold readUnits
  split_ifs with hle
  · have hpart := Utf16.decode_complete_take h n
    rw [← Option.isSome_map (f := fun cs : List Char => cs.flatMap String.utf8EncodeChar)] at hpart
    obtain ⟨s, hs⟩ := Option.isSome_iff_exists.mp hpart
    rw [Utf16.toUtf8, hs]
    exact iff_of_true ⟨s, rfl⟩ hle
  · refine iff_of_false ?_ hle
    rintro ⟨_, h⟩
    cases h

theorem readBytes_value_iff (mem : ℕ → UInt8) (size count : ℕ) :
    (∃ s, readBytes mem size count = .value s) ↔ count ≤ size := by
  unfold readBytes
  split_ifs with hle
  · exact iff_of_true ⟨_, rfl⟩ hle
  · refine iff_of_false ?_ hle
    rintro ⟨_, h⟩
    cases h

/-! A leaf. -/

theorem bind_value_iff {β γ : Type} {x : Exec β} {f : β → γ} :
    (∃ r, (x.bind fun b => .value (f b)) = .value r) ↔ ∃ b, x = .value b := by
  cases x <;> simp [Exec.bind]

theorem scalar_value_iff {m : Matvar α} (hleaf : Leaf m) (htext : TextFormed m)
    (matdata : MatData α) : (∃ r, makeScalarMatdata m matdata = .value r) ↔ Sized m := by
  cases m with
  | double name dims data =>
    rw [makeScalarMatdata, bind_value_iff, Sized, mapData_value_iff]
  | complex name dims view data =>
    rw [makeScalarMatdata, bind_value_iff, Sized, mapData_value_iff]
  | char name dims nbytes text =>
    rw [makeScalarMatdata_char]
    by_cases hrow : dims.getD 0 0 = 1
    · rw [if_neg (not_not.mpr hrow)]
      cases text with
      | utf16 us =>
        simp only [Sized, bind_value_iff, readUnits_value_iff htext, hrow, true_imp_iff]
      | uint16 us =>
        simp only [Sized, bind_value_iff, readUnits_value_iff htext, hrow, true_imp_iff]
      | utf8 mem size => simp only [Sized, bind_value_iff, readBytes_value_iff, hrow, true_imp_iff]
      | unsupported dataType => exact iff_of_true ⟨_, rfl⟩ trivial
    · rw [if_pos hrow]
      refine iff_of_true ⟨_, rfl⟩ ?_
      cases text with
      | utf16 us => exact fun h => absurd h hrow
      | uint16 us => exact fun h => absurd h hrow
      | utf8 mem size => exact fun h => absurd h hrow
      | unsupported dataType => trivial
  | struct => cases hleaf
  | cell => cases hleaf
  | unsupported => cases hleaf

theorem scalar_returns {m : Matvar α} (hleaf : Leaf m) {matdata : MatData α}
    {r : Bool × MatData α} (h : makeScalarMatdata m matdata = .value r) :
    r.1 = true ↔ Supported m := by
  cases m with
  | double name dims data =>
    rw [makeScalarMatdata, Exec.bind_eq_value] at h
    obtain ⟨mat, -, h⟩ := h
    cases h
    exact iff_of_true rfl trivial
  | complex name dims view data =>
    rw [makeScalarMatdata, Exec.bind_eq_value] at h
    obtain ⟨mat, -, h⟩ := h
    cases h
    exact iff_of_true rfl trivial
  | char name dims nbytes text =>
    rw [makeScalarMatdata_char] at h
    by_cases hrow : dims.getD 0 0 = 1
    · rw [if_neg (not_not.mpr hrow)] at h
      cases text with
      | utf16 us =>
        obtain ⟨s, -, h⟩ := Exec.bind_eq_value.mp h
        cases h
        exact iff_of_true rfl hrow
      | uint16 us =>
        obtain ⟨s, -, h⟩ := Exec.bind_eq_value.mp h
        cases h
        exact iff_of_true rfl hrow
      | utf8 mem size =>
        obtain ⟨s, -, h⟩ := Exec.bind_eq_value.mp h
        cases h
        exact iff_of_true rfl hrow
      | unsupported dataType =>
        cases h
        exact iff_of_false Bool.false_ne_true id
    · rw [if_pos hrow] at h
      cases h
      refine iff_of_false Bool.false_ne_true ?_
      cases text with
      | unsupported dataType => exact id
      | _ => exact hrow
  | struct => cases hleaf
  | cell => cases hleaf
  | unsupported => cases hleaf

/-- A supported leaf does not look at what was there before. -/
theorem scalar_same {m : Matvar α} (hleaf : Leaf m) (hm : Supported m) (matdata matdata' : MatData α) :
    makeScalarMatdata m matdata = makeScalarMatdata m matdata' := by
  cases m with
  | double => rfl
  | complex => rfl
  | char name dims nbytes text =>
    cases text with
    | unsupported dataType => cases hm
    | _ =>
      have hrow : dims.getD 0 0 = 1 := hm
      rw [makeScalarMatdata_char, makeScalarMatdata_char, if_neg (not_not.mpr hrow),
        if_neg (not_not.mpr hrow)]
  | struct => cases hleaf
  | cell => cases hleaf
  | unsupported => cases hleaf

section Node

variable [Zero α]

/-- The decoder returns, if no size leads beyond the data. -/
theorem returns_iff_sized {m : Matvar α} (hm : ∀ p, Visits m (some p) → Distinct p)
    (htext : ∀ p, Visits m (some p) → TextFormed p) (hnull : ¬ Visits m none)
    (matdata : MatData α) :
    (∃ r, makeMatdata m matdata = .value r) ↔ ∀ p, Visits m (some p) → Sized p := by
  induction m using visit_induction generalizing matdata with
  | step m ih =>
    rw [forall_visits]
    by_cases hnode : Node m
    · have hchild : ∀ c ∈ reached m, ∃ m', c = some m' := by
        rintro (_ | m') hc
        · exact absurd (.null hc) hnull
        · exact ⟨m', rfl⟩
      have hkid : ∀ c, some c ∈ reached m →
          ((∃ r, decodeChild (some c) = .value r) ↔ ∀ p, Visits c (some p) → Sized p) :=
        fun c hc => ih c (mem_children hc) (fun p hp => hm p (.child hc hp))
          (fun p hp => htext p (.child hc hp)) (fun hp => hnull (.child hc hp)) default
      have hkids : (∃ rs, List.Forall₂ (fun c r => decodeChild c = .value r) (children m) rs) ↔
          ∀ c, some c ∈ reached m → ∀ p, Visits c (some p) → Sized p := by
        rw [Exec.exists_forall₂_iff, Exec.forall_value_iff]
        constructor
        · intro h c hc
          exact (hkid c hc).mp (h _ hc)
        · intro h c hc
          obtain ⟨m', rfl⟩ := hchild c hc
          exact (hkid m' hc).mpr (h m' hc)
      rw [← hkids]
      constructor
      · rintro ⟨r, hr⟩
        obtain ⟨hsized, rs, hrs, -⟩ := (node_value_iff hnode (hm m (.self m)) matdata).mp hr
        exact ⟨hsized, rs, hrs⟩
      · rintro ⟨hsized, rs, hrs⟩
        by_cases hok : Supported m ∧ ∀ r' ∈ rs, r'.1 = true
        · exact ⟨(true, _), (node_value_iff hnode (hm m (.self m)) matdata).mpr
            ⟨hsized, rs, hrs, iff_of_true rfl hok, rfl⟩⟩
        · exact ⟨(false, _), (node_value_iff hnode (hm m (.self m)) matdata).mpr
            ⟨hsized, rs, hrs, iff_of_false Bool.false_ne_true hok, rfl⟩⟩
    · rw [reached_leaf (children_leaf hnode)]
      simp only [List.not_mem_nil, false_imp_iff, implies_true, and_true]
      by_cases hleaf : Leaf m
      · rw [makeMatdata_leaf hleaf, scalar_value_iff hleaf (htext m (.self m))]
      · cases m with
        | unsupported => exact iff_of_true ⟨_, by rw [makeMatdata]⟩ trivial
        | cell => exact absurd trivial hnode
        | struct => exact absurd trivial hnode
        | _ => exact absurd trivial hleaf

/-- It returns true, if all nodes are supported. -/
theorem true_iff_supported {m : Matvar α} (hm : ∀ p, Visits m (some p) → Distinct p)
    {matdata : MatData α} {r : Bool × MatData α} (h : makeMatdata m matdata = .value r) :
    r.1 = true ↔ ∀ p, Visits m (some p) → Supported p := by
  induction m using visit_induction generalizing matdata r with
  | step m ih =>
    rw [forall_visits]
    by_cases hnode : Node m
    · obtain ⟨-, rs, hrs, hok, -⟩ := (node_value_iff hnode (hm m (.self m)) matdata).mp h
      have hall := reached_of_value (hm m (.self m)) h
      rw [hok, hall]
      refine and_congr_right fun _ => ?_
      have hkid : ∀ c r', decodeChild (some c) = .value r' → some c ∈ children m →
          (r'.1 = true ↔ ∀ p, Visits c (some p) → Supported p) :=
        fun c r' hr' hc => ih c hc (fun p hp => hm p (.child (hall ▸ hc) hp)) hr'
      constructor
      · intro hall c hc
        obtain ⟨i, hi, hget⟩ := List.getElem_of_mem hc
        have hr' := hrs.get hi (hrs.length_eq ▸ hi)
        simp only [List.get_eq_getElem, hget] at hr'
        exact (hkid c _ hr' hc).mp (hall _ (List.getElem_mem _))
      · intro hall r' hr'
        obtain ⟨i, hi, rfl⟩ := List.getElem_of_mem hr'
        have hi' : i < (children m).length := hrs.length_eq ▸ hi
        have hv := hrs.get hi' hi
        simp only [List.get_eq_getElem] at hv
        obtain ⟨c, hc, -⟩ := decodeChild_eq_value.mp hv
        have hmem : some c ∈ children m := hc ▸ List.getElem_mem hi'
        rw [hc] at hv
        exact (hkid c _ hv hmem).mpr (hall c hmem)
    · rw [reached_leaf (children_leaf hnode)]
      simp only [List.not_mem_nil, false_imp_iff, implies_true, and_true]
      by_cases hleaf : Leaf m
      · rw [makeMatdata_leaf hleaf] at h
        exact scalar_returns hleaf h
      · cases m with
        | unsupported =>
          rw [makeMatdata] at h
          cases h
          exact iff_of_false Bool.false_ne_true id
        | cell => exact absurd trivial hnode
        | struct => exact absurd trivial hnode
        | _ => exact absurd trivial hleaf

/-- A supported leaf is found where it was, decoded as if it were alone. -/
theorem leaf_at {m p : Matvar α} (hm : ∀ p, Visits m (some p) → Distinct p) {matdata : MatData α}
    {r : Bool × MatData α} (h : makeMatdata m matdata = .value r) {path : List Turn}
    (hp : At m path p) (hleaf : Leaf p) (hsup : Supported p) :
    ∃ d, makeScalarMatdata p default = .value (true, d) ∧ r.2.at? path = some d := by
  induction hp generalizing matdata r with
  | here m =>
    rw [makeMatdata_leaf hleaf, scalar_same hleaf hsup matdata default] at h
    have hok := (scalar_returns hleaf h).mpr hsup
    refine ⟨r.2, ?_, by rw [MatData.at?]⟩
    rw [h, ← hok]
  | @cell name dims data i c p path hget _ ih =>
    have hnode := node_value_iff (m := .cell name dims data) (r := r) trivial (hm _ (.self _)) matdata
    obtain ⟨-, rs, hrs, -, hd⟩ := hnode.mp h
    obtain ⟨hi, hget⟩ := List.getElem?_eq_some_iff.mp hget
    have hi' : i < rs.length := hrs.length_eq ▸ hi
    have hv := hrs.get hi hi'
    simp only [List.get_eq_getElem, hget] at hv
    have hmem : some c ∈ reached (.cell name dims data) := by
      rw [reached_of_value (hm _ (.self _)) h, ← hget]
      exact List.getElem_mem hi
    obtain ⟨d, hscalar, hat⟩ := ih (fun p hp => hm p (.child hmem hp)) hv hleaf hsup
    refine ⟨d, hscalar, ?_⟩
    rw [hd, build, MatData.at?, List.getElem?_map, List.getElem?_eq_getElem hi', Option.map_some,
      Option.bind_some, hat]
  | @field name dims fieldnames data key c p path hkey hget _ ih =>
    have hnode := node_value_iff (m := .struct name dims fieldnames data) (r := r) trivial
      (hm _ (.self _)) matdata
    obtain ⟨-, rs, hrs, -, hd⟩ := hnode.mp h
    have hnodup : (Matvar.counted fieldnames).Nodup :=
      (Matvar.counted_initial fieldnames).sublist.nodup (hm _ (.self _))
    obtain ⟨i, hi, rfl⟩ := List.getElem_of_mem hkey
    have hlen : (Matvar.counted fieldnames).length = rs.length := by
      rw [← hrs.length_eq, children, List.length_map]
    have hi' : i < rs.length := hlen ▸ hi
    have hv := hrs.get (by rw [children, List.length_map]; exact hi) hi'
    simp only [List.get_eq_getElem, children, List.getElem_map, hget] at hv
    have hmem : some c ∈ reached (.struct name dims fieldnames data) := by
      rw [reached_of_value (hm _ (.self _)) h]
      exact List.mem_map.mpr ⟨_, hkey, hget⟩
    obtain ⟨d, hscalar, hat⟩ := ih (fun p hp => hm p (.child hmem hp)) hv hleaf hsup
    have hkeys : ((Matvar.counted fieldnames).zip (rs.map (·.2))).map Prod.fst =
        Matvar.counted fieldnames := List.map_fst_zip (by rw [List.length_map]; exact hlen.le)
    have hfound : ((Matvar.counted fieldnames).zip (rs.map (·.2))).lookup
        (Matvar.counted fieldnames)[i] = some rs[i].2 := by
      refine MatData.lookup_of_mem (f := ((Matvar.counted fieldnames)[i], rs[i].2))
        (by rw [hkeys]; exact hnodup) (List.mem_iff_getElem.mpr ⟨i, ?_, ?_⟩)
      · rw [List.length_zip, List.length_map]
        omega
      · rw [List.getElem_zip, List.getElem_map]
    refine ⟨d, hscalar, ?_⟩
    rw [hd, build, MatData.at?, MatData.lookup_setAll (by rw [hkeys]; exact hnodup), hfound,
      Option.some_or, Option.bind_some, hat]

/-- The decoder returns, true if all nodes are supported, with each supported leaf at
its place, if and only if no size leads beyond the data of its node. -/
theorem decoder_errors_iff {m : Matvar α} (hm : ∀ p, Visits m (some p) → Distinct p)
    (htext : ∀ p, Visits m (some p) → TextFormed p) (hnull : ¬ Visits m none)
    (matdata : MatData α) :
    ((∃ r, makeMatdata m matdata = .value r ∧
      (r.1 = true ↔ ∀ p, Visits m (some p) → Supported p) ∧
      ∀ path p, At m path p → Leaf p → Supported p →
        ∃ d, makeScalarMatdata p default = .value (true, d) ∧ r.2.at? path = some d) ↔
      ∀ p, Visits m (some p) → Sized p) ∧
    ∀ p, Visits m (some p) → ∃ path, At m path p := by
  refine ⟨?_, fun _ => exists_at⟩
  rw [← returns_iff_sized hm htext hnull matdata]
  constructor
  · rintro ⟨r, h, -⟩
    exact ⟨r, h⟩
  · rintro ⟨r, h⟩
    exact ⟨r, h, true_iff_supported hm h, fun path p hp => leaf_at hm h hp⟩

end Node

/-- A cell of one number. -/
theorem decoder_errors_iff_cell :
    let m : Matvar ℤ := .cell [120] [1, 1] (some [some (.double [] [1, 1] (some [5]))])
    ((∃ r, makeMatdata m default = .value r ∧
      (r.1 = true ↔ ∀ p, Visits m (some p) → Supported p) ∧
      ∀ path p, At m path p → Leaf p → Supported p →
        ∃ d, makeScalarMatdata p default = .value (true, d) ∧ r.2.at? path = some d) ↔
      ∀ p, Visits m (some p) → Sized p) ∧
    ∀ p, Visits m (some p) → ∃ path, At m path p := by
  intro m
  have hleaf : children (.double [] [1, 1] (some [5]) : Matvar ℤ) = [] := rfl
  have hthere : ∀ p, Visits m (some p) → none ∉ reached p := by
    refine (forall_visits_singleton hleaf).mpr ⟨?_, by rw [reached_leaf hleaf]; exact List.not_mem_nil⟩
    rw [reached_singleton]
    simp
  refine decoder_errors_iff ((forall_visits_singleton hleaf).mpr ⟨trivial, trivial⟩)
    ((forall_visits_singleton hleaf).mpr ⟨trivial, trivial⟩) (fun h => ?_) default
  obtain ⟨p, hp, hnull⟩ := visits_null_iff.mp h
  exact hthere p hp hnull

/-- In a cell, a double array of 2 x 2 x 0 x 3 elements: four are read, of none. -/
theorem empty_array_undefined :
    let m : Matvar ℤ := .cell [120] [1, 1] (some [some (.double [] [2, 2, 0, 3] none)])
    (∀ p, Visits m (some p) → Distinct p ∧ TextFormed p ∧ Supported p) ∧ ¬ Visits m none ∧
      ∀ r, makeMatdata m default ≠ .value r := by
  intro m
  have hleaf : children (.double [] [2, 2, 0, 3] none : Matvar ℤ) = [] := rfl
  have hthere : ∀ p, Visits m (some p) → none ∉ reached p := by
    refine (forall_visits_singleton hleaf).mpr ⟨?_, by rw [reached_leaf hleaf]; exact List.not_mem_nil⟩
    rw [reached_singleton]
    simp
  have hnull : ¬ Visits m none := by
    intro h
    obtain ⟨p, hp, hnull⟩ := visits_null_iff.mp h
    exact hthere p hp hnull
  have hfine : ∀ p, Visits m (some p) → Distinct p ∧ TextFormed p ∧ Supported p :=
    (forall_visits_singleton hleaf).mpr
      ⟨⟨trivial, trivial, .inl rfl⟩, trivial, trivial, trivial⟩
  refine ⟨hfine, hnull, fun r hr => ?_⟩
  have hsized := (returns_iff_sized (fun p hp => (hfine p hp).1) (fun p hp => (hfine p hp).2.1) hnull
    default).mp ⟨r, hr⟩ (.double [] [2, 2, 0, 3] none)
    (.child (by rw [reached_singleton]; exact List.mem_singleton_self _) (.self _))
  have htwo : toInt (2 : ℕ) = 2 := toInt_natCast (by norm_num)
  have hone : slicesOf [2, 2, 0, 3] = 1 := if_pos (by simp)
  obtain ⟨-, -, -, hle⟩ := hsized
  rw [intDim_zero, intDim_one, hone, htwo] at hle
  simp at hle

end MatioBackend
end XBot
