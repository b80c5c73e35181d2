import MatLogger2.Logger.Definitions

/-! A pose is logged as two samples, its translation and its quaternion, under two names
made from its own. Each is an `add` of its own, and the second is made whether or not
the first has succeeded. -/

namespace Eigen

/-- What the logger reads of a pose: its translation, and the coefficients of the
quaternion of its linear part. -/
structure Affine3d (α : Type) where
  translation : Fin 3 → α
  coeffs : Fin 4 → α

def column {α : Type} {n : ℕ} (x : Fin n → α) : MatrixXd α := ⟨n, 1, List.ofFn x, by simp⟩

@[simp] theorem size_column {α : Type} {n : ℕ} (x : Fin n → α) : (column x).size = n :=
  Nat.mul_one n

end Eigen

namespace XBot

open VariableBuffer Transition

variable {α : Type}

namespace MatLogger2

def translationName (varName : StdString) : StdString := varName ++ [95, 116]

def quaternionName (varName : StdString) : StdString := varName ++ [95, 113]

theorem names_ne (v w : StdString) : translationName v ≠ quaternionName w := by
  intro h
  have hlast := congrArg List.getLast? h
  simp [translationName, quaternionName] at hlast

theorem translationName_inj {v w : StdString} : translationName v = translationName w ↔ v = w :=
  List.append_left_inj _

theorem quaternionName_inj {v w : StdString} : quaternionName v = quaternionName w ↔ v = w :=
  List.append_left_inj _

/-- What `add` returns. -/
def returned : Option (Outcome α) → Except String Bool
  | none => .ok false
  | some r => r.ret

/-- `add` for a pose. The results are those of its two calls of `add`. -/
def addPose (s : MatLogger2 α) (mem : Allocator α) (varName : StdString)
    (data : Eigen.Affine3d α) : Option (MatLogger2 α × List (Result α) × Except String Bool) :=
  let t := Eigen.column data.translation
  let q := Eigen.column data.coeffs
  match s.add mem (translationName varName) t with
  | none => none
  | some (s, r) =>
    match returned r with
    | .error what => some (s, [addResult (translationName varName) t r], .error what)
    | .ok ok =>
      match s.add mem (quaternionName varName) q with
      | none => none
      | some (s, r') =>
        some (s, [addResult (translationName varName) t r, addResult (quaternionName varName) q r'],
          (returned r').map (· && ok))

variable {s s₁ s' : MatLogger2 α} {mem : Allocator α} {name : StdString} {vb : VariableBuffer α}
variable {n : ℕ} {opt : Options}

/-- The variable has `n` elements, or would be made for them. -/
def Takes (s : MatLogger2 α) (name : StdString) (n : ℕ) : Prop :=
  match s.find name with
  | some vb => vb.rows * vb.cols = n
  | none => 0 < bufferSizeFor s.opt n 1 (-1)

theorem Takes.congr (hopt : s'.opt = s.opt) (hf : s'.find name = s.find name) :
    s'.Takes name n ↔ s.Takes name n := by
  rw [Takes, Takes, hopt, hf]

theorem find_emplace_of_ne {name' : StdString} (h : name' ≠ name) (rows cols bufferSize : ℕ) :
    (s.emplace mem name rows cols bufferSize).find name' = s.find name' := by
  have hne : (name' == name) = false := beq_eq_false_iff_ne.mpr h
  rw [MatLogger2.find, MatLogger2.emplace, List.lookup_cons, hne]
  rfl

/-- What `add` leaves alone. -/
theorem add_frame {data : Eigen.MatrixXd α} {r : Option (Outcome α)}
    (h : s.add mem name data = some (s', r)) :
    s'.opt = s.opt ∧ ∀ name', name' ≠ name → s'.find name' = s.find name' := by
  cases hf : s.find name with
  | some vb =>
    rw [add_known hf] at h
    cases h
    exact ⟨rfl, fun _ hne => find_update_of_ne hne⟩
  | none =>
    by_cases hc : s.Creates name (toInt data.rows) (toInt data.cols) (-1)
    · obtain ⟨vb, hvb, -⟩ := s.emplace_find mem name (toInt data.rows).toNat
        (toInt data.cols).toNat (bufferSizeFor s.opt (toInt data.rows) (toInt data.cols) (-1)).toNat
      rw [add_creates hc, add_known hvb] at h
      split_ifs at h
      cases h
      exact ⟨rfl, fun _ hne => (find_update_of_ne hne).trans (find_emplace_of_ne hne _ _ _)⟩
    · rw [add_refused hf hc] at h
      cases h
      exact ⟨rfl, fun _ _ => rfl⟩

/-- A column is added exactly when the variable takes it; otherwise nothing changes. -/
theorem add_column (mem : Allocator α) (name : StdString) (x : Fin n → α)
    (t : Tidy s.bufferMode s.vars) (hn : 0 < n) (hlt : n < 2 ^ 31) :
    ∃ s' r ok, s.add mem name (Eigen.column x) = some (s', r) ∧ returned r = .ok ok ∧
      (ok = true ↔ s.Takes name n) ∧ (ok = true → (s'.find name).isSome) ∧
      (ok = false → s' = s) := by
  have hkey : ∀ (s₁ : MatLogger2 α) (vb : VariableBuffer α), s₁.find name = some vb →
      ((s₁.update name (vb.addElem (Eigen.column x)).vb).find name).isSome = true := by
    intro s₁ vb hf
    rw [Option.isSome_iff_ne_none, ne_eq, find_eq_none, update_keys, not_not]
    exact List.mem_map_of_mem (mem_of_find hf)
  cases hf : s.find name with
  | some vb =>
    have htakes : s.Takes name n ↔ vb.rows * vb.cols = n := by rw [Takes, hf]
    obtain ⟨b, hb, w⟩ := t.whole _ (mem_of_find hf)
    by_cases hsize : vb.rows * vb.cols = n
    · have hdata : (Eigen.column x).size = vb.rows * vb.cols := by rw [Eigen.size_column, hsize]
      obtain ⟨hret, -⟩ := addElem_spec w hb hdata
      exact ⟨_, _, true, add_known hf, hret, ⟨fun _ => htakes.mpr hsize, fun _ => rfl⟩,
        fun _ => hkey s vb hf, nofun⟩
    · have hdata : (Eigen.column x).size ≠ vb.rows * vb.cols := by
        rw [Eigen.size_column]
        exact Ne.symm hsize
      have hadd : s.add mem name (Eigen.column x) = _ := add_known hf
      rw [addElem_refused hdata, update_find t hf] at hadd
      exact ⟨s, _, false, hadd, rfl, ⟨nofun, fun h => absurd (htakes.mp h) hsize⟩, nofun, fun _ => rfl⟩
  | none =>
    have hrows : toInt (Eigen.column x).rows = n := toInt_natCast hlt
    have hcols : toInt (Eigen.column x).cols = 1 := toInt_natCast (n := 1) (by norm_num)
    have htakes : s.Takes name n ↔
        s.Creates name (toInt (Eigen.column x).rows) (toInt (Eigen.column x).cols) (-1) := by
      rw [Takes, hf, hrows, hcols]
      exact ⟨fun h => ⟨hf, Int.natCast_pos.mpr hn, one_pos, h⟩, fun h => h.2.2.2⟩
    by_cases hc : s.Creates name (toInt (Eigen.column x).rows) (toInt (Eigen.column x).cols) (-1)
    · have hadd : s.add mem name (Eigen.column x) = _ := add_creates hc
      obtain ⟨vb, hvb, hr, hcol, w, -⟩ := s.emplace_find mem name
        (toInt (Eigen.column x).rows).toNat (toInt (Eigen.column x).cols).toNat
        (bufferSizeFor s.opt (toInt (Eigen.column x).rows) (toInt (Eigen.column x).cols) (-1)).toNat
      have hsize : (Eigen.column x).size = vb.rows * vb.cols := by
        rw [hr, hcol, hrows, hcols, Eigen.size_column, Int.toNat_natCast]
        exact (Nat.mul_one n).symm
      have hsmall : ¬ toInt (Eigen.column x).rows * toInt (Eigen.column x).cols ≥ 2 ^ 31 := by
        rw [hrows, hcols]
        omega
      obtain ⟨hret, -⟩ := addElem_spec w (le_max_left 1 _) hsize
      rw [if_neg hsmall, add_known hvb] at hadd
      exact ⟨_, _, true, hadd, hret, ⟨fun _ => htakes.mpr hc, fun _ => rfl⟩,
        fun _ => hkey _ vb hvb, nofun⟩
    · exact ⟨s, _, false, add_refused hf hc, rfl, ⟨nofun, fun h => absurd (htakes.mp h) hc⟩, nofun,
        fun _ => rfl⟩

/-- The samples that one of the two results stands for. -/
theorem acceptedFor_addResult {name' : StdString} {data : Eigen.MatrixXd α}
    {r : Option (Outcome α)} {ok : Bool} (h : returned r = .ok ok) :
    acceptedFor name' [addResult name data r] =
      if name = name' ∧ ok = true then [data.data] else [] := by
  cases r with
  | none =>
    cases h
    simp [acceptedFor, addsFor, addResult, Result.addFor]
  | some r =>
    have hret : r.ret = .ok ok := h
    rw [acceptedFor, addResult, addsFor_added]
    by_cases hn : name = name'
    · cases ok <;> simp [hn, AddCall.accepted, hret]
    · simp [hn]

/-- One of the two samples has been added, or its variable is as it was. -/
def Part (s s' : MatLogger2 α) (rs : List (Result α)) (name : StdString) (x : List α) : Prop :=
  (s.Takes name x.length ∧ acceptedFor name rs = [x] ∧ (s'.find name).isSome) ∨
    (¬ s.Takes name x.length ∧ acceptedFor name rs = [] ∧ s'.find name = s.find name)

theorem addPose_spec (t : Tidy s.bufferMode s.vars) (mem : Allocator α) (v : StdString)
    (p : Eigen.Affine3d α) :
    ∃ s' rs ok, s.addPose mem v p = some (s', rs, .ok ok) ∧ Tidy s'.bufferMode s'.vars ∧
      (ok = true ↔ s.Takes (translationName v) 3 ∧ s.Takes (quaternionName v) 4) ∧
      Part s s' rs (translationName v) (List.ofFn p.translation) ∧
      Part s s' rs (quaternionName v) (List.ofFn p.coeffs) ∧
      ∀ w, w ≠ v → acceptedFor (translationName w) rs = [] ∧ acceptedFor (quaternionName w) rs = [] := by
  obtain ⟨s₁, r, ok, hadd, hret, hok, hsome, hsame⟩ := add_column mem
    (translationName v) p.translation t (by norm_num) (by norm_num)
  obtain ⟨hmode, t₁⟩ := add_tidy t hadd
  rw [← hmode] at t₁
  obtain ⟨s', r', ok', hadd', hret', hok', hsome', hsame'⟩ := add_column mem
    (quaternionName v) p.coeffs t₁ (by norm_num) (by norm_num)
  obtain ⟨hmode', t'⟩ := add_tidy t₁ hadd'
  rw [← hmode'] at t'
  obtain ⟨hopt, hfind⟩ := add_frame hadd
  obtain ⟨-, hfind'⟩ := add_frame hadd'
  have hfindq := hfind _ (names_ne v v).symm
  have ht := hfind' _ (names_ne v v)
  rw [Takes.congr hopt hfindq] at hok'
  have hpose : s.addPose mem v p = some (s',
      [addResult (translationName v) (Eigen.column p.translation) r,
      addResult (quaternionName v) (Eigen.column p.coeffs) r'], .ok (ok' && ok)) := by
    simp only [addPose, hadd, hret, hadd', hret', Except.map]
  have hacc : ∀ name, acceptedFor name [addResult (translationName v) (Eigen.column p.translation) r,
      addResult (quaternionName v) (Eigen.column p.coeffs) r'] =
        (if translationName v = name ∧ ok = true then [List.ofFn p.translation] else []) ++
        (if quaternionName v = name ∧ ok' = true then [List.ofFn p.coeffs] else []) := by
    intro name
    have h := acceptedFor_append name [addResult (translationName v) (Eigen.column p.translation) r]
      [addResult (quaternionName v) (Eigen.column p.coeffs) r']
    rw [acceptedFor_addResult hret, acceptedFor_addResult hret'] at h
    exact h
  refine ⟨s', _, ok' && ok, hpose, t', ?_, ?_, ?_, fun w hw => ⟨?_, ?_⟩⟩
  · rw [Bool.and_eq_true, hok, hok', and_comm]
  · have hq := hacc (translationName v)
    simp only [(names_ne v v).symm, true_and, false_and, if_false, List.append_nil] at hq
    rw [Part, hq, ht, List.length_ofFn]
    cases ok with
    | true => exact .inl ⟨hok.mp rfl, rfl, hsome rfl⟩
    | false => exact .inr ⟨fun h => Bool.false_ne_true (hok.mpr h), rfl, by rw [hsame rfl]⟩
  · have hq := hacc (quaternionName v)
    simp only [names_ne v v, true_and, false_and, if_false, List.nil_append] at hq
    rw [Part, hq, List.length_ofFn]
    cases ok' with
    | true => exact .inl ⟨hok'.mp rfl, rfl, hsome' rfl⟩
    | false => exact .inr ⟨fun h => Bool.false_ne_true (hok'.mpr h), rfl, by rw [hsame' rfl, hfindq]⟩
  · rw [hacc]
    simp [translationName_inj, hw.symm, (names_ne w v).symm]
  · rw [hacc]
    simp [quaternionName_inj, hw.symm, names_ne v w]

/-- An `add` of a pose, and the results of its two calls. -/
structure PoseCall (α : Type) where
  before : MatLogger2 α
  varName : StdString
  data : Eigen.Affine3d α
  results : List (Result α)

/-- Either both samples find their place or none does. -/
def PoseCall.Agrees (e : PoseCall α) : Prop :=
  e.before.Takes (translationName e.varName) 3 ↔ e.before.Takes (quaternionName e.varName) 4

/-- How many samples the poses have added to a variable. -/
def contributed (name : StdString) (es : List (PoseCall α)) : ℕ :=
  (es.flatMap fun e => acceptedFor name e.results).length

theorem contributed_append (name : StdString) (es es' : List (PoseCall α)) :
    contributed name (es ++ es') = contributed name es + contributed name es' := by
  rw [contributed, List.flatMap_append, List.length_append]
  rfl

end MatLogger2

/-- The logger whose events are the poses that are added to it. -/
def withPoses (α : Type) (opt : Options) : System (MatLogger2 α) (MatLogger2.PoseCall α) where
  init s := s = MatLogger2.make opt
  step s es s' := ∃ s₁ vars, vars.Perm s₁.vars ∧ s' = { s₁ with vars } ∧
    ((∃ op rs, s.call op = some (s₁, rs) ∧ es = []) ∨
      ∃ mem v p rs ret, s.addPose mem v p = some (s₁, rs, ret) ∧ es = [⟨s, v, p, rs⟩])

namespace MatLogger2

variable {s s' : MatLogger2 α} {mem : Allocator α} {opt : Options}
variable {hist : List (MatLogger2 α)} {es : List (PoseCall α)}

theorem withPoses_tidy (h : (withPoses α opt).Run hist es s) : Tidy s.bufferMode s.vars := by
  refine h.inv (I := fun _ s => Tidy s.bufferMode s.vars) ?_ ?_
  · rintro s rfl
    exact ⟨.nil, nofun, nofun, nofun, nofun⟩
  · rintro _ s es s' t ⟨s₁, vars, hp, rfl, ⟨op, rs, hc, -⟩ | ⟨mem, v, p, rs, ret, hadd, -⟩⟩
    · exact (call_tidy t hc).perm hp
    · obtain ⟨s₂, rs₂, ok, hadd', t', -⟩ := addPose_spec t mem v p
      rw [hadd] at hadd'
      cases hadd'
      exact t'.perm hp

/-- A pose adds as many samples to one of its variables as to the other, if its two
samples agree. -/
theorem contributed_pose (t : Tidy s.bufferMode s.vars) {v w : StdString} {p : Eigen.Affine3d α}
    {rs : List (Result α)} {ret : Except String Bool}
    (h : s.addPose mem w p = some (s', rs, ret))
    (hagrees : w = v → PoseCall.Agrees ⟨s, w, p, rs⟩) :
    contributed (translationName v) [⟨s, w, p, rs⟩] =
      contributed (quaternionName v) [⟨s, w, p, rs⟩] := by
  obtain ⟨s₂, rs₂, ok, hadd, -, -, ht, hq, hothers⟩ := addPose_spec t mem w p
  rw [h] at hadd
  cases hadd
  simp only [contributed, List.flatMap_cons, List.flatMap_nil, List.append_nil]
  by_cases hv : w = v
  · have hiff : s.Takes (translationName w) 3 ↔ s.Takes (quaternionName w) 4 := hagrees hv
    subst hv
    simp only [Part, List.length_ofFn] at ht hq
    rcases ht with ⟨htakes, ht, -⟩ | ⟨hnot, ht, -⟩
    · rcases hq with ⟨-, hq, -⟩ | ⟨hnot, -⟩
      · rw [ht, hq]
        rfl
      · exact absurd (hiff.mp htakes) hnot
    · rcases hq with ⟨htakes, -⟩ | ⟨-, hq, -⟩
      · exact absurd (hiff.mpr htakes) hnot
      · rw [ht, hq]
  · obtain ⟨ht', hq'⟩ := hothers v fun h => hv h.symm
    rw [ht', hq']

/-- In every reachable state a pose adds a sample to each of its two variables that
takes it and leaves the other alone, and returns whether both do; over a run in which
the two agree at each pose of a name, both get as many samples. -/
theorem poses_aligned (h : (withPoses α opt).Run hist es s) :
    (∀ mem v p, ∃ s' rs ok, s.addPose mem v p = some (s', rs, .ok ok) ∧
      (ok = true ↔ s.Takes (translationName v) 3 ∧ s.Takes (quaternionName v) 4) ∧
      Part s s' rs (translationName v) (List.ofFn p.translation) ∧
      Part s s' rs (quaternionName v) (List.ofFn p.coeffs)) ∧
    ∀ v, (∀ e ∈ es, e.varName = v → e.Agrees) →
      contributed (translationName v) es = contributed (quaternionName v) es := by
  refine ⟨fun mem v p => ?_, fun v => ?_⟩
  · obtain ⟨s', rs, ok, hadd, -, hok, ht, hq, -⟩ := addPose_spec (withPoses_tidy h) mem v p
    exact ⟨s', rs, ok, hadd, hok, ht, hq⟩
  · refine h.inv_hist (I := fun _ es _ => (∀ e ∈ es, e.varName = v → e.Agrees) →
      contributed (translationName v) es = contributed (quaternionName v) es) (fun _ _ _ => rfl) ?_
    rintro hist es s _ s' hr ih ⟨s₁, vars, hp, rfl, ⟨op, rs, hc, rfl⟩ |
      ⟨mem, w, p, rs, ret, hadd, rfl⟩⟩ hall
    · rw [List.append_nil] at hall ⊢
      exact ih hall
    · rw [List.forall_mem_append] at hall
      rw [contributed_append, contributed_append, ih hall.1,
        contributed_pose (withPoses_tidy hr) hadd fun hw => hall.2 _ (by simp) hw]

theorem takes_new {n : ℕ} {opt : Options} (name : StdString) (hn : 0 < n) (hlt : n < 2 ^ 31)
    (hpos : 0 < opt.defaultBufferSize) {k : ℕ} (hk : 0 < k) (hk' : k < 2 ^ 31)
    (hsize : toSize opt.defaultBufferSizeMaxBytes / 8 / n / 1 = k) :
    (make opt : MatLogger2 α).Takes name n := by
  have hrows : toSize n = n := toSize_of_pos (Int.natCast_pos.mpr hn) (by exact_mod_cast hlt)
  have hone : toSize 1 = 1 := rfl
  show 0 < bufferSizeFor opt n 1 (-1)
  rw [bufferSizeFor, if_pos rfl, hrows, hone, hsize, toInt_natCast hk']
  exact lt_min (Int.natCast_pos.mpr hk) hpos

/-- The first pose of a new logger. -/
theorem poses_aligned_new : ∃ (hist : List (MatLogger2 ℕ)) (es : List (PoseCall ℕ))
    (s : MatLogger2 ℕ), (withPoses ℕ ⟨10000, 10485760⟩).Run hist es s ∧
      contributed (translationName [112]) es = 1 ∧ contributed (quaternionName [112]) es = 1 := by
  have ht : (make ⟨10000, 10485760⟩ : MatLogger2 ℕ).Takes (translationName [112]) 3 :=
    takes_new (k := 436906) _ (by norm_num) (by norm_num) (by norm_num) (by norm_num) (by norm_num) rfl
  have hq : (make ⟨10000, 10485760⟩ : MatLogger2 ℕ).Takes (quaternionName [112]) 4 :=
    takes_new (k := 327680) _ (by norm_num) (by norm_num) (by norm_num) (by norm_num) (by norm_num) rfl
  have hstart : (withPoses ℕ ⟨10000, 10485760⟩).Run [make ⟨10000, 10485760⟩] []
      (make ⟨10000, 10485760⟩) := .start rfl
  obtain ⟨s', rs, ok, hadd, -, hpart, -⟩ := (poses_aligned hstart).1 zeroed [112]
    ⟨![1, 2, 3], ![4, 5, 6, 7]⟩
  have hrun := hstart.next ⟨s', s'.vars, .refl _, rfl, .inr ⟨_, _, _, _, _, hadd, rfl⟩⟩
  have hcount : contributed (translationName [112]) ([] ++ [(⟨make ⟨10000, 10485760⟩, [112],
      ⟨![1, 2, 3], ![4, 5, 6, 7]⟩, rs⟩ : PoseCall ℕ)]) = 1 := by
    rcases hpart with ⟨-, hacc, -⟩ | ⟨hnot, -⟩
    · simp [contributed, hacc]
    · exact absurd ht hnot
  have heq := (poses_aligned hrun).2 [112] fun e he _ => by
    rw [List.nil_append, List.mem_singleton] at he
    subst he
    exact ⟨fun _ => hq, fun _ => ht⟩
  exact ⟨_, _, _, hrun, hcount, heq.symm.trans hcount⟩

/-- Where `p_q` is a scalar, a pose `p` is refused, and has been added to `p_t`. -/
theorem pose_half_added :
    let s : MatLogger2 ℕ := (make ⟨10000, 10485760⟩).emplace zeroed (quaternionName [112]) 1 1 20
    (∃ hist, (withPoses ℕ ⟨10000, 10485760⟩).Run hist [] s) ∧
      ∃ s' rs, s.addPose zeroed [112] ⟨![1, 2, 3], ![4, 5, 6, 7]⟩ = some (s', rs, .ok false) ∧
        acceptedFor (translationName [112]) rs = [[1, 2, 3]] ∧
        acceptedFor (quaternionName [112]) rs = [] ∧
        s.find (translationName [112]) = none ∧
        (s'.find (translationName [112])).isSome = true := by
  intro s
  have hcreate := create_of_valid (s := (make ⟨10000, 10485760⟩ : MatLogger2 ℕ)) zeroed one_pos
    one_pos (by norm_num : (0 : ℤ) < 20) (by norm_num) (rfl : find _ (quaternionName [112]) = none)
  have hcall : (make ⟨10000, 10485760⟩ : MatLogger2 ℕ).call
      (.create zeroed (quaternionName [112]) 1 1 20) =
        some (s, [.created (quaternionName [112]) true]) := by
    rw [call, hcreate]
    rfl
  have hstart : (withPoses ℕ ⟨10000, 10485760⟩).Run [make ⟨10000, 10485760⟩] []
      (make ⟨10000, 10485760⟩) := .start rfl
  have hrun : (withPoses ℕ ⟨10000, 10485760⟩).Run _ [] s :=
    hstart.next ⟨s, s.vars, .refl _, rfl, .inl ⟨_, _, hcall, rfl⟩⟩
  obtain ⟨vb, hvb, hr, hc, -⟩ := (make ⟨10000, 10485760⟩ : MatLogger2 ℕ).emplace_find zeroed
    (quaternionName [112]) 1 1 20
  obtain ⟨s', rs, ok, hadd, -, hok, ht, hq, -⟩ := addPose_spec (withPoses_tidy hrun) zeroed [112]
    ⟨![1, 2, 3], ![4, 5, 6, 7]⟩
  have hfind : s.find (translationName [112]) =
      (make ⟨10000, 10485760⟩ : MatLogger2 ℕ).find (translationName [112]) :=
    find_emplace_of_ne (names_ne [112] [112]) 1 1 20
  have hnew : (make ⟨10000, 10485760⟩ : MatLogger2 ℕ).Takes (translationName [112]) 3 :=
    takes_new (k := 436906) _ (by norm_num) (by norm_num) (by norm_num) (by norm_num) (by norm_num) rfl
  have htakes : s.Takes (translationName [112]) 3 := (Takes.congr rfl hfind).mpr hnew
  have hnot : ¬ s.Takes (quaternionName [112]) 4 := by
    rw [Takes, hvb]
    show ¬ vb.rows * vb.cols = 4
    rw [hr, hc]
    norm_num
  have hfalse : ok = false := Bool.eq_false_iff.mpr fun h => hnot (hok.mp h).2
  subst hfalse
  rcases ht with ⟨-, hacc, hsome⟩ | ⟨h, -⟩
  · rcases hq with ⟨h, -⟩ | ⟨-, hacc', -⟩
    · exact absurd h hnot
    · exact ⟨⟨_, hrun⟩, s', rs, hadd, hacc, hacc', hfind, hsome⟩
  · exact absurd htakes h

end MatLogger2
end XBot
