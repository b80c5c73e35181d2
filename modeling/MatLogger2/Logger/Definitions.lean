import MatLogger2.Logger.Sizing

/-! What defines a variable. The first call that has put a name into the map decides
the shape of its samples and the size of its blocks. A call that fails leaves the
logger as it was, unless `add` has narrowed the shape of its sample on the way to
`create`. -/

namespace XBot

open VariableBuffer Transition

variable {α : Type}

namespace MatLogger2

variable {s s₁ s' : MatLogger2 α} {mem : Allocator α} {name : StdString} {rows cols bufferSize : ℤ}
variable {vb : VariableBuffer α} {data : Eigen.MatrixXd α} {mode : Mode}

/-- What `create` checks. -/
def Creates (s : MatLogger2 α) (name : StdString) (rows cols bufferSize : ℤ) : Prop :=
  s.find name = none ∧ 0 < rows ∧ 0 < cols ∧ 0 < bufferSizeFor s.opt rows cols bufferSize

theorem create_eq (h : s.Creates name rows cols bufferSize) :
    s.create mem name rows cols bufferSize =
      if rows * cols ≥ 2 ^ 31 then none
      else some (s.emplace mem name rows.toNat cols.toNat
        (bufferSizeFor s.opt rows cols bufferSize).toNat, true) := by
  obtain ⟨hf, hr, hc, hb⟩ := h
  have h0 : ¬(rows = 0 ∨ cols = 0) := by omega
  have hpos : rows > 0 ∧ cols > 0 ∧ bufferSizeFor s.opt rows cols bufferSize > 0 := ⟨hr, hc, hb⟩
  simp only [create, h0, hpos, hf, and_self, not_true, if_false]

theorem create_refused (h : ¬ s.Creates name rows cols bufferSize) :
    s.create mem name rows cols bufferSize = some (s, false) := by
  by_cases h0 : rows = 0 ∨ cols = 0
  · exact if_pos h0
  by_cases hpos : rows > 0 ∧ cols > 0 ∧ bufferSizeFor s.opt rows cols bufferSize > 0
  · cases hf : s.find name with
    | none => exact absurd ⟨hf, hpos⟩ h
    | some vb => simp only [create, h0, hpos, hf, and_self, not_true, if_false]
  · simp only [create, h0, hpos, not_false_iff, if_true, if_false]

theorem exists_create_iff : (∃ s₁, s.create mem name rows cols bufferSize = some (s₁, true)) ↔
    s.Creates name rows cols bufferSize ∧ rows * cols < 2 ^ 31 := by
  by_cases h : s.Creates name rows cols bufferSize
  · rw [create_eq h]
    split_ifs with hlt
    · exact ⟨by simp, fun hc => absurd hc.2 (not_lt.mpr hlt)⟩
    · exact ⟨fun _ => ⟨h, not_le.mp hlt⟩, fun _ => ⟨_, rfl⟩⟩
  · rw [create_refused h]
    exact ⟨by simp, fun hc => absurd hc.1 h⟩

theorem emplace_has (s : MatLogger2 α) (mem : Allocator α) (name : StdString)
    (rows cols bufferSize : ℕ) :
    Has name rows cols (max 1 (bufferSize / NUM_BLOCKS))
      (s.emplace mem name rows cols bufferSize) := by
  obtain ⟨vb, hf, hr, hc, w, -⟩ := s.emplace_find mem name rows cols bufferSize
  exact ⟨vb, mem_of_find hf, hr, hc, w⟩

/-- A variable is where it was before. -/
theorem update_find (t : Tidy mode s.vars) (hf : s.find name = some vb) : s.update name vb = s := by
  have hvars : s.vars.map (fun p => if p.1 = name then (p.1, vb) else p) = s.vars := by
    refine (List.map_congr_left fun p hp => ?_).trans s.vars.map_id
    split_ifs with hn
    · obtain ⟨n, v⟩ := p
      obtain rfl : n = name := hn
      have heq := hf.symm.trans (find_of_mem t hp)
      rw [Option.some.inj heq]
      rfl
    · rfl
  rw [MatLogger2.update, hvars]

/-- For an unknown name `find_or_create` creates, and looks once more. -/
theorem findOrCreate_unknown (hf : s.find name = none) :
    s.findOrCreate mem name rows cols =
      (s.create mem name rows cols).map fun r => (r.1, r.1.find name) := by
  rw [findOrCreate]
  split
  · rename_i hf'
    rw [hf] at hf'
    cases hf'
  · split
    · rename_i hc
      rw [hc]
      rfl
    · rename_i s₁ hc
      obtain rfl := create_false hc
      rw [hc, Option.map_some, hf]
    · rename_i s₁ hc
      obtain ⟨-, -, -, -, rfl⟩ := create_true hc
      obtain ⟨vb, hvb⟩ := Option.isSome_iff_exists.mp
        (s.find_emplace mem name rows.toNat cols.toNat (bufferSizeFor s.opt rows cols (-1)).toNat)
      rw [hc, Option.map_some, hvb, findOrCreate_found hvb]

/-- `find_or_create` with at most `n` calls of itself: `none` where it would need more. -/
def findOrCreateWithin (mem : Allocator α) (varName : StdString) (rows cols : ℤ) :
    ℕ → MatLogger2 α → Option (Option (MatLogger2 α × Option (VariableBuffer α)))
  | n, s =>
    match s.find varName with
    | some vb => some (some (s, some vb))
    | none =>
      match s.create mem varName rows cols with
      | none => some none
      | some (s, false) => some (some (s, none))
      | some (s, true) =>
        match n with
        | 0 => none
        | n + 1 => findOrCreateWithin mem varName rows cols n s

/-- One call of itself is enough. -/
theorem findOrCreateWithin_one (s : MatLogger2 α) (mem : Allocator α) (name : StdString)
    (rows cols : ℤ) :
    findOrCreateWithin mem name rows cols 1 s = some (s.findOrCreate mem name rows cols) := by
  cases hf : s.find name with
  | some vb => simp only [findOrCreateWithin, hf, findOrCreate_found hf]
  | none =>
    rw [findOrCreate_unknown hf]
    cases hc : s.create mem name rows cols with
    | none => simp only [findOrCreateWithin, hf, hc, Option.map_none]
    | some r =>
      obtain ⟨s₁, ok⟩ := r
      cases ok with
      | false =>
        obtain rfl := create_false hc
        simp only [findOrCreateWithin, hf, hc, Option.map_some]
      | true =>
        obtain ⟨-, -, -, -, rfl⟩ := create_true hc
        obtain ⟨vb, hvb⟩ := Option.isSome_iff_exists.mp
          (s.find_emplace mem name rows.toNat cols.toNat (bufferSizeFor s.opt rows cols (-1)).toNat)
        simp only [findOrCreateWithin, hf, hc, hvb, Option.map_some]

theorem add_known (hf : s.find name = some vb) :
    s.add mem name data = some (s.update name (vb.addElem data).vb, some (vb.addElem data)) := by
  simp only [MatLogger2.add, findOrCreate_found hf]

theorem add_refused (hf : s.find name = none)
    (hc : ¬ s.Creates name (toInt data.rows) (toInt data.cols) (-1)) :
    s.add mem name data = some (s, none) := by
  simp only [MatLogger2.add, findOrCreate_unknown hf, create_refused hc, Option.map_some, hf]

/-- What `add` does for a name that it can create. -/
theorem add_creates (hc : s.Creates name (toInt data.rows) (toInt data.cols) (-1)) :
    s.add mem name data =
      if toInt data.rows * toInt data.cols ≥ 2 ^ 31 then none
      else (s.emplace mem name (toInt data.rows).toNat (toInt data.cols).toNat
        (bufferSizeFor s.opt (toInt data.rows) (toInt data.cols) (-1)).toNat).add mem name data := by
  obtain ⟨vb, hvb, -⟩ := s.emplace_find mem name (toInt data.rows).toNat (toInt data.cols).toNat
    (bufferSizeFor s.opt (toInt data.rows) (toInt data.cols) (-1)).toNat
  rw [add_known hvb, MatLogger2.add, findOrCreate_unknown hc.1, create_eq hc]
  split_ifs with hlt
  · rfl
  · simp only [Option.map_some, hvb]

/-! Which calls change nothing when they fail. -/

def Result.Failed : Result α → Prop
  | .created _ ok => ok = false
  | .refused _ _ => True
  | .added _ _ ret _ => ret = .ok false
  | .saved _ => False
  | .flushed _ => False

/-- For an unknown name, `add` succeeds when `create` would. -/
def AsCreate (s : MatLogger2 α) (rs : List (Result α)) : Op α → Prop
  | .add mem name data => s.find name = none →
    ((∃ discarded, rs = [.added name data (.ok true) discarded]) ↔
      ∃ s₁, s.create mem name (toInt data.rows) (toInt data.cols) = some (s₁, true))
  | _ => True

/-- The call comes to an end; one that fails changes nothing. -/
def Atomic (s : MatLogger2 α) (op : Op α) : Prop :=
  ∃ s' rs, s.call op = some (s', rs) ∧ ((∃ r ∈ rs, r.Failed) → s' = s) ∧ AsCreate s rs op

/-- Where a variable would be created, the size of its samples is an `int`. -/
def Fits (s : MatLogger2 α) : Op α → Prop
  | .create _ name rows cols bufferSize =>
    s.Creates name rows cols bufferSize → rows * cols < 2 ^ 31
  | .add _ name data =>
    s.Creates name (toInt data.rows) (toInt data.cols) (-1) → data.size < 2 ^ 31
  | _ => True

theorem atomic_create_iff : Atomic s (.create mem name rows cols bufferSize) ↔
    Fits s (.create mem name rows cols bufferSize) := by
  by_cases hc : s.Creates name rows cols bufferSize
  · have hcall : s.call (.create mem name rows cols bufferSize) =
        if rows * cols ≥ 2 ^ 31 then none
        else some (s.emplace mem name rows.toNat cols.toNat
          (bufferSizeFor s.opt rows cols bufferSize).toNat, [.created name true]) := by
      simp only [call, create_eq hc, apply_ite (Option.map _), Option.map_none, Option.map_some]
    have hfits : Fits s (.create mem name rows cols bufferSize) ↔ rows * cols < 2 ^ 31 :=
      ⟨fun h => h hc, fun h _ => h⟩
    rw [hfits, Atomic, hcall]
    split_ifs with hlt
    · constructor
      · rintro ⟨_, _, h, _⟩
        cases h
      · intro h
        exact absurd h (not_lt.mpr hlt)
    · refine ⟨fun _ => not_le.mp hlt, fun _ => ⟨_, _, rfl, ?_, trivial⟩⟩
      rintro ⟨r, hr, hfail⟩
      rw [List.mem_singleton.mp hr] at hfail
      cases hfail
  · have hcall : s.call (.create mem name rows cols bufferSize) = some (s, [.created name false]) := by
      simp only [call, create_refused hc, Option.map_some]
    exact ⟨fun _ h => absurd h hc, fun _ => ⟨s, _, hcall, fun _ => rfl, trivial⟩⟩

/-- A sample of a wrong size leaves the variable as it is. -/
theorem atomic_known (t : Tidy s.bufferMode s.vars) (hf : s.find name = some vb) :
    Atomic s (.add mem name data) := by
  refine ⟨s.update name (vb.addElem data).vb,
    [.added name data (vb.addElem data).ret (vb.addElem data).discarded], ?_, ?_, ?_⟩
  · simp only [call, add_known hf]
    rfl
  · rintro ⟨r, hr, hfail⟩
    rw [List.mem_singleton.mp hr] at hfail
    obtain ⟨b, hb, w⟩ := t.whole _ (mem_of_find hf)
    by_cases hsize : data.size = vb.rows * vb.cols
    · obtain ⟨hret, -⟩ := addElem_spec w hb hsize
      have hfail : (vb.addElem data).ret = .ok false := hfail
      rw [hret] at hfail
      cases hfail
    · rw [addElem_refused hsize]
      exact update_find t hf
  · intro hnone
    rw [hf] at hnone
    cases hnone

/-- Sizes that are positive as `int`s keep their product when it is an `int`. -/
theorem toInt_mul_eq_iff {r c : ℕ} (hr : 0 < toInt r) (hc : 0 < toInt c)
    (hlt : toInt r * toInt c < 2 ^ 31) :
    r * c = (toInt r).toNat * (toInt c).toNat ↔ r * c < 2 ^ 31 := by
  constructor
  · intro heq
    rw [heq]
    exact toNat_mul_lt hr hc hlt
  · intro hsize
    have hr0 : 0 < r := lt_of_lt_of_le (Int.pos_iff_toNat_pos.mp hr) (toNat_toInt_le r)
    have hc0 : 0 < c := lt_of_lt_of_le (Int.pos_iff_toNat_pos.mp hc) (toNat_toInt_le c)
    rw [toNat_toInt_eq_iff.mpr ((Nat.le_mul_of_pos_right r hc0).trans_lt hsize),
      toNat_toInt_eq_iff.mpr ((Nat.le_mul_of_pos_left c hr0).trans_lt hsize)]

theorem atomic_creates_iff
    (hc : s.Creates name (toInt data.rows) (toInt data.cols) (-1)) :
    Atomic s (.add mem name data) ↔ data.size < 2 ^ 31 := by
  obtain ⟨hf, hr, hcol, hb⟩ := hc
  by_cases hlt : toInt data.rows * toInt data.cols < 2 ^ 31
  · obtain ⟨vb, hvb, hrows, hcols, w, -⟩ := s.emplace_find mem name (toInt data.rows).toNat
      (toInt data.cols).toNat (bufferSizeFor s.opt (toInt data.rows) (toInt data.cols) (-1)).toNat
    have hcall : s.call (.add mem name data) =
        some ((s.emplace mem name (toInt data.rows).toNat (toInt data.cols).toNat
          (bufferSizeFor s.opt (toInt data.rows) (toInt data.cols) (-1)).toNat).update name
            (vb.addElem data).vb,
          [.added name data (vb.addElem data).ret (vb.addElem data).discarded]) := by
      simp only [call, add_creates ⟨hf, hr, hcol, hb⟩, if_neg (not_le.mpr hlt), add_known hvb]
      rfl
    have hiff := toInt_mul_eq_iff hr hcol hlt
    rw [← hrows, ← hcols] at hiff
    rw [Atomic, hcall]
    constructor
    · rintro ⟨s', rs, he, hkeep, -⟩
      by_contra hsize
      obtain ⟨rfl, rfl⟩ := Prod.mk.inj (Option.some.inj he)
      have hret := addElem_refused fun h => hsize (hiff.mp h)
      have heq := hkeep ⟨_, List.mem_singleton_self _, congrArg Outcome.ret hret⟩
      -- the variable is there now
      have hnew := find_eq_none.mp hf
      rw [← heq, update_keys] at hnew
      exact hnew List.mem_cons_self
    · intro hsize
      obtain ⟨hret, -⟩ := addElem_spec w (le_max_left 1 _) (hiff.mpr hsize)
      refine ⟨_, _, rfl, ?_, fun _ => ⟨fun _ => ?_, fun _ => ⟨_, by rw [hret]⟩⟩⟩
      · rintro ⟨r, hmem, hfail⟩
        rw [List.mem_singleton.mp hmem, Result.Failed, hret] at hfail
        cases hfail
      · exact exists_create_iff.mpr ⟨⟨hf, hr, hcol, hb⟩, hlt⟩
  · have hcall : s.call (.add mem name data) = none := by
      simp only [call, add_creates ⟨hf, hr, hcol, hb⟩, if_pos (not_lt.mp hlt)]
      rfl
    have hle : toInt data.rows * toInt data.cols ≤ data.size := by
      have := Nat.mul_le_mul (toNat_toInt_le data.rows) (toNat_toInt_le data.cols)
      calc toInt data.rows * toInt data.cols
          = ((toInt data.rows).toNat * (toInt data.cols).toNat : ℕ) := by
            rw [Nat.cast_mul, Int.toNat_of_nonneg hr.le, Int.toNat_of_nonneg hcol.le]
        _ ≤ data.size := by exact_mod_cast this
    rw [Atomic, hcall]
    constructor
    · rintro ⟨_, _, h, _⟩
      cases h
    · intro h
      omega

theorem atomic_iff (t : Tidy s.bufferMode s.vars) (op : Op α) : Atomic s op ↔ Fits s op := by
  cases op with
  | create mem name rows cols bufferSize => exact atomic_create_iff
  | add mem name data =>
    by_cases hc : s.Creates name (toInt data.rows) (toInt data.cols) (-1)
    · rw [atomic_creates_iff hc]
      exact ⟨fun h _ => h, fun h => h hc⟩
    · refine ⟨fun _ h => absurd h hc, fun _ => ?_⟩
      cases hf : s.find name with
      | some vb => exact atomic_known t hf
      | none =>
        have hcall : s.call (.add mem name data) = some (s, [.refused name data]) := by
          simp only [call, add_refused hf hc, Option.map_some]
          rfl
        refine ⟨s, _, hcall, fun _ => rfl, fun _ => ⟨fun h => ?_, fun h => ?_⟩⟩
        · obtain ⟨_, h⟩ := h
          cases h
        · exact absurd (exists_create_iff.mp h).1 hc
  | save varName varData =>
    exact ⟨fun _ => trivial, fun _ => ⟨_, _, rfl, by simp [Result.Failed], trivial⟩⟩
  | flushAvailableData =>
    exact ⟨fun _ => trivial, fun _ => ⟨_, _, rfl, by simp [Result.Failed], trivial⟩⟩
  | setBufferMode mode => exact ⟨fun _ => trivial, fun _ => ⟨_, _, rfl, by simp, trivial⟩⟩
  | setOnDataAvailableCallback callback =>
    exact ⟨fun _ => trivial, fun _ => ⟨_, _, rfl, by simp, trivial⟩⟩

/-! Which call has defined a variable. -/

structure Definition where
  rows : ℕ
  cols : ℕ
  blockSize : ℕ

/-- A call, and what it has done. -/
structure Done (α : Type) where
  before : MatLogger2 α
  op : Op α
  results : List (Result α)

def requested (opt : Options) (rows cols bufferSize : ℤ) : Definition :=
  ⟨rows.toNat, cols.toNat, max 1 ((bufferSizeFor opt rows cols bufferSize).toNat / NUM_BLOCKS)⟩

/-- A `create` that has succeeded, or an `add` that has found no variable of that name
and then had one, and what it has asked for. -/
def Done.defines (name : StdString) (d : Done α) : Option Definition :=
  match d.op, d.results with
  | .create _ varName rows cols bufferSize, [.created _ true] =>
    if varName = name then some (requested d.before.opt rows cols bufferSize) else none
  | .add _ varName data, [.added _ _ _ _] =>
    if varName = name ∧ d.before.find name = none then
      some (requested d.before.opt (toInt data.rows) (toInt data.cols) (-1))
    else none
  | _, _ => none

/-- What the first of these calls has asked for. -/
def defined (name : StdString) (tr : List (Done α)) : Option Definition :=
  tr.findSome? (Done.defines name)

/-- The variable is there exactly when some call has defined it, and is as defined. -/
def AsDefined (name : StdString) (d : Option Definition) (s : MatLogger2 α) : Prop :=
  match d with
  | none => s.find name = none
  | some d => 0 < d.blockSize ∧ Has name d.rows d.cols d.blockSize s

end MatLogger2

/-- The logger, where the events of a run are its calls. -/
def recordedLogger (α : Type) (opt : Options) : System (MatLogger2 α) (MatLogger2.Done α) where
  init s := s = MatLogger2.make opt
  step s ds s' := ∃ op rs s₁ vars, s.call op = some (s₁, rs) ∧ vars.Perm s₁.vars ∧
    s' = { s₁ with vars } ∧ ds = [⟨s, op, rs⟩]

namespace MatLogger2

variable {s s₁ s' : MatLogger2 α} {mem : Allocator α} {name : StdString}
variable {opt : Options} {hist : List (MatLogger2 α)} {tr : List (Done α)}

theorem recordedLogger_reachable (h : (recordedLogger α opt).Run hist tr s) :
    (logger α opt).Reachable s := by
  have hinit : ∀ s, (recordedLogger α opt).init s → (logger α opt).Reachable s :=
    fun s hs => ⟨[s], [], .start hs⟩
  refine h.inv (I := fun _ s => (logger α opt).Reachable s) hinit ?_
  rintro tr s ds s' ⟨hist', rs', hr⟩ ⟨op, rs, s₁, vars, hc, hp, rfl, -⟩
  exact ⟨_, _, hr.next ⟨op, s₁, vars, hc, hp, rfl⟩⟩

theorem defined_snoc (name : StdString) (tr : List (Done α)) (d : Done α) :
    defined name (tr ++ [d]) = (defined name tr).or (d.defines name) := by
  rw [defined, List.findSome?_append, List.findSome?_singleton]
  rfl

theorem AsDefined.perm {d : Option Definition} {vars : List (StdString × VariableBuffer α)}
    (h : AsDefined name d s) (hp : vars.Perm s.vars) : AsDefined name d { s with vars } := by
  cases d with
  | none => exact find_eq_none.mpr fun hm => find_eq_none.mp h ((hp.map Prod.fst).subset hm)
  | some d =>
    obtain ⟨hpos, vb, hm, hvb⟩ := h
    exact ⟨hpos, vb, hp.symm.subset hm, hvb⟩

theorem AsDefined.of_keys (h : s.find name = none)
    (hk : s'.vars.map Prod.fst = s.vars.map Prod.fst) : AsDefined name none s' :=
  find_eq_none.mpr (hk ▸ find_eq_none.mp h)

theorem flushAvailableData_keys (t : Tidy s.bufferMode s.vars) :
    (s.flushAvailableData).1.vars.map Prod.fst = s.vars.map Prod.fst := by
  have hv : (s.flushAvailableData).1.vars = (writeVars s.vars ⟨[], 0⟩).1 := rfl
  rw [hv]
  cases hm : s.bufferMode with
  | producerConsumer =>
    rw [hm] at t
    obtain ⟨vars', acc', he, hev, -⟩ := writeVars_spec t ⟨[], 0⟩
    rw [he, evolves_keys hev]
  | circularBuffer =>
    rw [hm] at t
    obtain ⟨what, he⟩ := writeVars_circular t ⟨[], 0⟩
    rw [he]

theorem emplace_asDefined (mem : Allocator α) (hf : s.find name = none) (varName : StdString)
    (rows cols bufferSize : ℕ) :
    AsDefined name
      (if varName = name then some ⟨rows, cols, max 1 (bufferSize / NUM_BLOCKS)⟩ else none)
      (s.emplace mem varName rows cols bufferSize) := by
  split_ifs with hn
  · subst hn
    exact ⟨le_max_left 1 _, emplace_has s mem varName rows cols bufferSize⟩
  · refine find_eq_none.mpr fun hm => ?_
    rcases List.mem_cons.mp hm with he | hm
    · exact hn he.symm
    · exact find_eq_none.mp hf hm

/-- A call on a logger without the variable defines it or leaves it out. -/
theorem call_defines (t : Tidy s.bufferMode s.vars) (hf : s.find name = none) {op : Op α}
    {rs : List (Result α)} (hc : s.call op = some (s', rs)) :
    AsDefined name (Done.defines name ⟨s, op, rs⟩) s' := by
  cases op with
  | create mem varName rows cols bufferSize =>
    obtain ⟨⟨s₁, ok⟩, hcreate, he⟩ := Option.map_eq_some_iff.mp hc
    cases he
    cases ok with
    | false =>
      obtain rfl := create_false hcreate
      exact hf
    | true =>
      obtain ⟨-, -, -, -, rfl⟩ := create_true hcreate
      exact emplace_asDefined _ hf varName _ _ _
  | add mem varName data =>
    obtain ⟨⟨s₁, r⟩, hadd, he⟩ := Option.map_eq_some_iff.mp hc
    cases he
    by_cases hcr : s.Creates varName (toInt data.rows) (toInt data.cols) (-1)
    · rw [add_creates hcr] at hadd
      split_ifs at hadd with hlt
      obtain ⟨vb, hvb, -, -, w, -⟩ := s.emplace_find mem varName (toInt data.rows).toNat
        (toInt data.cols).toNat (bufferSizeFor s.opt (toInt data.rows) (toInt data.cols) (-1)).toNat
      have hdef := emplace_asDefined mem hf varName (toInt data.rows).toNat
        (toInt data.cols).toNat (bufferSizeFor s.opt (toInt data.rows) (toInt data.cols) (-1)).toNat
      have t' := t.emplace mem hcr.1 (Int.pos_iff_toNat_pos.mp hcr.2.1)
        (Int.pos_iff_toNat_pos.mp hcr.2.2.1) (toNat_mul_lt hcr.2.1 hcr.2.2.1 (not_le.mp hlt))
        (bufferSizeFor s.opt (toInt data.rows) (toInt data.cols) (-1)).toNat
      rw [add_known hvb] at hadd
      cases hadd
      by_cases hn : varName = name
      · rw [if_pos hn] at hdef
        have hdefines : Done.defines name ⟨s, .add mem varName data,
            [addResult varName data (some (vb.addElem data))]⟩ =
              some (requested s.opt (toInt data.rows) (toInt data.cols) (-1)) :=
          if_pos ⟨hn, hf⟩
        rw [hdefines]
        exact ⟨hdef.1, hdef.2.addElem hdef.1 t' hvb data⟩
      · rw [if_neg hn] at hdef
        have hdefines : Done.defines name ⟨s, .add mem varName data,
            [addResult varName data (some (vb.addElem data))]⟩ = none :=
          if_neg fun h => hn h.1
        rw [hdefines]
        exact AsDefined.of_keys hdef (update_keys _ _ _)
    · cases hv : s.find varName with
      | none =>
        rw [add_refused hv hcr] at hadd
        cases hadd
        exact hf
      | some vb =>
        rw [add_known hv] at hadd
        cases hadd
        have hn : varName ≠ name := by
          rintro rfl
          rw [hf] at hv
          cases hv
        have hdefines : Done.defines name ⟨s, .add mem varName data,
            [addResult varName data (some (vb.addElem data))]⟩ = none :=
          if_neg fun h => hn h.1
        rw [hdefines]
        exact AsDefined.of_keys hf (update_keys _ _ _)
  | save varName varData => cases hc; exact hf
  | flushAvailableData => cases hc; exact AsDefined.of_keys hf (flushAvailableData_keys t)
  | setBufferMode mode =>
    cases hc
    exact AsDefined.of_keys hf (by simp [MatLogger2.setBufferMode])
  | setOnDataAvailableCallback callback =>
    cases hc
    exact AsDefined.of_keys hf (by simp [setOnDataAvailableCallback])

theorem AsDefined.call {d : Option Definition} (h : AsDefined name d s)
    (t : Tidy s.bufferMode s.vars) {op : Op α} {rs : List (Result α)}
    (hc : s.call op = some (s', rs)) :
    AsDefined name (d.or (Done.defines name ⟨s, op, rs⟩)) s' := by
  cases d with
  | none => exact call_defines t h hc
  | some d => exact ⟨h.1, h.2.call h.1 t hc⟩

theorem asDefined_run (h : (recordedLogger α opt).Run hist tr s) (name : StdString) :
    AsDefined name (defined name tr) s := by
  refine h.inv_hist (I := fun _ tr s => AsDefined name (defined name tr) s) ?_ ?_
  · rintro s rfl
    exact (rfl : (make opt : MatLogger2 α).find name = none)
  · rintro hist tr s ds s' hr ih ⟨op, rs, s₁, vars, hc, hp, rfl, rfl⟩
    rw [defined_snoc]
    exact (ih.call (reachable_tidy (recordedLogger_reachable hr)) hc).perm hp

/-- Over every run each name has one variable, as its first definition says; a call
changes nothing when it fails, and `add` succeeds on an unknown name when `create`
would, if and only if samples of the new variable have an `int` size; and
`find_or_create` calls itself once at most. -/
theorem definitions_iff (h : (recordedLogger α opt).Run hist tr s) :
    (s.vars.map Prod.fst).Nodup ∧ (∀ name, AsDefined name (defined name tr) s) ∧
      (∀ op, Atomic s op ↔ Fits s op) ∧
      ∀ mem name rows cols,
        findOrCreateWithin mem name rows cols 1 s = some (s.findOrCreate mem name rows cols) := by
  have t := reachable_tidy (recordedLogger_reachable h)
  exact ⟨t.nodup, asDefined_run h, atomic_iff t, findOrCreateWithin_one s⟩

/-- A new logger and a variable of two rows. -/
theorem definitions_iff_two :
    let tr : List (Done ℕ) :=
      [⟨make ⟨20, 20⟩, .create zeroed [120] 2 1 40, [.created [120] true]⟩]
    let s : MatLogger2 ℕ := (make ⟨20, 20⟩).emplace zeroed [120] 2 1 40
    (s.vars.map Prod.fst).Nodup ∧ (∀ name, AsDefined name (defined name tr) s) ∧
      (∀ op, Atomic s op ↔ Fits s op) ∧
      ∀ mem name rows cols,
        findOrCreateWithin mem name rows cols 1 s = some (s.findOrCreate mem name rows cols) := by
  intro tr s
  have hcreate := create_of_valid (s := (make ⟨20, 20⟩ : MatLogger2 ℕ)) zeroed
    (by norm_num : (0 : ℤ) < 2) one_pos (by norm_num : (0 : ℤ) < 40) (by norm_num)
    (rfl : find _ [120] = none)
  have hcall : (make ⟨20, 20⟩ : MatLogger2 ℕ).call (.create zeroed [120] 2 1 40) =
      some (s, [.created [120] true]) := by
    rw [call, hcreate]
    rfl
  have hstart : (recordedLogger ℕ ⟨20, 20⟩).Run [make ⟨20, 20⟩] [] (make ⟨20, 20⟩) := .start rfl
  exact definitions_iff (hstart.next ⟨_, _, s, s.vars, hcall, .refl _, rfl, rfl⟩)

/-- A sample of 2^32 + 1 rows is refused, and leaves a variable of one row behind. -/
theorem narrowed_add_creates :
    let s : MatLogger2 ℕ := make ⟨10000, 10485760⟩
    let data : Eigen.MatrixXd ℕ :=
      ⟨2 ^ 32 + 1, 1, List.replicate ((2 ^ 32 + 1) * 1) 0, List.length_replicate⟩
    ∃ s', s.call (.add zeroed [120] data) = some (s', [.added [120] data (.ok false) []]) ∧
      s.find [120] = none ∧ (s'.find [120]).isSome = true := by
  intro s data
  have hrows : toInt data.rows = 1 := by
    have h : toInt ((2 ^ 32 + 1 : ℕ) : ℤ) = 1 := by
      unfold toInt
      norm_num
    exact h
  have hcols : toInt data.cols = 1 := toInt_natCast (n := 1) (by norm_num)
  have hsize : bufferSizeFor s.opt 1 1 (-1) = 10000 := by
    have hbytes : toSize 10485760 / 8 / toSize 1 / toSize 1 = 1310720 := rfl
    show bufferSizeFor ⟨10000, 10485760⟩ 1 1 (-1) = 10000
    rw [bufferSizeFor, if_pos rfl, hbytes, toInt_natCast (by norm_num)]
    norm_num
  have hc : s.Creates [120] (toInt data.rows) (toInt data.cols) (-1) := by
    rw [hrows, hcols]
    exact ⟨rfl, one_pos, one_pos, by rw [hsize]; norm_num⟩
  have hadd : s.add zeroed [120] data = _ := add_creates hc
  rw [hrows, hcols, if_neg (by norm_num), hsize] at hadd
  obtain ⟨vb, hvb, hr, hc', -⟩ := s.emplace_find zeroed [120] 1 1 10000
  have hne : data.size ≠ vb.rows * vb.cols := by
    rw [hr, hc']
    have h : data.size = (2 ^ 32 + 1) * 1 := rfl
    omega
  have hadd := hadd.trans (add_known hvb)
  rw [addElem_refused hne] at hadd
  refine ⟨_, congrArg (Option.map _) hadd, rfl, ?_⟩
  rw [Option.isSome_iff_ne_none, ne_eq, find_eq_none, update_keys]
  exact fun h => h List.mem_cons_self

end MatLogger2
end XBot
