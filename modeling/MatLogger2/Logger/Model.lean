import MatLogger2.VarBuffer.Calls
import MatLogger2.MatData

/-! The logger: its variables, its queue of saved containers, and the calls that
it has made to its backend. `vars` lists the map in the order in which a loop
visits it. -/

namespace XBot

open VariableBuffer

variable {α : Type}

structure Options where
  defaultBufferSize : ℤ
  defaultBufferSizeMaxBytes : ℤ

/-- A call of the backend. `write` is given the address of `data`, and reads
`rows * cols * slices` elements from there. -/
inductive BackendCall (α : Type)
  | write (varName : StdString) (data : List α) (rows cols slices : ℤ)
  | writeContainer (name : StdString) (data : MatData α)

structure MatLogger2 (α : Type) where
  opt : Options
  vars : List (StdString × VariableBuffer α)
  bufferMode : Mode
  onBlockAvailable : Bool
  matdataQueue : List (StdString × MatData α)
  backend : List (BackendCall α)

/-- What the allocator may return for the blocks of a variable. -/
abbrev Allocator (α : Type) : Type := ∀ dim n : ℕ, BlockId → Memory α dim n

namespace MatLogger2

def make (opt : Options) : MatLogger2 α where
  opt := opt
  vars := []
  bufferMode := .producerConsumer
  onBlockAvailable := false
  matdataQueue := []
  backend := []

def find (s : MatLogger2 α) (name : StdString) : Option (VariableBuffer α) := s.vars.lookup name

/-- Give the variable of that name a new state. -/
def update (s : MatLogger2 α) (name : StdString) (vb : VariableBuffer α) : MatLogger2 α :=
  { s with vars := s.vars.map fun p => if p.1 = name then (p.1, vb) else p }

def setOnDataAvailableCallback (s : MatLogger2 α) (callback : Bool) : MatLogger2 α :=
  { s with
    vars := s.vars.map fun p => (p.1, p.2.setOnBlockAvailable callback)
    onBlockAvailable := callback }

def setBufferMode (s : MatLogger2 α) (mode : Mode) : MatLogger2 α :=
  { s with
    vars := s.vars.map fun p => (p.1, p.2.setBufferMode mode)
    bufferMode := mode }

/-- The size that `create` uses when the caller has given none (-1). -/
def bufferSizeFor (opt : Options) (rows cols bufferSize : ℤ) : ℤ :=
  if bufferSize = -1 then
    let maxBufSize := toInt (toSize opt.defaultBufferSizeMaxBytes / 8 / toSize rows / toSize cols : ℕ)
    min maxBufSize opt.defaultBufferSize
  else bufferSize

/-- Put a new variable into the map. -/
def emplace (s : MatLogger2 α) (mem : Allocator α) (varName : StdString)
    (rows cols bufferSize : ℕ) : MatLogger2 α :=
  let blockSize := max 1 (bufferSize / NUM_BLOCKS)
  let vb := VariableBuffer.make varName rows cols blockSize (le_max_left 1 _) (mem _ _)
  let vb := (vb.setOnBlockAvailable s.onBlockAvailable).setBufferMode s.bufferMode
  { s with vars := (varName, vb) :: s.vars }

/-- `none` stands for the overflow of the `int` product `dim_rows*dim_cols`, after
which nothing can be said. -/
def create (s : MatLogger2 α) (mem : Allocator α) (varName : StdString) (rows cols : ℤ)
    (bufferSize : ℤ := -1) : Option (MatLogger2 α × Bool) :=
  if rows = 0 ∨ cols = 0 then some (s, false)
  else
    let bufferSize := bufferSizeFor s.opt rows cols bufferSize
    if ¬(rows > 0 ∧ cols > 0 ∧ bufferSize > 0) then some (s, false)
    else
      match s.find varName with
      | some _ => some (s, false)
      | none =>
        if rows * cols ≥ 2 ^ 31 then none
        else some (s.emplace mem varName rows.toNat cols.toNat bufferSize.toNat, true)

theorem create_cases (s : MatLogger2 α) (mem : Allocator α) (varName : StdString)
    (rows cols bufferSize : ℤ) :
    s.create mem varName rows cols bufferSize = some (s, false) ∨
      (s.find varName = none ∧ 0 < rows ∧ 0 < cols ∧
        s.create mem varName rows cols bufferSize =
          if rows * cols ≥ 2 ^ 31 then none
          else some (s.emplace mem varName rows.toNat cols.toNat
            (bufferSizeFor s.opt rows cols bufferSize).toNat, true)) := by
  by_cases h0 : rows = 0 ∨ cols = 0
  · exact .inl (if_pos h0)
  by_cases hpos : rows > 0 ∧ cols > 0 ∧ bufferSizeFor s.opt rows cols bufferSize > 0
  · cases hf : s.find varName with
    | some vb => exact .inl (by simp only [create, h0, hpos, hf, not_true, and_self, if_false])
    | none =>
      refine .inr ⟨rfl, hpos.1, hpos.2.1, ?_⟩
      simp only [create, h0, hpos, hf, not_true, and_self, if_false]
  · exact .inl (by simp only [create, h0, hpos, not_false_iff, if_true, if_false])

/-- A variable is created under a new name. -/
theorem create_true {s s' : MatLogger2 α} {mem : Allocator α} {varName : StdString}
    {rows cols bufferSize : ℤ} (h : s.create mem varName rows cols bufferSize = some (s', true)) :
    s.find varName = none ∧ 0 < rows ∧ 0 < cols ∧ rows * cols < 2 ^ 31 ∧
      s' = s.emplace mem varName rows.toNat cols.toNat
        (bufferSizeFor s.opt rows cols bufferSize).toNat := by
  rcases s.create_cases mem varName rows cols bufferSize with he | ⟨hf, hr, hc, he⟩
  · rw [he] at h
    cases h
  · rw [he] at h
    split_ifs at h with hlt
    rw [Option.some.injEq, Prod.mk.injEq] at h
    exact ⟨hf, hr, hc, not_le.mp hlt, h.1.symm⟩

theorem create_false {s s' : MatLogger2 α} {mem : Allocator α} {varName : StdString}
    {rows cols bufferSize : ℤ} (h : s.create mem varName rows cols bufferSize = some (s', false)) :
    s' = s := by
  rcases s.create_cases mem varName rows cols bufferSize with he | ⟨hf, hr, hc, he⟩
  · rw [he] at h
    cases h
    rfl
  · rw [he] at h
    split_ifs at h with hlt
    cases h

theorem create_of_size {s : MatLogger2 α} (mem : Allocator α) {varName : StdString}
    {rows cols bufferSize : ℤ} (hr : 0 < rows) (hc : 0 < cols)
    (hb : 0 < bufferSizeFor s.opt rows cols bufferSize) (hlt : rows * cols < 2 ^ 31)
    (hf : s.find varName = none) :
    s.create mem varName rows cols bufferSize =
      some (s.emplace mem varName rows.toNat cols.toNat
        (bufferSizeFor s.opt rows cols bufferSize).toNat, true) := by
  have h0 : ¬(rows = 0 ∨ cols = 0) := by omega
  have hlt : ¬ rows * cols ≥ 2 ^ 31 := not_le.mpr hlt
  have hpos : rows > 0 ∧ cols > 0 ∧ bufferSizeFor s.opt rows cols bufferSize > 0 := ⟨hr, hc, hb⟩
  rw [create, if_neg h0]
  simp only [hpos, hf, hlt, and_self, not_true, if_false]

theorem create_of_valid {s : MatLogger2 α} (mem : Allocator α) {varName : StdString}
    {rows cols bufferSize : ℤ} (hr : 0 < rows) (hc : 0 < cols) (hb : 0 < bufferSize)
    (hlt : rows * cols < 2 ^ 31) (hf : s.find varName = none) :
    s.create mem varName rows cols bufferSize =
      some (s.emplace mem varName rows.toNat cols.toNat bufferSize.toNat, true) := by
  have hsize : bufferSizeFor s.opt rows cols bufferSize = bufferSize := if_neg (by omega)
  rw [create_of_size mem hr hc (by rwa [hsize]) hlt hf, hsize]

@[simp] theorem find_emplace (s : MatLogger2 α) (mem : Allocator α) (varName : StdString)
    (rows cols bufferSize : ℕ) :
    ((s.emplace mem varName rows cols bufferSize).find varName).isSome = true := by
  simp [find, emplace]

/-- Find the variable, or create it and look again. -/
def findOrCreate (s : MatLogger2 α) (mem : Allocator α) (varName : StdString) (rows cols : ℤ) :
    Option (MatLogger2 α × Option (VariableBuffer α)) :=
  match s.find varName with
  | some vb => some (s, some vb)
  | none =>
    match _h : s.create mem varName rows cols with
    | none => none
    | some (s, false) => some (s, none)
    | some (s, true) => s.findOrCreate mem varName rows cols
termination_by if (s.find varName).isSome then 0 else 1
decreasing_by
  obtain ⟨hnone, -, -, -, rfl⟩ := create_true _h
  rw [hnone, find_emplace]
  exact Nat.zero_lt_one

/-- The outcome of `add_elem`, or `none` where `find_or_create` returns null and `add`
returns false. -/
def add (s : MatLogger2 α) (mem : Allocator α) (varName : StdString) (data : Eigen.MatrixXd α) :
    Option (MatLogger2 α × Option (Outcome α)) :=
  match s.findOrCreate mem varName (toInt data.rows) (toInt data.cols) with
  | none => none
  | some (s, none) => some (s, none)
  | some (s, some vb) =>
    let r := vb.addElem data
    some (s.update varName r.vb, some r)

def save (s : MatLogger2 α) (varName : StdString) (varData : MatData α) : MatLogger2 α × Bool :=
  ({ s with matdataQueue := s.matdataQueue ++ [(varName, varData)] }, true)

/-- What a loop over the variables has done so far. -/
structure Written (α : Type) where
  calls : List (BackendCall α)
  bytes : ℤ

/-- The call of `write` for a block of `valid` samples. -/
def writeCall (vb : VariableBuffer α) (block : List (List α)) (valid : ℕ) : BackendCall α :=
  if vb.cols = 1 then .write vb.name block.flatten vb.rows valid 1
  else .write vb.name block.flatten vb.rows vb.cols valid

/-- The loop `while(read_block(block, valid_elems))` of one variable, and the
message of the exception if one is thrown. A block has as many rows as a sample
has elements. -/
def writeBlocks (vb : VariableBuffer α) (w : Written α) :
    VariableBuffer α × Written α × Option String :=
  match _h : vb.readBlock with
  | (vb', .error what) => (vb', w, some what)
  | (vb', .ok ⟨none, _⟩) => (vb', w, none)
  | (vb', .ok ⟨some block, valid⟩) =>
    if valid > 0 then
      writeBlocks vb'
        { calls := w.calls ++ [writeCall vb' block valid]
          bytes := toInt (w.bytes + vb.rows * vb.cols * valid * 8) }
    else (vb', w, none)
termination_by vb.queue.readQueue.content.length
decreasing_by
  have := VariableBuffer.readBlock_length _h
  omega

/-- The loop over all variables. -/
def writeVars : List (StdString × VariableBuffer α) → Written α →
    List (StdString × VariableBuffer α) × Written α × Option String
  | [], w => ([], w, none)
  | (name, vb) :: rest, w =>
    match writeBlocks vb w with
    | (vb, w, some what) => ((name, vb) :: rest, w, some what)
    | (vb, w, none) =>
      let (rest, w, what) := writeVars rest w
      ((name, vb) :: rest, w, what)

/-- `std::queue` is emptied from the front, one container after the other. -/
def flushAvailableData (s : MatLogger2 α) : MatLogger2 α × Except String ℤ :=
  let containers := s.matdataQueue.map fun p => BackendCall.writeContainer p.1 p.2
  let (vars, w, what) := writeVars s.vars ⟨[], 0⟩
  ({ s with vars, matdataQueue := [], backend := s.backend ++ containers ++ w.calls },
    match what with
    | some what => .error what
    | none => .ok w.bytes)

/-- The loop of `flush_to_queue_all`, from the value that `ret` has. -/
def flushVars : List (StdString × VariableBuffer α) → Bool →
    List (StdString × VariableBuffer α) × Except String Bool
  | [], ret => ([], .ok ret)
  | (name, vb) :: rest, ret =>
    let r := vb.flushToQueue
    match r.ret with
    | .error what => ((name, r.vb) :: rest, .error what)
    | .ok ok =>
      let (rest, all) := flushVars rest (ok && ret)
      ((name, r.vb) :: rest, all)

def flushToQueueAll (s : MatLogger2 α) : MatLogger2 α × Except String Bool :=
  let (vars, ret) := flushVars s.vars true
  ({ s with vars }, ret)

/-- `while(!flush_to_queue_all()) flush_available_data();`, for as many rounds as
`fuel` allows: `none` when it has not come to an end. -/
def flushLoop : ℕ → MatLogger2 α → Option (MatLogger2 α × Option String)
  | 0, _ => none
  | fuel + 1, s =>
    match s.flushToQueueAll with
    | (s, .error what) => some (s, some what)
    | (s, .ok true) => some (s, none)
    | (s, .ok false) =>
      match s.flushAvailableData with
      | (s, .error what) => some (s, some what)
      | (s, .ok _) => flushLoop fuel s

/-- `while(flush_available_data() > 0);`. -/
def drainLoop : ℕ → MatLogger2 α → Option (MatLogger2 α × Option String)
  | 0, _ => none
  | fuel + 1, s =>
    match s.flushAvailableData with
    | (s, .error what) => some (s, some what)
    | (s, .ok bytes) => if bytes > 0 then drainLoop fuel s else some (s, none)

/-- The destructor. An exception would end the program. -/
def destroy (fuel : ℕ) (s : MatLogger2 α) : Option (MatLogger2 α × Option String) :=
  let s := (s.setOnDataAvailableCallback false).setBufferMode .producerConsumer
  match s.flushLoop fuel with
  | none => none
  | some (s, some what) => some (s, some what)
  | some (s, none) => s.drainLoop fuel

end MatLogger2
end XBot
