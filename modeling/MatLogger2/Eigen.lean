import Mathlib.Tactic

/-! What the logger uses of `Eigen::MatrixXd`, and of the machine integers. The
element type stands for `double`; nothing here computes with its values. -/

/-- The value of an `int` after a conversion from a wider type. -/
@[irreducible] def toInt (x : ℤ) : ℤ := (x + 2 ^ 31) % 2 ^ 32 - 2 ^ 31

theorem toInt_range (x : ℤ) : -2 ^ 31 ≤ toInt x ∧ toInt x < 2 ^ 31 := by
  unfold toInt
  omega

/-- An `int` keeps its value. -/
theorem toInt_eq {x : ℤ} (h : -2 ^ 31 ≤ x) (h' : x < 2 ^ 31) : toInt x = x := by
  unfold toInt
  omega

theorem toInt_natCast {n : ℕ} (h : n < 2 ^ 31) : toInt n = n :=
  toInt_eq (by omega) (by omega)

/-- No conversion makes a size larger. -/
theorem natAbs_toInt_le (n : ℕ) : (toInt n).natAbs ≤ n := by
  unfold toInt
  omega

theorem toNat_toInt_le (n : ℕ) : (toInt n).toNat ≤ n := by
  have := natAbs_toInt_le n
  omega

theorem toNat_toInt_eq_iff {n : ℕ} : (toInt n).toNat = n ↔ n < 2 ^ 31 := by
  have hrange := toInt_range n
  constructor
  · intro heq
    omega
  · intro hlt
    rw [toInt_natCast hlt, Int.toNat_natCast]

/-- Only one size keeps its magnitude as a negative number. -/
theorem toInt_of_neg {n : ℕ} (hneg : toInt n < 0) (habs : (toInt n).natAbs = n) :
    toInt n = -2 ^ 31 := by
  unfold toInt at *
  omega

theorem toInt_toInt_add (x y : ℤ) : toInt (toInt x + y) = toInt (x + y) := by
  unfold toInt
  omega

/-- The value of a `size_t` after a conversion from a signed type. -/
def toSize (x : ℤ) : ℕ := (x % 2 ^ 64).toNat

/-- A `std::string`: any bytes, also NUL. -/
abbrev StdString := List UInt8

namespace Eigen

/-- A matrix, column by column in `data`. -/
structure MatrixXd (α : Type) where
  rows : ℕ
  cols : ℕ
  data : List α
  length_data : data.length = rows * cols

namespace MatrixXd

variable {α : Type}

def size (m : MatrixXd α) : ℕ := m.rows * m.cols

/-- The matrix that `Eigen::Map` shows at the start of `mem`, if it is long enough. -/
def map (mem : List α) (rows cols : ℕ) : Option (MatrixXd α) :=
  if h : rows * cols ≤ mem.length then
    some ⟨rows, cols, mem.take (rows * cols), by simpa using h⟩
  else none

/-- `k` columns from column `j` on. -/
def middleCols (m : MatrixXd α) (j k : ℕ) : List α := (m.data.drop (j * m.rows)).take (k * m.rows)

theorem ext' {m m' : MatrixXd α} (hr : m.rows = m'.rows) (hc : m.cols = m'.cols)
    (hd : m.data = m'.data) : m = m' := by
  obtain ⟨_, _, _, _⟩ := m
  obtain ⟨_, _, _, _⟩ := m'
  simp_all

theorem map_data (m : MatrixXd α) : map m.data m.rows m.cols = some m := by
  have h : m.rows * m.cols ≤ m.data.length := m.length_data.ge
  simp only [map, h, ↓reduceDIte]
  exact congrArg some (ext' rfl rfl (List.take_of_length_le m.length_data.le))

/-- The coefficient at row `i` and column `j`. -/
def coeff (m : MatrixXd α) (i j : ℕ) : Option α :=
  if i < m.rows ∧ j < m.cols then m.data[i + j * m.rows]? else none

/-- The matrix of the coefficients after a conversion. -/
def cast {β : Type} (f : β → α) (m : MatrixXd β) : MatrixXd α :=
  ⟨m.rows, m.cols, m.data.map f, by rw [List.length_map, m.length_data]⟩

theorem coeff_cast {β : Type} (f : β → α) (m : MatrixXd β) (i j : ℕ) :
    (m.cast f).coeff i j = (m.coeff i j).map f := by
  unfold coeff cast
  split_ifs <;> simp

theorem coeff_eq (m : MatrixXd α) {i j : ℕ} (hi : i < m.rows) (hj : j < m.cols) :
    m.coeff i j = m.data[i + j * m.rows]? := if_pos ⟨hi, hj⟩

/-- The place of a coefficient is inside the matrix. -/
theorem index_lt {rows cols i j : ℕ} (hi : i < rows) (hj : j < cols) :
    i + j * rows < rows * cols := by
  calc i + j * rows
      < rows + j * rows := by omega
    _ = (j + 1) * rows := by ring
    _ ≤ cols * rows := Nat.mul_le_mul_right rows hj
    _ = rows * cols := Nat.mul_comm ..

theorem coeff_isSome (m : MatrixXd α) {i j : ℕ} (hi : i < m.rows) (hj : j < m.cols) :
    ∃ x, m.coeff i j = some x := by
  rw [m.coeff_eq hi hj]
  exact ⟨_, List.getElem?_eq_getElem (by rw [m.length_data]; exact index_lt hi hj)⟩

end MatrixXd
end Eigen
