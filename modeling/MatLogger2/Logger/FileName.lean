import MatLogger2.Eigen
import Mathlib.Data.List.DropRight

/-! The name of the file. The constructor takes the extension from the whole path,
split at its dots, and so from a directory when the file's own name has no dot. -/

/-- What follows the last separator; everything, if there is none. -/
def after (sep : UInt8) (s : StdString) : StdString := s.rtakeWhile (· ≠ sep)

section After

variable {sep : UInt8} {s t : StdString}

theorem notMem_after : sep ∉ after sep s := by
  intro h
  simpa using List.mem_rtakeWhile_imp h

theorem rtakeWhile_append {p : UInt8 → Bool} (h : ∀ c ∈ t, p c) :
    (s ++ t).rtakeWhile p = s.rtakeWhile p ++ t := by
  induction t using List.reverseRecOn with
  | nil => simp
  | append_singleton t x ih =>
    rw [List.forall_mem_append, List.forall_mem_singleton] at h
    rw [← List.append_assoc, List.rtakeWhile_concat_pos _ _ _ h.2, ih h.1, List.append_assoc]

theorem after_append (h : sep ∉ t) : after sep (s ++ t) = after sep s ++ t := by
  refine rtakeWhile_append fun c hc => decide_eq_true ?_
  rintro rfl
  exact h hc

theorem after_append_cons (h : sep ∉ t) : after sep (s ++ sep :: t) = t := by
  have hnil : after sep (s ++ [sep]) = [] := List.rtakeWhile_concat_neg _ _ _ (by simp)
  have hs : s ++ sep :: t = (s ++ [sep]) ++ t := by simp
  rw [hs, after_append h, hnil, List.nil_append]

theorem exists_before (h : sep ∈ s) : ∃ pre, s = pre ++ sep :: after sep s := by
  obtain ⟨post, pre, hs, hpost⟩ := List.eq_append_cons_of_mem (List.mem_reverse.mpr h)
  have he : s = pre.reverse ++ sep :: post.reverse := by
    rw [← s.reverse_reverse, hs]
    simp
  refine ⟨pre.reverse, ?_⟩
  have hafter : after sep s = post.reverse := by
    rw [he]
    exact after_append_cons fun hm => hpost (List.mem_reverse.mp hm)
  rw [hafter]
  exact he

theorem after_append_of_mem (h : sep ∈ t) : after sep (s ++ t) = after sep t := by
  obtain ⟨pre, ht⟩ := exists_before h
  have hs : s ++ t = (s ++ pre) ++ sep :: after sep t := by
    rw [List.append_assoc, ← ht]
  rw [hs, after_append_cons notMem_after]

theorem after_suffix : after sep s <:+ s := List.rtakeWhile_suffix _ _

end After

namespace XBot
namespace MatLogger2

/-- `mat`. -/
def mat : StdString := [109, 97, 116]

/-- `boost::split` at every dot, and the last of the tokens if there are several. -/
def getFileExtension (file : StdString) : StdString :=
  let tokenList := file.splitOn 46
  if tokenList.length > 1 then tokenList.getLast?.getD [] else []

/-- `std::to_string` of a counter. -/
def toDecimal (n : ℕ) : StdString :=
  if n = 0 then [48] else (Nat.digits 10 n).reverse.map fun d => UInt8.ofNat (48 + d)

/-- The file name that the constructor chooses and the counter that it leaves, or the
message of a `std::invalid_argument`. -/
def fileName (file : StdString) (loadFileFromPath : Bool) (counter : ℕ) (dateTime : StdString) :
    Except String (StdString × ℕ) :=
  let extension := getFileExtension file
  if extension = [] ∧ loadFileFromPath = false then
    .ok (file ++ ([95, 95] ++ toDecimal counter ++ [95] ++ dateTime ++ 46 :: mat), counter + 1)
  else if extension = [] ∧ loadFileFromPath = true then .ok (file ++ 46 :: mat, counter)
  else if extension ≠ mat then
    .error "MAT-file name should either have .mat         extension, or no extension at all"
  else .ok (file, counter)

variable {file : StdString} {load : Bool} {counter : ℕ} {dateTime : StdString}

theorem getFileExtension_of_notMem (h : 46 ∉ file) : getFileExtension file = [] := by
  rw [getFileExtension, List.splitOn_eq_singleton h]
  rfl

/-- The extension is what follows the last dot of the path. -/
theorem getFileExtension_of_mem (h : 46 ∈ file) : getFileExtension file = after 46 file := by
  obtain ⟨pre, hfile⟩ := exists_before h
  have hsplit : file.splitOn 46 = pre.splitOn 46 ++ [after 46 file] := by
    conv_lhs => rw [hfile]
    rw [List.splitOn_append_cons_self, List.splitOn_eq_singleton notMem_after]
  have hpos := List.length_pos_iff.mpr (List.splitOn_ne_nil 46 pre)
  rw [getFileExtension, hsplit, List.length_append, List.length_singleton, if_pos (by omega),
    List.getLast?_append]
  rfl

def lastComponent (file : StdString) : StdString := after 47 file

/-- What names are said to become, by their last component. -/
structure Classified (file : StdString) (load : Bool) (counter : ℕ) (dateTime : StdString) :
    Prop where
  bare : 46 ∉ lastComponent file → fileName file load counter dateTime = .ok
    (if load then (file ++ 46 :: mat, counter)
    else (file ++ ([95, 95] ++ toDecimal counter ++ [95] ++ dateTime ++ 46 :: mat), counter + 1))
  unchanged : 46 :: mat <:+ lastComponent file →
    fileName file load counter dateTime = .ok (file, counter)
  invalid : 46 ∈ lastComponent file → after 46 (lastComponent file) ≠ [] →
    after 46 (lastComponent file) ≠ mat → ∃ what, fileName file load counter dateTime = .error what
  ends : ∀ name counter', fileName file load counter dateTime = .ok (name, counter') →
    46 :: mat <:+ name

theorem fileName_bare (h : getFileExtension file = []) :
    fileName file load counter dateTime = .ok
      (if load then (file ++ 46 :: mat, counter)
      else (file ++ ([95, 95] ++ toDecimal counter ++ [95] ++ dateTime ++ 46 :: mat), counter + 1)) := by
  cases load <;> simp [fileName, h]

theorem fileName_mat (h : getFileExtension file = mat) :
    fileName file load counter dateTime = .ok (file, counter) := by
  simp [fileName, h, mat]

theorem fileName_invalid (load : Bool) (counter : ℕ) (dateTime : StdString)
    (h : getFileExtension file ≠ []) (hmat : getFileExtension file ≠ mat) :
    ∃ what, fileName file load counter dateTime = .error what := by
  simp [fileName, h, hmat]

/-- An extension of the last component is the extension of the path. -/
theorem getFileExtension_of_last (h : 46 ∈ lastComponent file) :
    getFileExtension file = after 46 (lastComponent file) := by
  obtain ⟨dir, hfile⟩ : lastComponent file <:+ file := after_suffix
  rw [getFileExtension_of_mem (after_suffix.subset h)]
  conv_lhs => rw [← hfile]
  exact after_append_of_mem h

/-- A dot in a directory gives an extension with a slash in it. -/
theorem getFileExtension_of_directory (h : 46 ∈ file) (hlast : 46 ∉ lastComponent file) :
    47 ∈ getFileExtension file := by
  obtain ⟨pre, hfile⟩ := exists_before h
  rw [getFileExtension_of_mem h]
  by_contra hslash
  have hcons : 47 ∉ (46 :: after 46 file : StdString) := by
    rw [List.mem_cons, not_or]
    exact ⟨by decide, hslash⟩
  rw [lastComponent, hfile, after_append hcons] at hlast
  exact hlast (by simp)

theorem fileName_ends {name : StdString} {counter' : ℕ}
    (h : fileName file load counter dateTime = .ok (name, counter')) : 46 :: mat <:+ name := by
  by_cases hnil : getFileExtension file = []
  · rw [fileName_bare hnil, Except.ok.injEq] at h
    cases load with
    | true =>
      cases h
      exact List.suffix_append file _
    | false =>
      cases h
      rw [← List.append_assoc]
      exact List.suffix_append _ _
  · by_cases hmat : getFileExtension file = mat
    · rw [fileName_mat hmat] at h
      cases h
      have hmem : 46 ∈ file := by
        by_contra hno
        exact hnil (getFileExtension_of_notMem hno)
      obtain ⟨pre, hfile⟩ := exists_before hmem
      rw [← getFileExtension_of_mem hmem, hmat] at hfile
      exact ⟨pre, hfile.symm⟩
    · obtain ⟨what, he⟩ := fileName_invalid load counter dateTime hnil hmat
      rw [he] at h
      cases h

/-- Names become what they should by their last component, unless that has no dot and
a directory has one. -/
theorem classified_iff (file : StdString) (load : Bool) (counter : ℕ) (dateTime : StdString) :
    Classified file load counter dateTime ↔ (46 ∉ lastComponent file → 46 ∉ file) := by
  constructor
  · intro h hlast hmem
    have hslash := getFileExtension_of_directory hmem hlast
    obtain ⟨what, he⟩ := fileName_invalid load counter dateTime
      (List.ne_nil_of_mem hslash) (by
        intro hmat
        rw [hmat] at hslash
        exact absurd hslash (by decide))
    rw [h.bare hlast] at he
    cases he
  · intro h
    refine ⟨fun hlast => fileName_bare (getFileExtension_of_notMem (h hlast)), fun hmat => ?_,
      fun hlast hnil hmat => ?_, fun name counter' => fileName_ends⟩
    · obtain ⟨pre, hpre⟩ := hmat
      have hlast : 46 ∈ lastComponent file := by
        rw [← hpre]
        simp
      refine fileName_mat ?_
      rw [getFileExtension_of_last hlast, ← hpre]
      exact after_append_cons (by decide)
    · rw [← getFileExtension_of_last hlast] at hnil hmat
      exact fileName_invalid load counter dateTime hnil hmat

/-- `./log` has no extension, and is refused for having one other than `mat`. -/
theorem dot_directory_refused : 46 ∉ lastComponent [46, 47, 108, 111, 103] ∧
    fileName [46, 47, 108, 111, 103] false 0 [] =
      .error "MAT-file name should either have .mat         extension, or no extension at all" ∧
    ¬ Classified [46, 47, 108, 111, 103] false 0 [] := by
  refine ⟨by decide, by decide, fun h => ?_⟩
  have he := h.bare (by decide)
  exact absurd he (by decide)

end MatLogger2
end XBot
