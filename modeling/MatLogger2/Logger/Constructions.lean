import MatLogger2.Logger.FileName
import MatLogger2.Lib.Transition
import MatLogger2.Matio.Matvar

/-! The files of the loggers that one process constructs, one after the other. Their
names have the value of a counter between two parts that are free; since the part
after it has a fixed length and the part before it ends in no digit, the names tell
the counter. -/

namespace XBot
namespace MatLogger2

open Transition

def isDigit (c : UInt8) : Bool := 48 ≤ c ∧ c ≤ 57

theorem digit_spec {d : ℕ} (h : d < 10) :
    isDigit (UInt8.ofNat (48 + d)) = true ∧ (UInt8.ofNat (48 + d)).toNat - 48 = d := by
  have hall : ∀ d < 10, isDigit (UInt8.ofNat (48 + d)) = true ∧
      (UInt8.ofNat (48 + d)).toNat - 48 = d := by decide
  exact hall d h

theorem isDigit_toDecimal (n : ℕ) : ∀ c ∈ toDecimal n, isDigit c := by
  unfold toDecimal
  split_ifs with h
  · simp only [List.forall_mem_singleton]
    decide
  · intro c hc
    obtain ⟨d, hd, rfl⟩ := List.mem_map.mp hc
    exact (digit_spec (Nat.digits_lt_base (by norm_num) (List.mem_reverse.mp hd))).1

/-- The digits tell the number. -/
theorem ofDigits_toDecimal (n : ℕ) :
    Nat.ofDigits 10 ((toDecimal n).map fun c => c.toNat - 48).reverse = n := by
  unfold toDecimal
  split_ifs with h
  · rw [h]
    decide
  · have hdigits : ((Nat.digits 10 n).reverse.map fun d => UInt8.ofNat (48 + d)).map
        (fun c => c.toNat - 48) = (Nat.digits 10 n).reverse := by
      rw [List.map_map]
      refine (List.map_congr_left fun d hd => ?_).trans (List.map_id _)
      exact (digit_spec (Nat.digits_lt_base (by norm_num) (List.mem_reverse.mp hd))).2
    rw [hdigits, List.reverse_reverse, Nat.ofDigits_digits]

theorem toDecimal_injective : Function.Injective toDecimal := by
  intro n m h
  rw [← ofDigits_toDecimal n, h, ofDigits_toDecimal]

/-- The name that is made of a path without extension. -/
def generated (file : StdString) (counter : ℕ) (dateTime : StdString) : StdString :=
  file ++ ([95, 95] ++ toDecimal counter ++ [95] ++ dateTime ++ 46 :: mat)

/-- Equal names have been made with the same counter. -/
theorem generated_counter {file file' dateTime dateTime' : StdString} {k k' : ℕ}
    (hlen : dateTime.length = dateTime'.length)
    (h : generated file k dateTime = generated file' k' dateTime') : k = k' := by
  have hparts : ∀ (f d : StdString) (n : ℕ), generated f n d =
      ((f ++ [95]) ++ [95] ++ toDecimal n) ++ ([95] ++ d ++ 46 :: mat) := by
    intro f d n
    simp [generated]
  have hdigits : ∀ (f : StdString) (n : ℕ),
      ((f ++ [95]) ++ [95] ++ toDecimal n).rtakeWhile isDigit = toDecimal n := by
    intro f n
    rw [rtakeWhile_append (isDigit_toDecimal n), List.rtakeWhile_concat_neg _ _ _ (by decide),
      List.nil_append]
  rw [hparts, hparts] at h
  obtain ⟨hfront, -⟩ := List.append_inj' h (by simp [hlen])
  have hdec := congrArg (List.rtakeWhile isDigit) hfront
  rw [hdigits, hdigits] at hdec
  exact toDecimal_injective hdec

/-- The counter, and the logger whose file is found at a path. -/
structure Process where
  counter : ℕ
  disk : StdString → Option StdString

/-- The constructor, without load mode: `init` removes what is found at the path and
creates the logger's own file there. -/
def Process.construct (s : Process) (file dateTime : StdString) :
    Except String (Process × StdString) :=
  match fileName file false s.counter dateTime with
  | .error what => .error what
  | .ok (name, counter) => .ok (⟨counter, Function.update s.disk (cstr name) (some name)⟩, name)

/-- Constructions from paths without extension; `strftime` gives 20 characters. -/
def constructions : System Process StdString where
  init s := s = ⟨0, fun _ => none⟩
  step s names s' := ∃ file dateTime name, getFileExtension file = [] ∧ dateTime.length = 20 ∧
    s.construct file dateTime = .ok (s', name) ∧ names = [name]

variable {s s' : Process} {file dateTime name : StdString}

theorem construct_eq (h : getFileExtension file = []) :
    s.construct file dateTime = .ok (⟨s.counter + 1, Function.update s.disk
      (cstr (generated file s.counter dateTime)) (some (generated file s.counter dateTime))⟩,
      generated file s.counter dateTime) := by
  rw [Process.construct, fileName_bare h]
  rfl

/-- The names so far, and the files that are there. -/
structure Named (names : List StdString) (s : Process) : Prop where
  count : names.length = s.counter
  made : ∀ name ∈ names, ∃ file k dateTime, k < s.counter ∧ dateTime.length = 20 ∧
    name = generated file k dateTime
  nodup : names.Nodup
  kept : (∀ name ∈ names, 0 ∉ name) → ∀ name ∈ names, s.disk (cstr name) = some name

theorem Named.construct {names : List StdString} (n : Named names s)
    (h : getFileExtension file = []) (hlen : dateTime.length = 20)
    (hc : s.construct file dateTime = .ok (s', name)) : Named (names ++ [name]) s' := by
  rw [construct_eq h] at hc
  cases hc
  have hnew : generated file s.counter dateTime ∉ names := by
    intro hm
    obtain ⟨file', k, dateTime', hk, hlen', he⟩ := n.made _ hm
    have := generated_counter (hlen.trans hlen'.symm) he
    omega
  refine ⟨by rw [List.length_append, n.count]; rfl, fun name hm => ?_, ?_, fun hnul name hm => ?_⟩
  · rcases List.mem_append.mp hm with hm | hm
    · obtain ⟨file', k, dateTime', hk, hlen', he⟩ := n.made _ hm
      exact ⟨file', k, dateTime', Nat.lt_succ_of_lt hk, hlen', he⟩
    · exact ⟨file, s.counter, dateTime, Nat.lt_succ_self _, hlen, List.mem_singleton.mp hm⟩
  · exact n.nodup.append (List.nodup_singleton _) (List.disjoint_singleton.mpr hnew)
  · rw [List.forall_mem_append, List.forall_mem_singleton] at hnul
    show Function.update s.disk _ _ (cstr name) = some name
    rcases List.mem_append.mp hm with hm | hm
    · -- another name is another path, as neither has a NUL
      have hne : cstr name ≠ cstr (generated file s.counter dateTime) := by
        rw [cstr_of_notMem (hnul.1 name hm), cstr_of_notMem hnul.2]
        rintro rfl
        exact hnew hm
      rw [Function.update_of_ne hne]
      exact n.kept hnul.1 name hm
    · rw [List.mem_singleton.mp hm, Function.update_self]

theorem named_run {hist : List Process} {names : List StdString}
    (h : constructions.Run hist names s) : Named names s := by
  refine h.inv (I := Named) ?_ ?_
  · rintro s rfl
    exact ⟨rfl, nofun, .nil, nofun⟩
  · rintro names s es s' n ⟨file, dateTime, name, hext, hlen, hc, rfl⟩
    exact n.construct hext hlen hc

/-- Fewer than 2^31 constructions get different names, and no one removes the file of
another. -/
theorem names_distinct {hist : List Process} {names : List StdString}
    (h : constructions.Run hist names s) (hlt : names.length < 2 ^ 31) :
    s.counter < 2 ^ 31 ∧ names.Nodup ∧
      ((∀ name ∈ names, 0 ∉ name) → ∀ name ∈ names, s.disk (cstr name) = some name) := by
  have n := named_run h
  exact ⟨n.count ▸ hlt, n.nodup, n.kept⟩

/-- Two loggers for the path `a` at the same time. -/
theorem names_distinct_two : ∃ hist names s, constructions.Run hist names s ∧
    names = [generated [97] 0 (List.replicate 20 48), generated [97] 1 (List.replicate 20 48)] ∧
    names.Nodup ∧ ∀ name ∈ names, s.disk (cstr name) = some name := by
  have hext : getFileExtension [97] = [] := getFileExtension_of_notMem (by decide)
  have hstart : constructions.Run [⟨0, fun _ => none⟩] [] ⟨0, fun _ => none⟩ := .start rfl
  have hone := hstart.next ⟨[97], List.replicate 20 48, _, hext, rfl, construct_eq hext, rfl⟩
  have htwo := hone.next ⟨[97], List.replicate 20 48, _, hext, rfl, construct_eq hext, rfl⟩
  obtain ⟨-, hnodup, hkept⟩ := names_distinct htwo (by decide)
  exact ⟨_, _, _, htwo, rfl, hnodup, hkept (by decide)⟩

end MatLogger2
end XBot
