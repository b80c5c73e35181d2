import MatLogger2.Lib.Utf16
import MatLogger2.Matio.File

/-! Text in UTF-8, as the library counts and converts it: a character is skipped by
its first byte alone. The count of bytes is right if the count of characters is. -/

namespace Matio

/-- The memory from `i` on starts with the bytes `s`. -/
def Holds (mem : ℕ → UInt8) (i : ℕ) (s : StdString) : Prop :=
  ∀ j (h : j < s.length), mem (i + j) = s[j]

theorem Holds.append {mem : ℕ → UInt8} {i : ℕ} {s t : StdString} (h : Holds mem i (s ++ t)) :
    Holds mem i s ∧ Holds mem (i + s.length) t := by
  constructor
  · intro j hj
    rw [h j (by rw [List.length_append]; omega), List.getElem_append_left hj]
  · intro j hj
    rw [Nat.add_assoc, h (s.length + j) (by rw [List.length_append]; omega),
      List.getElem_append_right (by omega)]
    simp

theorem Holds.head {mem : ℕ → UInt8} {i : ℕ} {c : UInt8} {s : StdString}
    (h : Holds mem i (c :: s)) : mem i = c :=
  h 0 (by simp)

/-- All bytes are characters of their own. -/
def Ascii (s : StdString) : Prop := ∀ c ∈ s, c ≤ 0x7F

instance (s : StdString) : Decidable (Ascii s) := inferInstanceAs (Decidable (∀ c ∈ s, c ≤ 0x7F))

/-! The bytes of a character, by its number of them. -/

theorem one_byte : ∀ n < 128, UInt8.ofNat n ≤ 0x7F ∧ utf8Step (UInt8.ofNat n) = 1 ∧
    (UInt8.ofNat n).toUInt16.toNat = n := by
  decide

theorem first_of_two : ∀ n < 32, let c := UInt8.ofNat (n + 192)
    utf8Step c = 2 ∧ ¬ c ≤ 0x7F ∧ c < 0xE0 ∧ (c &&& 0x1F).toUInt16.toNat = n := by
  decide

theorem first_of_three : ∀ n < 16, let c := UInt8.ofNat (n + 224)
    utf8Step c = 3 ∧ ¬ c ≤ 0x7F ∧ ¬ c < 0xE0 ∧ c &&& 0xF0 = 0xE0 ∧
      (c &&& 0xF).toUInt16.toNat = n := by
  decide

theorem first_of_four : ∀ n < 8, let c := UInt8.ofNat (n + 240)
    utf8Step c = 4 ∧ ¬ c ≤ 0x7F := by
  decide

/-- A byte after the first, as a whole and cut in two. -/
theorem next_byte : ∀ n < 64, let c := UInt8.ofNat (n + 128)
    (c &&& 0x3F).toUInt16.toNat = n ∧
      ((c &&& 0x3C).toUInt16 >>> 2).toNat = n / 4 ∧ (c &&& 0x3).toUInt16.toNat = n % 4 ∧
      ((c &&& 0x30).toUInt16 >>> 4).toNat = n / 16 ∧ (c &&& 0xF).toUInt16.toNat = n % 16 := by
  decide

theorem toNat_ofNat {v : ℕ} (h : v < 2 ^ 16) : (UInt16.ofNat v).toNat = v :=
  UInt16.toNat_ofNat_of_lt' h

/-- Bits that are put together are added. -/
theorem toNat_shiftLeft_or {a b : UInt16} {k m n : ℕ} (hk : k < 16) (ha : a.toNat = m)
    (hb : b.toNat = n) (hm : m * 2 ^ k < 2 ^ 16) (hn : n < 2 ^ k) :
    (a <<< UInt16.ofNat k ||| b).toNat = m * 2 ^ k + n := by
  have hk' : (UInt16.ofNat k).toNat % 16 = k := by
    rw [toNat_ofNat (by omega)]
    omega
  rw [UInt16.toNat_or, UInt16.toNat_shiftLeft, hk', ha, hb, Nat.shiftLeft_eq, Nat.mod_eq_of_lt hm,
    ← Nat.shiftLeft_eq, ← Nat.shiftLeft_add_eq_or_of_lt hn, Nat.shiftLeft_eq]

theorem unit_of_two {v : ℕ} (hv : v ≤ 0x7FF) :
    (UInt8.ofNat (v / 64 % 32 + 192) &&& 0x1F).toUInt16 <<< 6 |||
      (UInt8.ofNat (v % 64 + 128) &&& 0x3F).toUInt16 = UInt16.ofNat v := by
  obtain ⟨-, -, -, ha⟩ := first_of_two (v / 64 % 32) (Nat.mod_lt _ (by norm_num))
  obtain ⟨hb, -⟩ := next_byte (v % 64) (Nat.mod_lt _ (by norm_num))
  apply UInt16.toNat_inj.mp
  rw [toNat_ofNat (by omega)]
  refine (toNat_shiftLeft_or (k := 6) (by norm_num) ha hb (by omega) (by omega)).trans ?_
  omega

theorem unit_of_three {v : ℕ} (hv : v ≤ 0xFFFF) :
    (UInt8.ofNat (v / 4096 % 16 + 224) &&& 0xF).toUInt16 <<< 12 |||
      (UInt8.ofNat (v / 64 % 64 + 128) &&& 0x3C).toUInt16 >>> 2 <<< 8 |||
      (UInt8.ofNat (v / 64 % 64 + 128) &&& 0x3).toUInt16 <<< 6 |||
      (UInt8.ofNat (v % 64 + 128) &&& 0x30).toUInt16 >>> 4 <<< 4 |||
      (UInt8.ofNat (v % 64 + 128) &&& 0xF).toUInt16 = UInt16.ofNat v := by
  obtain ⟨-, -, -, -, ha⟩ := first_of_three (v / 4096 % 16) (Nat.mod_lt _ (by norm_num))
  obtain ⟨-, hb, hd, -⟩ := next_byte (v / 64 % 64) (Nat.mod_lt _ (by norm_num))
  obtain ⟨-, -, -, he, hf⟩ := next_byte (v % 64) (Nat.mod_lt _ (by norm_num))
  apply UInt16.toNat_inj.mp
  -- from the right: four, two, four bits, and what is above them
  have hef := toNat_shiftLeft_or (k := 4) (by norm_num) he hf (by omega) (by omega)
  have hdef := toNat_shiftLeft_or (k := 6) (by norm_num) hd hef (by omega) (by omega)
  have hbdef := toNat_shiftLeft_or (k := 8) (by norm_num) hb hdef (by omega) (by omega)
  have hall := toNat_shiftLeft_or (k := 12) (by norm_num) ha hbdef (by omega) (by omega)
  rw [toNat_ofNat (by omega), UInt16.or_assoc, UInt16.or_assoc, UInt16.or_assoc]
  refine hall.trans ?_
  omega

/-- The first byte of a character says how many there are. -/
theorem utf8Step_encode {c : Char} {b : UInt8} {bs : StdString}
    (h : String.utf8EncodeChar c = b :: bs) : utf8Step b = (b :: bs).length := by
  unfold String.utf8EncodeChar at h
  simp only at h
  split_ifs at h with h1 h2 h3
  · cases h
    have hlt : c.val.toNat < 128 := by omega
    exact (one_byte _ hlt).2.1
  · cases h
    exact (first_of_two _ (Nat.mod_lt _ (by norm_num))).1
  · cases h
    exact (first_of_three _ (Nat.mod_lt _ (by norm_num))).1
  · cases h
    exact (first_of_four _ (Nat.mod_lt _ (by norm_num))).1

theorem utf8Nbytes_add (mem : ℕ → UInt8) (m n k : ℕ) :
    utf8Nbytes mem (m + n) k = utf8Nbytes mem n (utf8Nbytes mem m k) := by
  induction m generalizing k with
  | zero => rw [Nat.zero_add, utf8Nbytes]
  | succ m ih => rw [Nat.succ_add, utf8Nbytes, ih, utf8Nbytes]

/-- As many characters as a text has take as many bytes as it has. -/
theorem utf8Nbytes_text {mem : ℕ → UInt8} {i : ℕ} {cs : List Char}
    (h : Holds mem i (cs.flatMap String.utf8EncodeChar)) :
    utf8Nbytes mem cs.length i = i + (cs.flatMap String.utf8EncodeChar).length := by
  induction cs generalizing i with
  | nil => simp [utf8Nbytes]
  | cons c cs ih =>
    rw [List.flatMap_cons] at h
    obtain ⟨hc, hcs⟩ := h.append
    obtain ⟨b, bs, hb⟩ := List.exists_cons_of_ne_nil (String.utf8EncodeChar_ne_nil (c := c))
    have hstep := utf8Step_encode hb
    rw [hb] at hc hcs
    rw [List.length_cons, utf8Nbytes, hc.head, hstep, ih hcs, List.flatMap_cons, List.length_append,
      hb, Nat.add_assoc]

/-- One character is one unit. -/
theorem units_char {c : Char} (hc : c.val.toNat ≤ 0xFFFF) {mem : ℕ → UInt8} {i nbytes : ℕ}
    (h : Holds mem i (String.utf8EncodeChar c))
    (hle : i + (String.utf8EncodeChar c).length ≤ nbytes) :
    units mem nbytes i = (units mem nbytes (i + (String.utf8EncodeChar c).length)).map
      (UInt16.ofNat c.val.toNat :: ·) := by
  unfold String.utf8EncodeChar at h hle ⊢
  simp only at h hle ⊢
  split_ifs at h hle ⊢ with h1 h2
  · simp only [List.length_cons, List.length_nil] at hle ⊢
    obtain ⟨hone, -, hunit⟩ := one_byte c.val.toNat (by omega)
    have h0 : mem i = UInt8.ofNat c.val.toNat := h.head
    have hu : (UInt8.ofNat c.val.toNat).toUInt16 = UInt16.ofNat c.val.toNat := by
      apply UInt16.toNat_inj.mp
      rw [hunit, toNat_ofNat (by omega)]
    rw [units, if_pos (by omega)]
    simp only [h0, hone, if_true, hu]
  · simp only [List.length_cons, List.length_nil] at hle ⊢
    obtain ⟨-, hone, htwo, -⟩ := first_of_two (c.val.toNat / 64 % 32) (Nat.mod_lt _ (by norm_num))
    have h0 := h 0 (by simp)
    have h1 := h 1 (by simp)
    rw [Nat.add_zero, List.getElem_cons_zero] at h0
    rw [List.getElem_cons_succ, List.getElem_cons_zero] at h1
    have hlt : i + 1 < nbytes := by omega
    rw [units, if_pos (by omega)]
    simp only [h0, h1, hone, htwo, hlt, and_self, if_true, if_false, unit_of_two h2]
  · simp only [List.length_cons, List.length_nil] at hle ⊢
    obtain ⟨-, hone, htwo, hthree, -⟩ :=
      first_of_three (c.val.toNat / 4096 % 16) (Nat.mod_lt _ (by norm_num))
    have h0 := h 0 (by simp)
    have h1 := h 1 (by simp)
    have h2 := h 2 (by simp)
    rw [Nat.add_zero, List.getElem_cons_zero] at h0
    rw [List.getElem_cons_succ, List.getElem_cons_zero] at h1
    rw [List.getElem_cons_succ, List.getElem_cons_succ, List.getElem_cons_zero] at h2
    have hlt : i + 2 < nbytes := by omega
    rw [units, if_pos (by omega)]
    simp only [h0, h1, h2, hone, htwo, hthree, hlt, false_and, and_self, if_true, if_false,
      unit_of_three hc]

/-- A text is converted character by character. -/
theorem units_text {mem : ℕ → UInt8} {i n : ℕ} {cs : List Char}
    (hcs : ∀ c ∈ cs, c.val.toNat ≤ 0xFFFF) (h : Holds mem i (cs.flatMap String.utf8EncodeChar))
    (hle : i + (cs.flatMap String.utf8EncodeChar).length ≤ n) :
    units mem n i = (units mem n (i + (cs.flatMap String.utf8EncodeChar).length)).map
      (Utf16.ofChars cs ++ ·) := by
  induction cs generalizing i with
  | nil => simp [Utf16.ofChars]
  | cons c cs ih =>
    rw [List.flatMap_cons] at h
    rw [List.flatMap_cons, List.length_append] at hle
    obtain ⟨hc, hrest⟩ := h.append
    rw [units_char (hcs c List.mem_cons_self) hc (by omega),
      ih (fun d hd => hcs d (List.mem_cons_of_mem c hd)) hrest (by omega), Option.map_map,
      List.flatMap_cons, List.length_append, Nat.add_assoc]
    rfl

theorem le_utf8Nbytes (mem : ℕ → UInt8) (n k : ℕ) : k ≤ utf8Nbytes mem n k := by
  induction n generalizing k with
  | zero => rw [utf8Nbytes]
  | succ n ih =>
    have := ih (k + utf8Step (mem k))
    rw [utf8Nbytes]
    omega

/-- The text ends within the bytes of as many characters as it has bytes. -/
theorem length_lt_utf8Nbytes {mem : ℕ → UInt8} {cs : List Char}
    (h : Holds mem 0 (cs.flatMap String.utf8EncodeChar))
    (hnul : mem (cs.flatMap String.utf8EncodeChar).length = 0)
    (hlt : cs.length < (cs.flatMap String.utf8EncodeChar).length) :
    (cs.flatMap String.utf8EncodeChar).length <
      utf8Nbytes mem (cs.flatMap String.utf8EncodeChar).length 0 := by
  set n := (cs.flatMap String.utf8EncodeChar).length
  obtain ⟨k, hk⟩ : ∃ k, n = cs.length + (k + 1) := ⟨n - cs.length - 1, by omega⟩
  have hstep : utf8Step 0 = 1 := by decide
  have hcount : utf8Nbytes mem n 0 = utf8Nbytes mem k (n + 1) := by
    conv_lhs => rw [hk]
    rw [utf8Nbytes_add, utf8Nbytes_text h, Nat.zero_add, utf8Nbytes, hnul, hstep]
  have := le_utf8Nbytes mem k (n + 1)
  omega

/-! A text has as many bytes as characters if and only if all of them are ASCII. -/

theorem length_encode_pos (c : Char) : 0 < (String.utf8EncodeChar c).length :=
  List.length_pos_iff.mpr String.utf8EncodeChar_ne_nil

theorem ascii_encode_iff (c : Char) :
    Ascii (String.utf8EncodeChar c) ↔ (String.utf8EncodeChar c).length = 1 := by
  unfold String.utf8EncodeChar
  simp only
  split_ifs with h1 h2 h3
  · have := (one_byte c.val.toNat (by omega)).1
    simpa [Ascii] using this
  · have := (first_of_two (c.val.toNat / 64 % 32) (Nat.mod_lt _ (by norm_num))).2.1
    exact iff_of_false (fun h => this (h _ List.mem_cons_self)) (by simp)
  · have := (first_of_three (c.val.toNat / 4096 % 16) (Nat.mod_lt _ (by norm_num))).2.1
    exact iff_of_false (fun h => this (h _ List.mem_cons_self)) (by simp)
  · have := (first_of_four (c.val.toNat / 262144 % 8) (Nat.mod_lt _ (by norm_num))).2
    exact iff_of_false (fun h => this (h _ List.mem_cons_self)) (by simp)

theorem length_le_encode (cs : List Char) :
    cs.length ≤ (cs.flatMap String.utf8EncodeChar).length := by
  induction cs with
  | nil => exact le_rfl
  | cons c cs ih =>
    have := length_encode_pos c
    rw [List.flatMap_cons, List.length_append, List.length_cons]
    omega

theorem ascii_iff_length (cs : List Char) :
    Ascii (cs.flatMap String.utf8EncodeChar) ↔
      (cs.flatMap String.utf8EncodeChar).length = cs.length := by
  induction cs with
  | nil => simp [Ascii]
  | cons c cs ih =>
    have hpos := length_encode_pos c
    have hle := length_le_encode cs
    have happ : Ascii (String.utf8EncodeChar c ++ cs.flatMap String.utf8EncodeChar) ↔
        Ascii (String.utf8EncodeChar c) ∧ Ascii (cs.flatMap String.utf8EncodeChar) :=
      List.forall_mem_append
    rw [List.flatMap_cons, happ, ascii_encode_iff, ih, List.length_append, List.length_cons]
    omega

/-- ASCII text is UTF-8. -/
theorem Ascii.exists_chars {s : StdString} (h : Ascii s) :
    ∃ cs : List Char, cs.flatMap String.utf8EncodeChar = s ∧ cs.length = s.length ∧
      ∀ c ∈ cs, c.val.toNat ≤ 0xFFFF := by
  have hbyte : ∀ n < 128, String.utf8EncodeChar (Char.ofNat n) = [UInt8.ofNat n] ∧
      (Char.ofNat n).val.toNat ≤ 0xFFFF := by
    decide
  have hlt : ∀ c ∈ s, c.toNat < 128 := fun c hc =>
    Nat.lt_succ_of_le (UInt8.le_iff_toNat_le.mp (h c hc))
  refine ⟨s.map fun c => Char.ofNat c.toNat, ?_, List.length_map _, ?_⟩
  · rw [List.flatMap_map]
    refine (List.flatMap_congr fun c hc => ?_).trans (List.flatMap_singleton' s)
    rw [(hbyte c.toNat (hlt c hc)).1, UInt8.ofNat_toNat]
  · simp only [List.forall_mem_map]
    exact fun c hc => (hbyte c.toNat (hlt c hc)).2

end Matio
