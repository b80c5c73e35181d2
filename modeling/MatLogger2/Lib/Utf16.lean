import Mathlib.Tactic

/-! Text as units of 16 bits. -/

namespace Utf16

def isHigh (u : UInt16) : Bool := 0xD800 ≤ u && u < 0xDC00

def isLow (u : UInt16) : Bool := 0xDC00 ≤ u && u < 0xE000

/-- The character of two surrogates. -/
def pair (hi lo : UInt16) : Char :=
  Char.ofNat (0x10000 + (hi.toNat - 0xD800) * 0x400 + (lo.toNat - 0xDC00))

/-- The characters of a text, or `none` where a surrogate has no partner. -/
def decode : List UInt16 → Option (List Char)
  | [] => some []
  | u :: us =>
    if isHigh u then
      match us with
      | [] => none
      | lo :: us => if isLow lo then (decode us).map (pair u lo :: ·) else none
    else if isLow u then none
    else (decode us).map (Char.ofNat u.toNat :: ·)

/-- Conversion to UTF-8. -/
def toUtf8 (units : List UInt16) : Option (List UInt8) :=
  (decode units).map fun cs => cs.flatMap String.utf8EncodeChar

/-- The three bytes of a surrogate without a partner, in generalised UTF-8. -/
def lone (u : UInt16) : List UInt8 :=
  [(0xE0 : UInt8) ||| (u >>> 12).toUInt8, (0x80 : UInt8) ||| ((u >>> 6).toUInt8 &&& 0x3F),
    (0x80 : UInt8) ||| (u.toUInt8 &&& 0x3F)]

/-- The units without the first half of a character at their end, for which a converter waits. -/
def complete (us : List UInt16) : List UInt16 :=
  if us.getLast?.any isHigh then us.dropLast else us

/-- Generalised UTF-8, which any units have. -/
def toWtf8 : List UInt16 → List UInt8
  | [] => []
  | u :: us =>
    if isHigh u then
      match us with
      | [] => lone u
      | lo :: us' =>
        if isLow lo then String.utf8EncodeChar (pair u lo) ++ toWtf8 us'
        else lone u ++ toWtf8 (lo :: us')
    else if isLow u then lone u ++ toWtf8 us
    else String.utf8EncodeChar (Char.ofNat u.toNat) ++ toWtf8 us

theorem decode_cons {u : UInt16} (hh : isHigh u = false) (hl : isLow u = false)
    (us : List UInt16) : decode (u :: us) = (decode us).map (Char.ofNat u.toNat :: ·) := by
  rw [decode.eq_def]
  simp only [hh, hl, Bool.false_eq_true, if_false]

/-- Characters that are not beyond 16 bits, as units. -/
def ofChars (cs : List Char) : List UInt16 := cs.map fun c => UInt16.ofNat c.val.toNat

@[simp] theorem length_ofChars (cs : List Char) : (ofChars cs).length = cs.length :=
  List.length_map _

/-- A character is no surrogate. -/
theorem unit_of_char {c : Char} (hc : c.val.toNat ≤ 0xFFFF) :
    (UInt16.ofNat c.val.toNat).toNat = c.val.toNat ∧ isHigh (UInt16.ofNat c.val.toNat) = false ∧
      isLow (UInt16.ofNat c.val.toNat) = false := by
  have hval : (UInt16.ofNat c.val.toNat).toNat = c.val.toNat :=
    UInt16.toNat_ofNat_of_lt' (Nat.lt_succ_of_le hc)
  have hvalid : c.val.toNat < 0xD800 ∨ 0xDFFF < c.val.toNat ∧ c.val.toNat < 0x110000 := c.valid
  refine ⟨hval, ?_, ?_⟩
  · rw [isHigh, Bool.and_eq_false_iff]
    simp only [decide_eq_false_iff_not, UInt16.le_iff_toNat_le, UInt16.lt_iff_toNat_lt, hval,
      UInt16.reduceToNat]
    omega
  · rw [isLow, Bool.and_eq_false_iff]
    simp only [decide_eq_false_iff_not, UInt16.le_iff_toNat_le, UInt16.lt_iff_toNat_lt, hval,
      UInt16.reduceToNat]
    omega

theorem decode_units {cs : List Char} (hcs : ∀ c ∈ cs, c.val.toNat ≤ 0xFFFF) (us : List UInt16) :
    decode (ofChars cs ++ us) = (decode us).map (cs ++ ·) := by
  induction cs with
  | nil => simp [ofChars]
  | cons c cs ih =>
    obtain ⟨hval, hh, hl⟩ := unit_of_char (hcs c List.mem_cons_self)
    rw [ofChars, List.map_cons, List.cons_append, decode_cons hh hl, ← ofChars,
      ih fun d hd => hcs d (List.mem_cons_of_mem c hd), hval, Option.map_map]
    have hc : Char.ofNat c.val.toNat = c := Char.ofNat_toNat c
    rw [hc]
    rfl

theorem toUtf8_units {cs : List Char} (hcs : ∀ c ∈ cs, c.val.toNat ≤ 0xFFFF) (us : List UInt16) :
    toUtf8 (ofChars cs ++ us) =
      (toUtf8 us).map (cs.flatMap String.utf8EncodeChar ++ ·) := by
  rw [toUtf8, decode_units hcs, toUtf8, Option.map_map, Option.map_map]
  refine congrArg (Option.map · _) (funext fun ds => ?_)
  exact List.flatMap_append

/-! What a converter holds back at the end. -/

theorem complete_prefix (us : List UInt16) : complete us <+: us := by
  unfold complete
  split_ifs
  · exact List.dropLast_prefix us
  · exact List.prefix_refl us

theorem complete_cons_cons (u v : UInt16) (us : List UInt16) :
    complete (u :: v :: us) = u :: complete (v :: us) := by
  unfold complete
  rw [List.getLast?_cons_cons]
  split_ifs <;> rfl

theorem complete_cons {u : UInt16} (hh : isHigh u = false) (us : List UInt16) :
    complete (u :: us) = u :: complete us := by
  cases us with
  | nil => simp [complete, hh]
  | cons v us => exact complete_cons_cons u v us

theorem complete_units {cs : List Char} (hcs : ∀ c ∈ cs, c.val.toNat ≤ 0xFFFF) (us : List UInt16) :
    complete (ofChars cs ++ us) = ofChars cs ++ complete us := by
  induction cs with
  | nil => rfl
  | cons c cs ih =>
    have hunit := (unit_of_char (hcs c List.mem_cons_self)).2.1
    rw [ofChars, List.map_cons, List.cons_append, complete_cons hunit, ← ofChars,
      ih fun d hd => hcs d (List.mem_cons_of_mem c hd), List.cons_append]

theorem isHigh_of_isLow {u : UInt16} (h : isLow u = true) : isHigh u = false := by
  rw [isLow, Bool.and_eq_true, decide_eq_true_iff] at h
  rw [isHigh, Bool.and_eq_false_iff]
  exact .inr (decide_eq_false (UInt16.not_lt.mpr h.1))

/-- Text that is well formed is so up to any unit, but for half a character. -/
theorem decode_complete_take {us : List UInt16} (h : (decode us).isSome) (n : ℕ) :
    (decode (complete (us.take n))).isSome := by
  induction us using decode.induct generalizing n with
  | case1 =>
    rw [List.take_nil]
    rfl
  | case2 u hh =>
    rw [decode] at h
    simp [hh] at h
  | case3 u hh lo us hl ih =>
    rw [decode, if_pos hh] at h
    simp only [hl, if_true, Option.isSome_map] at h
    match n with
    | 0 => rfl
    | 1 =>
      have hone : complete [u] = [] := by simp [complete, hh]
      rw [List.take_succ_cons, List.take_zero, hone]
      rfl
    | n + 2 =>
      rw [List.take_succ_cons, List.take_succ_cons, complete_cons_cons,
        complete_cons (isHigh_of_isLow hl), decode, if_pos hh]
      simp only [hl, if_true, Option.isSome_map]
      exact ih h n
  | case4 u hh lo us hl =>
    rw [decode, if_pos hh] at h
    simp [hl] at h
  | case5 u us hh hl =>
    rw [decode.eq_def] at h
    simp [hh, hl] at h
  | case6 u us hh hl ih =>
    have hh : isHigh u = false := by simpa using hh
    have hl : isLow u = false := by simpa using hl
    rw [decode_cons hh hl, Option.isSome_map] at h
    cases n with
    | zero => rfl
    | succ n =>
      rw [List.take_succ_cons, complete_cons hh, decode_cons hh hl, Option.isSome_map]
      exact ih h n

theorem toWtf8_ne_nil {us : List UInt16} (h : us ≠ []) : toWtf8 us ≠ [] := by
  cases us with
  | nil => exact absurd rfl h
  | cons u us =>
    have happ : ∀ (c : Char) (bs : List UInt8), String.utf8EncodeChar c ++ bs ≠ [] := fun c bs hnil =>
      String.utf8EncodeChar_ne_nil (List.append_eq_nil_iff.mp hnil).1
    rw [toWtf8.eq_def]
    simp only
    split_ifs
    · split
      · simp [lone]
      · split_ifs
        · exact happ _ _
        · simp [lone]
    · simp [lone]
    · exact happ _ _

/-- Well-formed text at the start has its own UTF-8. -/
theorem toWtf8_append {us : List UInt16} {s : List UInt8} (h : toUtf8 us = some s)
    (vs : List UInt16) : toWtf8 (us ++ vs) = s ++ toWtf8 vs := by
  obtain ⟨cs, hcs, rfl⟩ := Option.map_eq_some_iff.mp h
  clear h
  induction us using decode.induct generalizing cs with
  | case1 =>
    rw [decode] at hcs
    cases hcs
    rfl
  | case2 u hh =>
    rw [decode] at hcs
    simp [hh] at hcs
  | case3 u hh lo us hl ih =>
    rw [decode, if_pos hh] at hcs
    simp only [hl, if_true, Option.map_eq_some_iff] at hcs
    obtain ⟨ds, hds, rfl⟩ := hcs
    rw [List.cons_append, List.cons_append, toWtf8]
    simp only [hh, hl, if_true, ih ds hds, List.flatMap_cons, List.append_assoc]
  | case4 u hh lo us hl =>
    rw [decode, if_pos hh] at hcs
    simp [hl] at hcs
  | case5 u us hh hl =>
    rw [decode.eq_def] at hcs
    simp [hh, hl] at hcs
  | case6 u us hh hl ih =>
    rw [decode_cons (by simpa using hh) (by simpa using hl), Option.map_eq_some_iff] at hcs
    obtain ⟨ds, hds, rfl⟩ := hcs
    rw [List.cons_append, toWtf8.eq_def]
    simp only [hh, hl, ih ds hds, List.flatMap_cons, List.append_assoc]
    simp

end Utf16
