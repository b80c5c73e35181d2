import MatLogger2.Backend.Codec
import MatLogger2.Backend.Model
import MatLogger2.Matio.Text

/-! A string, written to a file and read back. The encoder gives its bytes as a
number of characters: the library takes more bytes than there are, and more comes
back, unless each byte is a character. -/

namespace XBot

open Matio

variable {α : Type}

namespace MatioBackend

/-- The bytes that the char array of a text takes as its own. -/
def claimedBytes (heap : Heap) (s : StdString) : ℕ := utf8Nbytes (heap.bytes s) s.length 0

theorem makeMatvar_text (heap : Heap) (name s : StdString) :
    makeMatvar (α := α) heap name (.text s) =
      .char (cstr name) [1, s.length] (claimedBytes heap s)
        (.utf8 (heap.bytes s) (s.length + 1)) := by
  rw [makeMatvar, createText, Matvar.createText, claimedBytes]
  simp

/-- Saved under a name, the text is read back as it was. -/
def TextBack [Zero α] (lib : Library α) (heap : Heap) (s : MatioBackend α) (name text : StdString) :
    Prop :=
  ∃ s', s.writeContainer lib heap name (.text text) = (s', true) ∧
    ∀ matdata, s'.readContainer name matdata = .value (true, .text text)

theorem holds_text (heap : Heap) (s : StdString) : Holds (heap.bytes s) 0 s := by
  intro j hj
  rw [Nat.zero_add, heap.own s j hj]

/-- The bytes of a text, and the NUL after it. -/
theorem holds_nul (heap : Heap) (s : StdString) : Holds (heap.bytes s) 0 (s ++ [0]) := by
  intro j hj
  rw [Nat.zero_add]
  rcases Nat.lt_or_ge j s.length with hlt | hge
  · rw [heap.own s j hlt, List.getElem_append_left hlt]
  · have hj' : j = s.length := by
      rw [List.length_append, List.length_singleton] at hj
      omega
    subst hj'
    rw [heap.nul, List.getElem_append_right (Nat.le_refl _)]
    simp

section Back

variable (heap : Heap) {cs : List Char}

theorem claimedBytes_le_iff :
    claimedBytes heap (cs.flatMap String.utf8EncodeChar) ≤
      (cs.flatMap String.utf8EncodeChar).length ↔ Ascii (cs.flatMap String.utf8EncodeChar) := by
  have hholds := holds_text heap (cs.flatMap String.utf8EncodeChar)
  rw [ascii_iff_length, claimedBytes]
  constructor
  · intro hle
    by_contra hne
    have hlt := (length_le_encode cs).lt_of_ne (Ne.symm hne)
    exact hle.not_gt (length_lt_utf8Nbytes hholds (heap.nul _) hlt)
  · intro heq
    have hcount := utf8Nbytes_text hholds
    rw [← heq, Nat.zero_add] at hcount
    exact hcount.le

/-- ASCII text is stored as it is, a unit for each byte. -/
theorem stored_units (name : StdString) {s : StdString} (h : Ascii s) :
    ∃ us, (makeMatvar (α := α) heap name (.text s)).stored =
        some (.char (cstr name) [1, s.length] (2 * s.length) (.uint16 us)) ∧
      (us.getD []).length = s.length ∧ Utf16.complete (us.getD []) = us.getD [] ∧
      Utf16.toUtf8 (us.getD []) = some s ∧ (us = none ↔ s = []) := by
  by_cases hnil : s = []
  · subst hnil
    refine ⟨none, ?_, rfl, rfl, rfl, iff_of_true rfl rfl⟩
    rw [makeMatvar_text, Matvar.stored]
    simp
  · obtain ⟨cs, hcs, hlen, hbmp⟩ := h.exists_chars
    have hpos := List.length_pos_iff.mpr hnil
    have hholds := holds_text heap s
    have hclaim : claimedBytes heap s = s.length := by
      have hcount := utf8Nbytes_text (hcs ▸ hholds : Holds (heap.bytes s) 0 (cs.flatMap _))
      rw [hcs, hlen, Nat.zero_add] at hcount
      exact hcount
    have hunits : units (heap.bytes s) s.length 0 =
        some (Utf16.ofChars cs) := by
      rw [units_text hbmp (hcs ▸ hholds) (by rw [hcs, Nat.zero_add]), hcs, Nat.zero_add, units,
        if_neg (Nat.lt_irrefl _)]
      simp
    have hutf8 := Utf16.toUtf8_units hbmp []
    have hwhole := Utf16.complete_units hbmp []
    have hnone : Utf16.complete [] = [] := rfl
    rw [List.append_nil] at hutf8
    rw [List.append_nil, hnone, List.append_nil] at hwhole
    refine ⟨some (Utf16.ofChars cs), ?_, by rw [Option.getD_some, Utf16.length_ofChars, hlen], hwhole,
      ?_, iff_of_false (Option.some_ne_none _) hnil⟩
    · rw [makeMatvar_text, Matvar.stored, hclaim, hunits]
      have hprod : [1, s.length].prod = s.length := by simp
      rw [hprod, if_neg (by omega), Option.map_some, Utf16.length_ofChars, hlen, Nat.sub_self,
        List.replicate_zero, List.append_nil,
        List.take_of_length_le (by rw [Utf16.length_ofChars, hlen])]
    · rw [Option.getD_some, hutf8]
      simp [Utf16.toUtf8, Utf16.decode, hcs]

/-- A text that is written without an error is stored. -/
theorem stored_of_written (lib : Library α) {b b' : MatioBackend α} {f : MatFile α}
    (hopen : b.matFile = some f) {name s : StdString} (hfree : f.Free name)
    (h : b.writeContainer lib heap name (.text s) = (b', true)) :
    ∃ m : Matvar α, (makeMatvar heap (cstr name) (.text s)).stored = some m := by
  have hname : (makeMatvar heap (cstr name) (.text s : MatData α)).nameOf = cstr name := by
    rw [nameOf_makeMatvar, cstr_cstr]
  have hno : (makeMatvar (α := α) heap (cstr name) (.text s)).noError lib = true := by
    simp only [writeContainer, hopen, MatFile.write, hname, hfree.2] at h
    split at h <;> exact (Prod.mk.inj h).2
  rw [makeMatvar_text, Matvar.noError, Bool.or_eq_true, decide_eq_true_iff] at hno
  rw [makeMatvar_text, Matvar.stored]
  split_ifs with hprod
  · exact ⟨_, rfl⟩
  · obtain ⟨us, hus⟩ := Option.isSome_iff_exists.mp (hno.resolve_left hprod)
    rw [hus]
    exact ⟨_, rfl⟩

section Stored

variable [Zero α]

theorem makeMatdata_units (name : StdString) (n nbytes : ℕ) (us : Option (List UInt16))
    (matdata : MatData α) :
    makeMatdata (.char name [1, n] nbytes (.uint16 us)) matdata =
      (readUnits us n).bind fun s => .value (true, .text s) := by
  rw [makeMatdata]
  simp only [makeScalarMatdata, List.getD_cons_zero, List.getD_cons_succ, ne_eq, not_true,
    if_false]

/-- ASCII text is decoded as it was; only the empty text has no data. -/
theorem stored_ascii (name : StdString) {s : StdString} (h : Ascii s) :
    ∃ m : Matvar α, (makeMatvar heap name (.text s)).stored = some m ∧
      (∀ matdata, makeMatdata m matdata = .value (true, .text s)) ∧ (m.noData = true ↔ s = []) := by
  obtain ⟨us, hstored, hlen, hwhole, hutf8, hnone⟩ := stored_units (α := α) heap name h
  refine ⟨_, hstored, fun matdata => ?_, ?_⟩
  · rw [makeMatdata_units, readUnits, if_pos hlen.ge, List.take_of_length_le hlen.le, hwhole, hutf8]
    rfl
  · rw [← hnone]
    simp [Matvar.noData]

/-- Text that is not ASCII is not decoded as it was: it goes on after its end. -/
theorem stored_not_ascii (name : StdString) (hbmp : ∀ c ∈ cs, c.val.toNat ≤ 0xFFFF)
    (h : ¬ Ascii (cs.flatMap String.utf8EncodeChar)) {m : Matvar α}
    (hm : (makeMatvar heap name (.text (cs.flatMap String.utf8EncodeChar))).stored = some m)
    (matdata : MatData α) :
    makeMatdata m matdata ≠ .value (true, .text (cs.flatMap String.utf8EncodeChar)) := by
  have hholds := holds_nul heap (cs.flatMap String.utf8EncodeChar)
  have hclaim := lt_of_not_ge (mt (claimedBytes_le_iff heap).mp h)
  rw [ascii_iff_length] at h
  have hlt := (length_le_encode cs).lt_of_ne (Ne.symm h)
  rw [makeMatvar_text] at hm
  set s := cs.flatMap String.utf8EncodeChar with hs
  have hnul : String.utf8EncodeChar (Char.ofNat 0) = [0] := by decide
  have hs' : (cs ++ [Char.ofNat 0]).flatMap String.utf8EncodeChar = s ++ [0] := by
    rw [List.flatMap_append, List.flatMap_singleton, hnul]
  have hbmp' : ∀ c ∈ cs ++ [Char.ofNat 0], c.val.toNat ≤ 0xFFFF := by
    intro c hc
    rcases List.mem_append.mp hc with hc | hc
    · exact hbmp c hc
    · rw [List.mem_singleton.mp hc]
      decide
  -- the NUL is read too
  have hunits := units_text (n := claimedBytes heap s) hbmp' (hs' ▸ hholds)
    (by rw [hs', List.length_append, List.length_singleton]; omega)
  have hprod : [1, s.length].prod = s.length := by simp
  rw [Matvar.stored, hprod, if_neg (by omega), hunits, Option.map_map, Option.map_eq_some_iff] at hm
  obtain ⟨us, -, rfl⟩ := hm
  intro hback
  simp only [Function.comp_apply] at hback
  rw [makeMatdata_units, Exec.bind_eq_value] at hback
  obtain ⟨t, ht, hback⟩ := hback
  injection hback with hback
  injection hback with _ hback
  injection hback with hback
  subst hback
  obtain ⟨rest, hrest⟩ : ∃ rest, (Utf16.ofChars (cs ++ [Char.ofNat 0]) ++
      us ++ List.replicate (s.length - (Utf16.ofChars
        (cs ++ [Char.ofNat 0]) ++ us).length) 0).take s.length =
      Utf16.ofChars (cs ++ [Char.ofNat 0]) ++ rest := by
    rw [List.append_assoc, List.take_append, List.take_of_length_le (by simpa using hlt)]
    exact ⟨_, rfl⟩
  obtain ⟨-, hutf8⟩ := toUtf8_of_readUnits ht
  rw [Option.getD_some, List.take_take, Nat.min_self, hrest, Utf16.complete_units hbmp',
    Utf16.toUtf8_units hbmp', hs', Option.map_eq_some_iff] at hutf8
  obtain ⟨u, -, hu⟩ := hutf8
  have := congrArg List.length hu
  simp at this

/-- A text of characters of at most 16 bits comes back if and only if it is ASCII and not empty. -/
theorem textBack_iff (lib : Library α) (hbmp : ∀ c ∈ cs, c.val.toNat ≤ 0xFFFF) {b : MatioBackend α}
    {f : MatFile α} (hopen : b.matFile = some f) {name : StdString} (hfree : f.Free name) :
    TextBack lib heap b name (cs.flatMap String.utf8EncodeChar) ↔
      Ascii (cs.flatMap String.utf8EncodeChar) ∧ cs.flatMap String.utf8EncodeChar ≠ [] := by
  have hstored : ∀ {m}, (makeMatvar heap (cstr name)
      (.text (cs.flatMap String.utf8EncodeChar) : MatData α)).stored = some m →
      b.writeContainer lib heap name (.text (cs.flatMap String.utf8EncodeChar)) =
        (⟨some (f.put (cstr name) m false), b.readOnly⟩, true) := by
    intro m hm
    have hname : (makeMatvar heap (cstr name)
        (.text (cs.flatMap String.utf8EncodeChar) : MatData α)).nameOf = cstr name := by
      rw [nameOf_makeMatvar, cstr_cstr]
    have hwrite := MatFile.write_new lib (by rw [hname]; exact hfree.2) hm
    rw [hname] at hwrite
    simp only [writeContainer, hopen, hwrite]
  have hread : ∀ m matdata, readContainer ⟨some (f.put (cstr name) m false), b.readOnly⟩ name matdata =
      if m.noData = true then .value (false, matdata) else makeMatdata m matdata := by
    intro m matdata
    have hfound : (f.put (cstr name) m false).read name = some m := by
      rw [MatFile.read, MatFile.find_put, if_pos rfl]
    simp only [readContainer, hfound]
  constructor
  · rintro ⟨b', hwrite, hback⟩
    obtain ⟨m, hm⟩ := stored_of_written heap lib hopen hfree hwrite
    rw [hstored hm, Prod.mk.injEq] at hwrite
    obtain ⟨rfl, -⟩ := hwrite
    have hback := hback default
    rw [hread] at hback
    have hdata : ¬ m.noData = true := by
      intro hdata
      rw [if_pos hdata] at hback
      cases hback
    rw [if_neg hdata] at hback
    have hascii : Ascii (cs.flatMap String.utf8EncodeChar) := by
      by_contra hne
      exact stored_not_ascii heap (cstr name) hbmp hne hm default hback
    obtain ⟨m', hm', -, hnil⟩ := stored_ascii (α := α) heap (cstr name) hascii
    obtain rfl := Option.some.inj (hm.symm.trans hm')
    exact ⟨hascii, mt hnil.mpr hdata⟩
  · rintro ⟨hascii, hne⟩
    obtain ⟨m, hm, hback, hdata⟩ := stored_ascii (α := α) heap (cstr name) hascii
    refine ⟨_, hstored hm, fun matdata => ?_⟩
    rw [hread, if_neg (mt hdata.mp hne), hback]

/-- Such a text comes back, and takes no bytes but its own, if and only if it is ASCII and not
empty. -/
theorem text_round_trip_iff (lib : Library α) (hbmp : ∀ c ∈ cs, c.val.toNat ≤ 0xFFFF)
    {b : MatioBackend α} {f : MatFile α} (hopen : b.matFile = some f) {name : StdString}
    (hfree : f.Free name) :
    TextBack lib heap b name (cs.flatMap String.utf8EncodeChar) ∧
      claimedBytes heap (cs.flatMap String.utf8EncodeChar) ≤
        (cs.flatMap String.utf8EncodeChar).length ↔
      Ascii (cs.flatMap String.utf8EncodeChar) ∧ cs.flatMap String.utf8EncodeChar ≠ [] := by
  rw [textBack_iff heap lib hbmp hopen hfree, claimedBytes_le_iff heap, and_right_comm, and_self]

end Stored
end Back

/-- The text `m`. -/
theorem text_round_trip_iff_m :
    let s := [Char.ofNat 109].flatMap String.utf8EncodeChar
    s = [109] ∧ (TextBack (α := ℤ) .strict .zeros init [120] s ∧ claimedBytes .zeros s ≤ s.length ↔
      Ascii s ∧ s ≠ []) :=
  have hbmp : ∀ c ∈ [Char.ofNat 109], c.val.toNat ≤ 0xFFFF := by
    simp only [List.mem_singleton, forall_eq]
    decide
  ⟨by decide, text_round_trip_iff .zeros .strict hbmp rfl ⟨by decide, rfl⟩⟩

/-- A character of two bytes takes the NUL after it. -/
theorem two_bytes_not_back :
    [Char.ofNat 0xE9].flatMap String.utf8EncodeChar = [0xC3, 0xA9] ∧
      claimedBytes .zeros [0xC3, 0xA9] = 3 ∧
      ¬ (TextBack (α := ℤ) .strict .zeros init [120] [0xC3, 0xA9] ∧
        claimedBytes .zeros [0xC3, 0xA9] ≤ 2) := by
  have hclaim : claimedBytes .zeros [0xC3, 0xA9] = 3 := by decide
  refine ⟨by decide, hclaim, fun h => ?_⟩
  have := h.2
  omega

end MatioBackend
end XBot
