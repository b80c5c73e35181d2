import MatLogger2.Matio.Matvar

/-! A MAT-file of version 7.3: the variables in it by name, and what is read back
of a variable that has been written. -/

namespace Matio

variable {α : Type}

/-- `growing` has the names of the arrays that an append has created: these have no limit, all
others have the size for good that they were written with. The library takes the name of a variable,
and the key of a field, for a path in the file. What it does with one that is no link of its group
is left out: see `IsLink`. -/
structure MatFile (α : Type) where
  vars : List (StdString × Matvar α)
  growing : List StdString

def MatFile.empty : MatFile α := ⟨[], []⟩

/-- The groups `#refs#` and `#subsystem#`, which are no variables. -/
def reserved : List StdString :=
  [[35, 114, 101, 102, 115, 35], [35, 115, 117, 98, 115, 121, 115, 116, 101, 109, 35]]

/-- A path of one link, which is neither the group itself nor leads out of it, nor to something of
the library's own. -/
def IsLink (name : StdString) : Prop :=
  name ≠ [] ∧ name ≠ [46] ∧ (47 : UInt8) ∉ name ∧ name ∉ reserved

instance (name : StdString) : Decidable (IsLink name) :=
  inferInstanceAs (Decidable (name ≠ [] ∧ name ≠ [46] ∧ (47 : UInt8) ∉ name ∧ name ∉ reserved))

/-- What is left open here of the library. `misfit` is what becomes of an array that grows, and whether
there is an error, when doubles of other dimensions than its own are appended; `debris` is what is left
in the file of a variable that cannot be written as it is; `writes` is whether there is no error when
an array of another kind is written. -/
structure Library (α : Type) where
  misfit : Matvar α → List ℕ → List α → Matvar α × Bool
  debris : Matvar α → Option (Matvar α)
  writes : Matvar α → Bool

/-- A library that refuses what is left open, and leaves nothing behind. -/
def Library.strict : Library α := ⟨fun m _ _ => (m, false), fun _ => none, fun _ => false⟩

/-- The conversion of UTF-8 to 16-bit units, from byte `i` on; characters of four
bytes are not supported. -/
def units (mem : ℕ → UInt8) (nbytes i : ℕ) : Option (List UInt16) :=
  if i < nbytes then
    let c := mem i
    if c ≤ 0x7F then (units mem nbytes (i + 1)).map (c.toUInt16 :: ·)
    else if c < 0xE0 ∧ i + 1 < nbytes then
      let a := (c &&& 0x1F).toUInt16
      let b := (mem (i + 1) &&& 0x3F).toUInt16
      (units mem nbytes (i + 2)).map ((a <<< 6 ||| b) :: ·)
    else if c &&& 0xF0 = 0xE0 ∧ i + 2 < nbytes then
      let a := (c &&& 0xF).toUInt16
      let b := (mem (i + 1) &&& 0x3C).toUInt16 >>> 2
      let d := (mem (i + 1) &&& 0x3).toUInt16
      let e := (mem (i + 2) &&& 0x30).toUInt16 >>> 4
      let f := (mem (i + 2) &&& 0xF).toUInt16
      (units mem nbytes (i + 3)).map ((a <<< 12 ||| b <<< 8 ||| d <<< 6 ||| e <<< 4 ||| f) :: ·)
    else none
  else some []
termination_by nbytes - i

namespace Matvar

mutual

/-- What `Mat_VarRead` finds after `Mat_VarWrite`, unless some part cannot be written: the same tree,
with text in units of 16 bits, at most as many as the array has elements. The keys of its fields
are taken to be links. -/
def stored : Matvar α → Option (Matvar α)
  | .double name dims data => some (.double name dims (if dims.prod = 0 then none else data))
  | .complex name dims view data =>
    -- the pointers are others, which nothing looks at that is written here
    some (.complex name dims view (if dims.prod = 0 then none else data))
  | .char name dims nbytes (.utf8 mem _) =>
    if dims.prod = 0 then some (.char name dims 0 (.uint16 none))
    else
      (units mem nbytes 0).map fun us =>
        .char name dims (2 * dims.prod)
          (.uint16 (some ((us ++ List.replicate (dims.prod - us.length) 0).take dims.prod)))
  | .char name dims nbytes (.utf16 us) =>
    some (.char name dims nbytes (.uint16 (if dims.prod = 0 then none else us)))
  | .char name dims nbytes (.uint16 us) =>
    some (.char name dims nbytes (.uint16 (if dims.prod = 0 then none else us)))
  | .char _ _ _ (.unsupported _) => none
  | .struct name dims fieldnames none => some (.struct name dims fieldnames none)
  | .struct name dims fieldnames (some data) =>
    (storedAll data).map fun data => .struct name dims fieldnames (some data)
  | .cell name dims none => some (.cell name dims (some []))
  | .cell name dims (some data) => (storedAll data).map fun data => .cell name dims (some data)
  | .unsupported _ => none

/-- All elements of a struct or cell. -/
def storedAll : List (Option (Matvar α)) → Option (List (Option (Matvar α)))
  | [] => some []
  | none :: ms => (storedAll ms).map (none :: ·)
  | some m :: ms => (stored m).bind fun m => (storedAll ms).map (some m :: ·)

end

mutual

/-- Whether `Mat_VarWrite` reports no error. The loop over the elements of a cell, or over those of
a struct array, breaks off at an error; the loop over the fields of a single struct goes on, and what
the last of them has reported is returned. -/
def noError (lib : Library α) : Matvar α → Bool
  | .double .. => true
  | .complex .. => true
  | .char _ dims nbytes (.utf8 mem _) => dims.prod = 0 || (units mem nbytes 0).isSome
  | .char _ _ _ (.utf16 _) => true
  | .char _ _ _ (.uint16 _) => true
  | .char name dims nbytes (.unsupported dataType) =>
    lib.writes (.char name dims nbytes (.unsupported dataType))
  | .struct _ _ _ none => true
  | .struct _ dims _ (some data) =>
    if dims.prod = 1 then fieldsNoError lib true data else allNoError lib data
  | .cell _ _ none => true
  | .cell _ _ (some data) => allNoError lib data
  | .unsupported classType => lib.writes (.unsupported classType)

def fieldsNoError (lib : Library α) : Bool → List (Option (Matvar α)) → Bool
  | ok, [] => ok
  | _, none :: ms => fieldsNoError lib true ms
  | _, some m :: ms => fieldsNoError lib (noError lib m) ms

def allNoError (lib : Library α) : List (Option (Matvar α)) → Bool
  | [] => true
  | none :: ms => allNoError lib ms
  | some m :: ms => noError lib m && allNoError lib ms

end

mutual

/-- There is no error where all is written as it is. -/
theorem noError_of_stored (lib : Library α) : ∀ {m m' : Matvar α}, m.stored = some m' →
    m.noError lib = true
  | .double .., _, _ => rfl
  | .complex .., _, _ => rfl
  | .char _ dims nbytes (.utf8 mem size), m', h => by
    rw [stored] at h
    rw [noError, Bool.or_eq_true, decide_eq_true_iff]
    split_ifs at h with hprod
    · exact .inl hprod
    · obtain ⟨us, hus, -⟩ := Option.map_eq_some_iff.mp h
      exact .inr (Option.isSome_of_eq_some hus)
  | .char _ _ _ (.utf16 _), _, _ => rfl
  | .char _ _ _ (.uint16 _), _, _ => rfl
  | .char _ _ _ (.unsupported _), _, h => by cases h
  | .struct _ _ _ none, _, _ => rfl
  | .struct _ dims _ (some data), _, h => by
    rw [stored] at h
    obtain ⟨data', hdata, -⟩ := Option.map_eq_some_iff.mp h
    obtain ⟨hall, hfields⟩ := allNoError_of_storedAll lib hdata
    rw [noError]
    split_ifs
    · exact hfields
    · exact hall
  | .cell _ _ none, _, _ => rfl
  | .cell _ _ (some data), _, h => by
    rw [stored] at h
    obtain ⟨data', hdata, -⟩ := Option.map_eq_some_iff.mp h
    exact (allNoError_of_storedAll lib hdata).1
  | .unsupported _, _, h => by cases h

theorem allNoError_of_storedAll (lib : Library α) : ∀ {ms ms' : List (Option (Matvar α))},
    storedAll ms = some ms' → allNoError lib ms = true ∧ fieldsNoError lib true ms = true
  | [], _, _ => ⟨rfl, rfl⟩
  | none :: ms, _, h => by
    obtain ⟨ms', hms, -⟩ := Option.map_eq_some_iff.mp h
    rw [allNoError, fieldsNoError]
    exact allNoError_of_storedAll lib hms
  | some m :: ms, _, h => by
    obtain ⟨m', hm, h⟩ := Option.bind_eq_some_iff.mp h
    obtain ⟨ms', hms, -⟩ := Option.map_eq_some_iff.mp h
    have hno := noError_of_stored lib hm
    obtain ⟨hall, hfields⟩ := allNoError_of_storedAll lib hms
    rw [allNoError, fieldsNoError, hno, hall]
    exact ⟨rfl, hfields⟩

end

end Matvar

namespace MatFile

def find (f : MatFile α) (name : StdString) : Option (Matvar α) := f.vars.lookup name

/-- A variable can be written under a name: it is a link, and there is none of it yet. -/
def Free (f : MatFile α) (name : StdString) : Prop := IsLink (cstr name) ∧ f.find (cstr name) = none

/-- Store a variable under its name, as an array that grows or not. -/
def put (f : MatFile α) (name : StdString) (m : Matvar α) (grows : Bool) : MatFile α where
  vars := (name, m) :: f.vars.filter fun p => p.1 ≠ name
  growing := if grows then name :: f.growing else f.growing.filter fun n => n ≠ name

@[simp] theorem find_put (f : MatFile α) (name name' : StdString) (m : Matvar α) (grows : Bool) :
    (f.put name m grows).find name' = if name' = name then some m else f.find name' := by
  by_cases h : name' = name
  · simp [find, put, h]
  · have hl : ∀ l : List (StdString × Matvar α),
        (l.filter fun p => p.1 ≠ name).lookup name' = l.lookup name' := by
      intro l
      induction l with
      | nil => rfl
      | cons p l ih =>
        by_cases hp : p.1 = name
        · have hne : (name' == p.1) = false := by
            rw [hp]
            exact beq_false_of_ne h
          rw [List.filter_cons_of_neg (by simp [hp]), ih, List.lookup_cons, hne]
        · rw [List.filter_cons_of_pos (by simp [hp]), List.lookup_cons, List.lookup_cons, ih]
    have hne : (name' == name) = false := beq_false_of_ne h
    simp only [find, put, List.lookup_cons, hne, hl, h, if_false]

@[simp] theorem mem_growing_put (f : MatFile α) (name name' : StdString) (m : Matvar α)
    (grows : Bool) :
    name' ∈ (f.put name m grows).growing ↔
      if name' = name then grows = true else name' ∈ f.growing := by
  by_cases h : name' = name <;> cases grows <;> simp [put, h]

/-- Two files have the same under a name. -/
def SameAt (f f' : MatFile α) (name : StdString) : Prop :=
  f'.find name = f.find name ∧ (name ∈ f'.growing ↔ name ∈ f.growing)

theorem SameAt.refl (f : MatFile α) (name : StdString) : SameAt f f name := ⟨rfl, Iff.rfl⟩

theorem SameAt.trans {f f' f'' : MatFile α} {name : StdString} (h : SameAt f f' name)
    (h' : SameAt f' f'' name) : SameAt f f'' name := ⟨h'.1.trans h.1, h'.2.trans h.2⟩

theorem sameAt_put (f : MatFile α) {name key : StdString} (h : key ≠ name) (m : Matvar α)
    (grows : Bool) : SameAt f (f.put name m grows) key := by
  refine ⟨?_, ?_⟩
  · rw [find_put, if_neg h]
  · rw [mem_growing_put, if_neg h]

/-- What is under a name, if there is anything, is an array that grows. -/
def Grown (f : MatFile α) (name : StdString) (m : Option (Matvar α)) : Prop :=
  f.find name = m ∧ (m ≠ none → name ∈ f.growing)

theorem Grown.of_same {f f' : MatFile α} {name : StdString} {m : Option (Matvar α)}
    (h : f.Grown name m) (hs : SameAt f f' name) : f'.Grown name m :=
  ⟨hs.1.trans h.1, fun hm => hs.2.mpr (h.2 hm)⟩

@[simp] theorem grown_put (f : MatFile α) (name : StdString) (m : Matvar α) :
    (f.put name m true).Grown name (some m) := by
  refine ⟨?_, fun _ => ?_⟩
  · rw [find_put, if_pos rfl]
  · rw [mem_growing_put, if_pos rfl]

/-- What is under a name is there for good. -/
def Fixed (f : MatFile α) (name : StdString) (m : Matvar α) : Prop :=
  f.find name = some m ∧ name ∉ f.growing

theorem Fixed.of_same {f f' : MatFile α} {name : StdString} {m : Matvar α} (h : f.Fixed name m)
    (hs : SameAt f f' name) : f'.Fixed name m :=
  ⟨hs.1.trans h.1, fun hm => h.2 (hs.2.mp hm)⟩

theorem fixed_put (f : MatFile α) (name : StdString) (m : Matvar α) :
    (f.put name m false).Fixed name m := by
  refine ⟨?_, ?_⟩
  · rw [find_put, if_pos rfl]
  · rw [mem_growing_put, if_pos rfl]
    exact Bool.false_ne_true

/-- `Mat_VarRead` in a file that has been opened with its variables in it. One that is made and not
yet closed counts its variables as they are written, and may stop before the last name when there are
more links, such as the one for the elements of cells. -/
def read (f : MatFile α) (name : StdString) : Option (Matvar α) := f.find (cstr name)

/-- What writing a variable leaves in the file, if its name is new. -/
def leaves (lib : Library α) (m : Matvar α) : Option (Matvar α) := m.stored.or (lib.debris m)

/-- `Mat_VarWrite`: a name can be written once. -/
def write (lib : Library α) (f : MatFile α) (m : Matvar α) : MatFile α × Bool :=
  match f.find m.nameOf with
  | some _ => (f, false)
  | none =>
    match leaves lib m with
    | some m' => (f.put m.nameOf m' false, m.noError lib)
    | none => (f, m.noError lib)

theorem write_new (lib : Library α) {f : MatFile α} {m m' : Matvar α} (hnew : f.find m.nameOf = none)
    (hm : m.stored = some m') : f.write lib m = (f.put m.nameOf m' false, true) := by
  have hleaves : leaves lib m = some m' := by rw [leaves, hm, Option.some_or]
  simp only [write, hnew, hleaves, Matvar.noError_of_stored lib hm]

/-- Nothing is written under another name, nor where there is something. -/
theorem sameAt_write (lib : Library α) {f : MatFile α} {m : Matvar α} {key : StdString}
    (h : key ≠ m.nameOf ∨ f.find m.nameOf ≠ none) : SameAt f (f.write lib m).1 key := by
  unfold write
  split
  · exact .refl f key
  · rename_i hnew
    have hkey := h.resolve_right (not_not.mpr hnew)
    split
    · exact sameAt_put f hkey _ _
    · exact .refl f key

/-- `Mat_VarWriteAppend` of doubles along their last dimension. Nothing is written over an array of
another rank, nor beyond the size of one that does not grow. -/
def writeAppend (lib : Library α) (f : MatFile α) (name : StdString) (dims : List ℕ)
    (data : List α) : MatFile α × Bool :=
  if dims.prod = 0 then (f, false)
  else
    match f.find name with
    | none => (f.put name (.double name dims (some data)) true, true)
    | some (.double name' dims' (some data')) =>
      if name ∉ f.growing ∨ dims'.length ≠ dims.length then (f, false)
      else if dims'.dropLast = dims.dropLast then
        (f.put name (.double name' (dims.dropLast ++ [dims'.getLastD 0 + dims.getLastD 0])
          (some (data' ++ data))) true, true)
      else
        let r := lib.misfit (.double name' dims' (some data')) dims data
        (f.put name r.1 true, r.2)
    | some _ => (f, false)

/-- Nothing is appended under another name, nor to what does not grow. -/
theorem sameAt_writeAppend (lib : Library α) {f : MatFile α} {name key : StdString} (dims : List ℕ)
    (data : List α) (h : key ≠ name ∨ f.find name ≠ none ∧ name ∉ f.growing) :
    SameAt f (f.writeAppend lib name dims data).1 key := by
  unfold writeAppend
  split_ifs
  · exact .refl f key
  · split
    · rename_i hnew
      exact sameAt_put f (h.resolve_right fun h => h.1 hnew) _ _
    · by_cases hkey : key = name
      · rw [if_pos (.inl (h.resolve_left (not_not.mpr hkey)).2)]
        exact .refl f key
      · split_ifs
        · exact .refl f key
        · exact sameAt_put f hkey _ _
        · exact sameAt_put f hkey _ _
    · exact .refl f key

end MatFile
end Matio
