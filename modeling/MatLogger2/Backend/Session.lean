import MatLogger2.Backend.Model
import MatLogger2.Lib.Transition
import MatLogger2.Matio.Delete

/-! One backend that is opened again and again by `init` and `load`. What an opening means is kept in
three members, of which `init` sets two and `load` sets two others, and which the calls look at each
on its own. Files are of version 7.3. -/

namespace XBot

open Matio Transition

/-- The modes `MAT_ACC_RDONLY` and `MAT_ACC_RDWR`. -/
inductive AccessMode
  | rdonly
  | rdwr
  deriving DecidableEq

/-- The argument of `load` as a mode. -/
def accessMode (enableWritingAccess : Bool) : AccessMode :=
  if enableWritingAccess then .rdwr else .rdonly

/-- A call of `init` or `load` that has returned `true`. -/
inductive Opening
  | init (enableCompression : Bool)
  | load (enableWritingAccess : Bool)
  deriving DecidableEq

namespace Opening

/-- How the library has opened the file. -/
def mode : Opening → AccessMode
  | .init _ => .rdwr
  | .load enable => accessMode enable

/-- What is assigned to `_compression`. -/
def compression? : Opening → Option Bool
  | .init enable => some enable
  | .load _ => none

/-- What is assigned to `_mat_access_mode`, as the argument of `load`. -/
def access? : Opening → Option Bool
  | .init _ => none
  | .load enable => some enable

end Opening

/-- `matFile` has the path and the mode of the file that the library has open. The other members of
the backend are `none` as long as nothing is assigned to them, which is -1 for `matAccessMode` and
indeterminate for `compression`. -/
structure BackendSession (α : Type) where
  disk : StdString → Option (MatFile α)
  matFile : Option (StdString × AccessMode)
  matAccessMode : Option AccessMode
  compression : Option Bool

namespace BackendSession

variable {α : Type}

inductive Call (α : Type)
  | getVarNames
  | readvar (varName : StdString)
  | readContainer (varName : StdString) (data : MatData α)
  | write (varName : StdString) (data : List α) (rows cols slices : ℤ)
  | writeContainer (name : StdString) (data : MatData α)
  | delvar (varName : StdString)

def Call.mutating : Call α → Bool
  | .write .. | .writeContainer .. | .delvar _ => true
  | _ => false

/-- A call that has returned: the file before and after it, whether it has refused to write in the mode
`MAT_ACC_RDONLY`, and the compression that it has handed to the library, if it has come to that. -/
structure Done (α : Type) where
  call : Call α
  before : MatFile α
  after : MatFile α
  ret : Bool
  refused : Bool
  handed : Option (Option Bool)

inductive Event (α : Type)
  | opened (o : Opening)
  | done (d : Done α)

def init (s : BackendSession α) (loggerName : StdString) (enableCompression : Bool) :
    BackendSession α :=
  { s with
    disk := Function.update s.disk (cstr loggerName) (some .empty)
    matFile := some (cstr loggerName, .rdwr)
    compression := some enableCompression }

/-- `none` if there is no file. -/
def load (s : BackendSession α) (matfilePath : StdString) (enableWritingAccess : Bool) :
    Option (BackendSession α) :=
  (s.disk (cstr matfilePath)).map fun _ =>
    { s with
      matAccessMode := some (accessMode enableWritingAccess)
      matFile := some (cstr matfilePath, accessMode enableWritingAccess) }

/-- The members as `write` and the calls that read look at them. -/
def backend (s : BackendSession α) (f : MatFile α) : MatioBackend α :=
  ⟨some f, s.matAccessMode = some .rdonly⟩

/-- What the library has open after a call, with what the call returns. -/
def ofBackend : MatioBackend α × Bool → Option (MatFile α × Bool)
  | (b, ret) => b.matFile.map fun f => (f, ret)

/-- A call on a file that is open in a mode, and what it leaves of the file and returns. A file that is
open to be read only takes no variable. -/
def perform [Zero α] (lib : Library α) (heap : Heap) (listing : Listing α) (s : BackendSession α)
    (f : MatFile α) (mode : AccessMode) : Call α → Option (MatFile α × Bool)
  | .getVarNames => some (f, !f.vars.isEmpty)
  | .readvar varName =>
    match (s.backend f).readvar varName with
    | .value r => some (f, r.isSome)
    | _ => none
  | .readContainer varName data =>
    match (s.backend f).readContainer varName data with
    | .value r => some (f, r.1)
    | _ => none
  | .write varName data rows cols slices =>
    ((s.backend f).write lib varName data rows cols slices).bind ofBackend
  | .writeContainer name data =>
    match mode with
    | .rdonly => some (f, false)
    | .rdwr => ofBackend ((s.backend f).writeContainer lib heap name data)
  | .delvar varName => some (f.delete lib listing (cstr varName))

/-- `write` looks at the access mode before anything else. -/
def refuses (s : BackendSession α) : Call α → Bool
  | .write .. => s.matAccessMode = some .rdonly
  | _ => false

/-- The compression that goes into `Mat_VarWriteAppend` or `Mat_VarWrite`. -/
def hands (s : BackendSession α) : Call α → Option (Option Bool)
  | .write _ _ _ _ slices =>
    if s.matAccessMode = some .rdonly then none
    else if slices ≤ 0 then none
    else some s.compression
  | .writeContainer .. => some s.compression
  | _ => none

/-- A call while a file is open. -/
def call [Zero α] (lib : Library α) (heap : Heap) (listing : Listing α) (s : BackendSession α)
    (c : Call α) : Option (BackendSession α × Done α) :=
  match s.matFile with
  | none => none
  | some (path, mode) =>
    match s.disk path with
    | none => none
    | some f =>
      (s.perform lib heap listing f mode c).map fun (f', ret) =>
        ({ s with disk := Function.update s.disk path (some f') },
          ⟨c, f, f', ret, s.refuses c, s.hands c⟩)

inductive Act (α : Type)
  | init (loggerName : StdString) (enableCompression : Bool)
  | load (matfilePath : StdString) (enableWritingAccess : Bool)
  | call (c : Call α)

def step [Zero α] (lib : Library α) (heap : Heap) (listing : Listing α) (s : BackendSession α) :
    Act α → Option (BackendSession α × List (Event α))
  | .init loggerName enable => some (s.init loggerName enable, [.opened (.init enable)])
  | .load matfilePath enable =>
    (s.load matfilePath enable).map fun s => (s, [.opened (.load enable)])
  | .call c => (s.call lib heap listing c).map fun (s, d) => (s, [.done d])

/-- Any files may be there at the start. -/
def sessions [Zero α] (lib : Library α) (heap : Heap) (listing : Listing α) :
    System (BackendSession α) (Event α) where
  init s := s.matFile = none ∧ s.matAccessMode = none ∧ s.compression = none
  step s es s' := ∃ a, s.step lib heap listing a = some (s', es)

/-! What a trace tells of the openings. -/

def openings (tr : List (Event α)) : List Opening :=
  tr.filterMap fun
    | .opened o => some o
    | .done _ => none

/-- What the calls of `load` and `init` so far have assigned last. -/
def lastAccess (os : List Opening) : Option Bool := (os.filterMap Opening.access?).getLast?

def lastCompression (os : List Opening) : Option Bool := (os.filterMap Opening.compression?).getLast?

/-- After these openings, a call acts as the last of them says. -/
def Meets (os : List Opening) : Call α → Prop
  | .write _ _ _ _ slices =>
    match os.getLast? with
    | some (.init _) => lastAccess os ≠ some false
    | some (.load true) => slices ≤ 0
    | _ => True
  | .writeContainer _ _ => ∃ enable, os.getLast? = some (.init enable)
  | .delvar _ => os.getLast? ≠ some (.load false)
  | _ => True

variable {s s' : BackendSession α} {tr es : List (Event α)}

@[simp] theorem openings_append (tr es : List (Event α)) :
    openings (tr ++ es) = openings tr ++ openings es := List.filterMap_append

/-- The members between any two calls. -/
structure Inv (tr : List (Event α)) (s : BackendSession α) : Prop where
  access : s.matAccessMode = (lastAccess (openings tr)).map accessMode
  compression : s.compression = lastCompression (openings tr)
  mode : s.matFile.map Prod.snd = (openings tr).getLast?.map Opening.mode

theorem lastAccess_snoc (os : List Opening) (o : Opening) :
    lastAccess (os ++ [o]) = o.access?.or (lastAccess os) := by
  unfold lastAccess
  rw [List.filterMap_append]
  cases o <;> simp [Opening.access?]

theorem lastCompression_snoc (os : List Opening) (o : Opening) :
    lastCompression (os ++ [o]) = o.compression?.or (lastCompression os) := by
  unfold lastCompression
  rw [List.filterMap_append]
  cases o <;> simp [Opening.compression?]

/-- The last opening has assigned what it assigns. -/
theorem last_opening {os : List Opening} {o : Opening} (h : os.getLast? = some o) :
    lastAccess os = o.access?.or (lastAccess os) ∧
      lastCompression os = o.compression?.or (lastCompression os) := by
  obtain ⟨init, rfl⟩ := List.getLast?_eq_some_iff.mp h
  rw [lastAccess_snoc, lastCompression_snoc]
  cases o <;> simp [Opening.access?, Opening.compression?]

section Calls

variable [Zero α] {lib : Library α} {heap : Heap} {listing : Listing α} {f f' : MatFile α}
variable {mode : AccessMode} {ret : Bool}

theorem perform_write {varName : StdString} {data : List α} {rows cols slices : ℤ}
    (h : s.perform lib heap listing f mode (.write varName data rows cols slices) = some (f', ret))
    (hmode : s.matAccessMode = some .rdonly) : f' = f ∧ ret = false := by
  obtain ⟨⟨b, ret'⟩, hw, hb⟩ := Option.bind_eq_some_iff.mp h
  obtain ⟨f₁, hf, heq⟩ := Option.map_eq_some_iff.mp hb
  cases heq
  simp only [MatioBackend.write, backend, hmode, decide_true, if_true] at hw
  cases hw
  cases hf
  exact ⟨rfl, rfl⟩

/-- Calls that read leave the file as it is. -/
theorem perform_reads {c : Call α} (h : s.perform lib heap listing f mode c = some (f', ret))
    (hc : c.mutating = false) : f' = f := by
  cases c with
  | getVarNames =>
    cases h
    rfl
  | readvar varName =>
    simp only [perform] at h
    split at h <;> cases h
    rfl
  | readContainer varName data =>
    simp only [perform] at h
    split at h <;> cases h
    rfl
  | _ => cases hc

/-- The parts of a call. -/
theorem call_eq {c : Call α} {d : Done α} (h : s.call lib heap listing c = some (s', d)) :
    ∃ path mode f f' ret, s.matFile = some (path, mode) ∧ s.disk path = some f ∧
      s.perform lib heap listing f mode c = some (f', ret) ∧
      s' = { s with disk := Function.update s.disk path (some f') } ∧
      d = ⟨c, f, f', ret, s.refuses c, s.hands c⟩ := by
  unfold call at h
  split at h
  · cases h
  · rename_i path mode hfile
    split at h
    · cases h
    · rename_i f hdisk
      obtain ⟨⟨f', ret⟩, hp, heq⟩ := Option.map_eq_some_iff.mp h
      cases heq
      exact ⟨path, mode, f, f', ret, hfile, hdisk, hp, rfl, rfl⟩

end Calls

namespace Inv

theorem init (inv : Inv tr s) (loggerName : StdString) (enable : Bool) :
    Inv (tr ++ [.opened (.init enable)]) (s.init loggerName enable) := by
  have ho : openings [Event.opened (α := α) (.init enable)] = [.init enable] := rfl
  refine ⟨?_, ?_, ?_⟩
  · rw [openings_append, ho, lastAccess_snoc]
    exact inv.access
  · rw [openings_append, ho, lastCompression_snoc]
    rfl
  · rw [openings_append, ho, List.getLast?_concat]
    rfl

theorem load (inv : Inv tr s) {matfilePath : StdString} {enable : Bool}
    (h : s.load matfilePath enable = some s') : Inv (tr ++ [.opened (.load enable)]) s' := by
  have ho : openings [Event.opened (α := α) (.load enable)] = [.load enable] := rfl
  obtain ⟨f, -, rfl⟩ := Option.map_eq_some_iff.mp h
  refine ⟨?_, ?_, ?_⟩
  · rw [openings_append, ho, lastAccess_snoc]
    rfl
  · rw [openings_append, ho, lastCompression_snoc]
    exact inv.compression
  · rw [openings_append, ho, List.getLast?_concat]
    rfl

/-- A write is refused if the last `load` has opened its file to be read only. -/
theorem readOnly_iff (inv : Inv tr s) :
    s.matAccessMode = some .rdonly ↔ lastAccess (openings tr) = some false := by
  rw [inv.access]
  cases lastAccess (openings tr) with
  | none => simp
  | some enable => cases enable <;> simp [accessMode]

variable [Zero α] {lib : Library α} {heap : Heap} {listing : Listing α}

theorem start (h : (sessions lib heap listing).init s) : Inv [] s := by
  obtain ⟨hfile, haccess, hcompression⟩ := h
  exact ⟨haccess, hcompression, by rw [hfile]; rfl⟩

theorem call (inv : Inv tr s) {c : Call α} {d : Done α}
    (h : s.call lib heap listing c = some (s', d)) : Inv (tr ++ [.done d]) s' := by
  have ho : openings (tr ++ [.done d]) = openings tr := by
    rw [openings_append]
    exact List.append_nil _
  obtain ⟨path, mode, f, f', ret, -, -, -, rfl, -⟩ := call_eq h
  exact ⟨ho ▸ inv.access, ho ▸ inv.compression, ho ▸ inv.mode⟩

theorem step (inv : Inv tr s) {a : Act α} (h : s.step lib heap listing a = some (s', es)) :
    Inv (tr ++ es) s' := by
  cases a with
  | init loggerName enable =>
    cases h
    exact inv.init loggerName enable
  | load matfilePath enable =>
    obtain ⟨s₁, hl, heq⟩ := Option.map_eq_some_iff.mp h
    cases heq
    exact inv.load hl
  | call c =>
    obtain ⟨⟨s₁, d⟩, hc, heq⟩ := Option.map_eq_some_iff.mp h
    cases heq
    exact inv.call hc

end Inv

/-! A call against the last opening. -/

section Acts

variable [Zero α] {lib : Library α} {heap : Heap} {listing : Listing α} {o : Opening} {d : Done α}

end Acts

/-! All runs. -/

section Runs

variable [Zero α] {lib : Library α} {heap : Heap} {listing : Listing α} {hist : List (BackendSession α)}

theorem inv_of_run (h : (sessions lib heap listing).Run hist tr s) : Inv tr s := by
  refine h.inv (fun s hs => Inv.start hs) ?_
  rintro tr s es s' inv ⟨a, ha⟩
  exact inv.step ha

end Runs

/-- A variable is written into a new file and deleted there. Another file, which is open to be read only,
is looked at, and a write is refused. -/
def careful : List (Act ℕ) :=
  [.init [98] false, .call (.write [120] [7] 1 1 1), .call (.delvar [120]), .load [97] false,
    .call .getVarNames, .call (.write [120] [7] 1 1 1)]

section Runs

variable [Zero α] {lib : Library α} {heap : Heap} {listing : Listing α} {hist : List (BackendSession α)}

/-- While a file is open to be read only, `delvar` alone may change it, and no other call that would
change it returns `true`. -/
theorem kept_but_delvar (h : (sessions lib heap listing).Run hist tr s)
    (ho : (openings tr).getLast? = some (.load false)) {c : Call α} {d : Done α}
    (hc : s.call lib heap listing c = some (s', d)) (hdel : ∀ varName, c ≠ .delvar varName) :
    d.after = d.before ∧ (c.mutating = true → d.ret = false) := by
  have inv := inv_of_run h
  obtain ⟨path, mode, f, f', ret, hfile, -, hp, -, rfl⟩ := call_eq hc
  have hmode := inv.mode
  rw [hfile, ho] at hmode
  obtain rfl : mode = .rdonly := Option.some.inj hmode
  cases c with
  | write varName data rows cols slices =>
    have hlast := (last_opening ho).1
    rw [Opening.access?, Option.some_or] at hlast
    obtain ⟨hkept, hret⟩ := perform_write hp (inv.readOnly_iff.mpr hlast)
    exact ⟨hkept, fun _ => hret⟩
  | writeContainer name data =>
    cases hp
    exact ⟨rfl, fun _ => rfl⟩
  | delvar varName => exact absurd rfl (hdel varName)
  | _ => exact ⟨perform_reads hp rfl, nofun⟩

end Runs

end BackendSession
end XBot
