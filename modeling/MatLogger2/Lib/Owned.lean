import Mathlib.Data.List.Nodup
import Mathlib.Tactic

/-! Heap nodes that each have one owner. A handle is null or owns the node at an address, and the
node stores the handles of its children. Code refers to a handle by the node that stores it, so a
reference is dangling once that node has been released. -/

namespace Owned

inductive Handle (κ : Type)
  | null
  | owns (addr : ℕ) (content : κ) (children : List (Handle κ))

/-- Where a handle is stored: in a variable, or in the node at an address. -/
inductive Slot
  | root
  | child (addr i : ℕ)
  deriving DecidableEq

variable {κ β : Type}

namespace Handle

def children : Handle κ → List (Handle κ)
  | .null => []
  | .owns _ _ cs => cs

mutual

/-- The addresses of the nodes that are released with a handle. -/
def addrs : Handle κ → List ℕ
  | .null => []
  | .owns a _ cs => a :: addrsAll cs

def addrsAll : List (Handle κ) → List ℕ
  | [] => []
  | c :: cs => addrs c ++ addrsAll cs

end

mutual

/-- What the live node at an address stores. -/
def childrenAt (a : ℕ) : Handle κ → Option (List (Handle κ))
  | .null => none
  | .owns b _ cs => if b = a then some cs else childrenAtAny a cs

def childrenAtAny (a : ℕ) : List (Handle κ) → Option (List (Handle κ))
  | [] => none
  | c :: cs => (childrenAt a c).or (childrenAtAny a cs)

end

mutual

def storeAt (a i : ℕ) (x : Handle κ) : Handle κ → Handle κ
  | .null => .null
  | .owns b k cs => if b = a then .owns b k (cs.set i x) else .owns b k (storeAtAll a i x cs)

def storeAtAll (a i : ℕ) (x : Handle κ) : List (Handle κ) → List (Handle κ)
  | [] => []
  | c :: cs => storeAt a i x c :: storeAtAll a i x cs

end

/-- The handle in a slot; there is none when the slot was released. -/
def read (h : Handle κ) : Slot → Option (Handle κ)
  | .root => some h
  | .child a i => (childrenAt a h).bind fun cs => cs[i]?

def write (h : Handle κ) (s : Slot) (x : Handle κ) : Option (Handle κ) :=
  (h.read s).map fun _ =>
    match s with
    | .root => x
    | .child a i => storeAt a i x h

mutual

/-- A deep copy, in new nodes from address `n` on. A null handle has nothing to copy. -/
def clone (n : ℕ) : Handle κ → Option (Handle κ × ℕ)
  | .null => none
  | .owns _ k cs => (cloneAll (n + 1) cs).map fun x => (.owns n k x.1, x.2)

def cloneAll (n : ℕ) : List (Handle κ) → Option (List (Handle κ) × ℕ)
  | [] => some ([], n)
  | c :: cs =>
    (clone n c).bind fun x => (cloneAll x.2 cs).map fun y => (x.1 :: y.1, y.2)

end

mutual

/-- What a handle stands for, its addresses apart. -/
def fold (f : κ → List β → β) : Handle κ → Option β
  | .null => none
  | .owns _ k cs => (foldAll f cs).map (f k)

def foldAll (f : κ → List β → β) : List (Handle κ) → Option (List β)
  | [] => some []
  | c :: cs => (fold f c).bind fun b => (foldAll f cs).map fun bs => b :: bs

end

/-- The handle at a position, given by the indices on the way. -/
def get (h : Handle κ) : List ℕ → Option (Handle κ)
  | [] => some h
  | i :: p => h.children[i]?.bind fun c => get c p

def set (h : Handle κ) (p : List ℕ) (x : Handle κ) : Handle κ :=
  match p, h with
  | [], _ => x
  | _ :: _, .null => .null
  | i :: p, .owns a k cs => .owns a k (cs.modify i fun c => set c p x)

/-- The slot at a position. -/
def slotFrom (s : Slot) (h : Handle κ) : List ℕ → Option Slot
  | [] => some s
  | i :: p =>
    match h with
    | .null => none
    | .owns a _ cs => cs[i]?.bind fun c => slotFrom (.child a i) c p

def slot (h : Handle κ) (p : List ℕ) : Option Slot := slotFrom .root h p

theorem addrsAll_eq (cs : List (Handle κ)) : addrsAll cs = cs.flatMap addrs := by
  induction cs with
  | nil => rw [addrsAll, List.flatMap_nil]
  | cons c cs ih => rw [addrsAll, ih, List.flatMap_cons]

theorem storeAtAll_eq (a i : ℕ) (x : Handle κ) (cs : List (Handle κ)) :
    storeAtAll a i x cs = cs.map (storeAt a i x) := by
  induction cs with
  | nil => rw [storeAtAll, List.map_nil]
  | cons c cs ih => rw [storeAtAll, ih, List.map_cons]

theorem childrenAtAny_eq (a : ℕ) (cs : List (Handle κ)) :
    childrenAtAny a cs = cs.findSome? (childrenAt a) := by
  induction cs with
  | nil => rw [childrenAtAny, List.findSome?_nil]
  | cons c cs ih =>
    rw [childrenAtAny, ih, List.findSome?_cons]
    cases childrenAt a c <;> rfl

theorem mem_addrs_child {a : ℕ} {k : κ} {cs : List (Handle κ)} {i b : ℕ} {c : Handle κ}
    (hc : cs[i]? = some c) (hb : b ∈ c.addrs) : b ∈ (owns a k cs).addrs := by
  rw [addrs, addrsAll_eq]
  exact List.mem_cons_of_mem a (List.mem_flatMap.mpr ⟨c, List.mem_of_getElem? hc, hb⟩)

theorem nodup_child {a : ℕ} {k : κ} {cs : List (Handle κ)} {i : ℕ} {c : Handle κ}
    (h : (owns a k cs).addrs.Nodup) (hc : cs[i]? = some c) : c.addrs.Nodup := by
  rw [addrs, addrsAll_eq, List.nodup_cons, List.nodup_flatMap] at h
  exact h.2.1 c (List.mem_of_getElem? hc)

/-- The nodes of a child are nodes of no other child, and not the parent. -/
theorem child_unique {a : ℕ} {k : κ} {cs : List (Handle κ)} (h : (owns a k cs).addrs.Nodup)
    {i j b : ℕ} {c d : Handle κ} (hc : cs[i]? = some c) (hd : cs[j]? = some d)
    (hbc : b ∈ c.addrs) (hbd : b ∈ d.addrs) : i = j := by
  rw [addrs, addrsAll_eq, List.nodup_cons, List.nodup_flatMap] at h
  have hdis := List.pairwise_iff_getElem.mp h.2.2
  obtain ⟨hi, rfl⟩ := List.getElem?_eq_some_iff.mp hc
  obtain ⟨hj, rfl⟩ := List.getElem?_eq_some_iff.mp hd
  by_contra hne
  rcases Nat.lt_or_gt_of_ne hne with hlt | hlt
  · exact hdis i j hi hj hlt hbc hbd
  · exact hdis j i hj hi hlt hbd hbc

theorem ne_of_mem_child {a : ℕ} {k : κ} {cs : List (Handle κ)} (h : (owns a k cs).addrs.Nodup)
    {i b : ℕ} {c : Handle κ} (hc : cs[i]? = some c) (hb : b ∈ c.addrs) : a ≠ b := by
  rintro rfl
  rw [addrs, addrsAll_eq, List.nodup_cons] at h
  exact h.1 (List.mem_flatMap.mpr ⟨c, List.mem_of_getElem? hc, hb⟩)

mutual

theorem childrenAt_none {a : ℕ} : ∀ h : Handle κ, a ∉ h.addrs → childrenAt a h = none
  | .null, _ => by rw [childrenAt]
  | .owns b k cs, h => by
    rw [addrs, List.mem_cons, not_or] at h
    rw [childrenAt, if_neg (Ne.symm h.1), childrenAtAny_none cs h.2]

theorem childrenAtAny_none {a : ℕ} :
    ∀ cs : List (Handle κ), a ∉ addrsAll cs → childrenAtAny a cs = none
  | [], _ => by rw [childrenAtAny]
  | c :: cs, h => by
    rw [addrsAll, List.mem_append, not_or] at h
    rw [childrenAtAny, childrenAt_none c h.1, childrenAtAny_none cs h.2, Option.none_or]

end

mutual

theorem storeAt_of_not_mem {a i : ℕ} {x : Handle κ} :
    ∀ h : Handle κ, a ∉ h.addrs → storeAt a i x h = h
  | .null, _ => by rw [storeAt]
  | .owns b k cs, h => by
    rw [addrs, List.mem_cons, not_or] at h
    rw [storeAt, if_neg (Ne.symm h.1), storeAtAll_of_not_mem cs h.2]

theorem storeAtAll_of_not_mem {a i : ℕ} {x : Handle κ} :
    ∀ cs : List (Handle κ), a ∉ addrsAll cs → storeAtAll a i x cs = cs
  | [], _ => by rw [storeAtAll]
  | c :: cs, h => by
    rw [addrsAll, List.mem_append, not_or] at h
    rw [storeAtAll, storeAt_of_not_mem c h.1, storeAtAll_of_not_mem cs h.2]

end

theorem get_cons (h : Handle κ) (i : ℕ) (p : List ℕ) :
    h.get (i :: p) = h.children[i]?.bind fun c => c.get p := rfl

theorem get_cons_eq_some {h x : Handle κ} {i : ℕ} {p : List ℕ} :
    h.get (i :: p) = some x ↔
      ∃ a k cs c, h = owns a k cs ∧ cs[i]? = some c ∧ c.get p = some x := by
  cases h with
  | null => simp [get_cons, children]
  | owns a k cs => simp [get_cons, children, Option.bind_eq_some_iff]

theorem get_append (h : Handle κ) (p q : List ℕ) :
    h.get (p ++ q) = (h.get p).bind fun c => c.get q := by
  induction p generalizing h with
  | nil => rfl
  | cons i p ih =>
    rw [List.cons_append, get_cons, get_cons, Option.bind_assoc]
    exact congrArg _ (funext fun c => ih c)

theorem addr_mem_of_get {h : Handle κ} {p : List ℕ} {x : Handle κ} (hx : h.get p = some x)
    {a : ℕ} (ha : a ∈ x.addrs) : a ∈ h.addrs := by
  induction p generalizing h with
  | nil => exact Option.some.inj hx ▸ ha
  | cons i p ih =>
    obtain ⟨b, k, cs, c, rfl, hc, hx⟩ := get_cons_eq_some.mp hx
    exact mem_addrs_child hc (ih hx)

/-- A node is found at its address. -/
theorem childrenAt_of_get {h : Handle κ} (hnodup : h.addrs.Nodup) {p : List ℕ} {a : ℕ} {k : κ}
    {cs : List (Handle κ)} (hp : h.get p = some (owns a k cs)) : childrenAt a h = some cs := by
  induction p generalizing h with
  | nil =>
    rw [Option.some.inj hp, childrenAt, if_pos rfl]
  | cons i p ih =>
    obtain ⟨b, k', ds, c, rfl, hc, hp⟩ := get_cons_eq_some.mp hp
    have ha : a ∈ c.addrs := addr_mem_of_get hp (by rw [addrs]; exact List.mem_cons_self)
    have hfound := ih (nodup_child hnodup hc) hp
    rw [childrenAt, if_neg (ne_of_mem_child hnodup hc ha), childrenAtAny_eq]
    obtain ⟨hi, rfl⟩ := List.getElem?_eq_some_iff.mp hc
    refine List.findSome?_eq_some_iff.mpr
      ⟨ds.take i, ds[i], ds.drop (i + 1), by simp, hfound, fun d hd => ?_⟩
    -- the children before this one do not hold the address
    obtain ⟨j, hj, rfl⟩ := List.mem_take_iff_getElem.mp hd
    refine childrenAt_none _ fun had => ?_
    have := child_unique hnodup hc (List.getElem?_eq_getElem (by omega)) ha had
    omega

/-- Storing at a node's address is storing at its position. -/
theorem storeAt_of_get {h : Handle κ} (hnodup : h.addrs.Nodup) {p : List ℕ} {a : ℕ} {k : κ}
    {cs : List (Handle κ)} (hp : h.get p = some (owns a k cs)) (i : ℕ) (x : Handle κ) :
    storeAt a i x h = h.set (p ++ [i]) x := by
  induction p generalizing h with
  | nil =>
    rw [Option.some.inj hp, storeAt, if_pos rfl, List.nil_append, set]
    simp only [set, List.modify_eq_set_getElem?]
    cases hi : cs[i]? with
    | none => rw [List.set_eq_of_length_le (List.getElem?_eq_none_iff.mp hi)]; rfl
    | some c => rfl
  | cons j p ih =>
    obtain ⟨b, k', ds, c, rfl, hc, hp⟩ := get_cons_eq_some.mp hp
    have ha : a ∈ c.addrs := addr_mem_of_get hp (by rw [addrs]; exact List.mem_cons_self)
    rw [storeAt, if_neg (ne_of_mem_child hnodup hc ha), storeAtAll_eq, List.cons_append, set]
    congr 1
    refine List.ext_getElem? fun m => ?_
    rw [List.getElem?_map, List.getElem?_modify]
    cases hm : ds[m]? with
    | none => rfl
    | some d =>
      rw [Option.map_some, Option.map_eq_map, Option.map_some]
      split_ifs with hjm
      · subst hjm
        obtain rfl := Option.some.inj (hc.symm.trans hm)
        rw [ih (nodup_child hnodup hc) hp]
      · rw [storeAt_of_not_mem d fun had => hjm (child_unique hnodup hc hm ha had)]

theorem set_cons (a : ℕ) (k : κ) (cs : List (Handle κ)) (i : ℕ) (p : List ℕ) (x : Handle κ) :
    (owns a k cs).set (i :: p) x = .owns a k (cs.modify i fun c => c.set p x) := rfl

theorem get_set {h y : Handle κ} {p : List ℕ} (hp : h.get p = some y) (x : Handle κ) :
    (h.set p x).get p = some x := by
  induction p generalizing h with
  | nil => cases h <;> rfl
  | cons i p ih =>
    obtain ⟨a, k, cs, c, rfl, hc, hp⟩ := get_cons_eq_some.mp hp
    rw [set_cons]
    exact get_cons_eq_some.mpr
      ⟨a, k, _, c.set p x, rfl, by rw [List.getElem?_modify_eq, hc]; rfl, ih hp⟩

theorem set_set (h : Handle κ) (p : List ℕ) (x y : Handle κ) :
    (h.set p x).set p y = h.set p y := by
  induction p generalizing h with
  | nil => cases h <;> rfl
  | cons i p ih =>
    cases h with
    | null => rfl
    | owns a k cs =>
      rw [set_cons, set_cons, set_cons]
      congr 1
      refine List.ext_getElem? fun m => ?_
      rw [List.getElem?_modify, List.getElem?_modify, List.getElem?_modify]
      cases cs[m]? with
      | none => rfl
      | some c =>
        simp only [Option.map_eq_map, Option.map_some]
        split_ifs
        · rw [ih]
        · rfl

/-- What is stored at a position is seen nowhere else, except in what contains it. -/
theorem get_set_of_not_prefix {p q : List ℕ} (hpq : ¬ p <+: q) (hqp : ¬ q <+: p) (h x : Handle κ) :
    (h.set p x).get q = h.get q := by
  induction p generalizing h q with
  | nil => exact absurd (List.nil_prefix) hpq
  | cons i p ih =>
    cases q with
    | nil => exact absurd List.nil_prefix hqp
    | cons j q =>
      cases h with
      | null => rfl
      | owns a k cs =>
        rw [set_cons, get_cons, get_cons, children, children, List.getElem?_modify]
        cases cs[j]? with
        | none => rfl
        | some c =>
          simp only [Option.map_eq_map, Option.map_some, Option.bind_some]
          split_ifs with hij
          · subst hij
            refine ih (fun h => hpq ?_) (fun h => hqp ?_) c
            · exact List.prefix_cons_inj i |>.mpr h
            · exact List.prefix_cons_inj i |>.mpr h
          · rfl

/-- What contains the position is changed there only. -/
theorem get_set_of_prefix {h y : Handle κ} {q : List ℕ} (hq : h.get q = some y) (r : List ℕ)
    (x : Handle κ) : (h.set (q ++ r) x).get q = some (y.set r x) := by
  induction q generalizing h with
  | nil =>
    obtain rfl := Option.some.inj hq
    rfl
  | cons i q ih =>
    obtain ⟨a, k, cs, c, rfl, hc, hq⟩ := get_cons_eq_some.mp hq
    rw [List.cons_append, set_cons]
    exact get_cons_eq_some.mpr
      ⟨a, k, _, c.set (q ++ r) x, rfl, by rw [List.getElem?_modify_eq, hc]; rfl, ih hq⟩

/-- The nodes around a position stay when another handle is stored there. -/
theorem addrs_set {h y : Handle κ} {p : List ℕ} (hp : h.get p = some y) :
    ∃ l r, h.addrs = l ++ y.addrs ++ r ∧ ∀ x, (h.set p x).addrs = l ++ x.addrs ++ r := by
  induction p generalizing h with
  | nil =>
    obtain rfl := Option.some.inj hp
    exact ⟨[], [], by simp, fun x => by cases h <;> simp [set]⟩
  | cons i p ih =>
    obtain ⟨a, k, cs, c, rfl, hc, hp⟩ := get_cons_eq_some.mp hp
    obtain ⟨l, r, hl, hset⟩ := ih hp
    obtain ⟨hi, rfl⟩ := List.getElem?_eq_some_iff.mp hc
    refine ⟨a :: (cs.take i).flatMap addrs ++ l, r ++ (cs.drop (i + 1)).flatMap addrs, ?_,
      fun x => ?_⟩
    · rw [addrs, addrsAll_eq]
      conv_lhs => rw [← List.take_append_drop i cs, ← List.getElem_cons_drop hi]
      simp only [List.flatMap_append, List.flatMap_cons, hl]
      simp only [List.cons_append, List.append_assoc]
    · rw [set_cons, addrs, addrsAll_eq, List.modify_eq_take_cons_drop hi]
      simp only [List.flatMap_append, List.flatMap_cons, hset]
      simp only [List.cons_append, List.append_assoc]

theorem slotFrom_concat (s : Slot) (h : Handle κ) (q : List ℕ) (i : ℕ) (s' : Slot) :
    slotFrom s h (q ++ [i]) = some s' ↔
      ∃ a k cs, h.get q = some (owns a k cs) ∧ i < cs.length ∧ s' = .child a i := by
  induction q generalizing h s with
  | nil =>
    cases h with
    | null => simp [slotFrom, get]
    | owns a k cs =>
      simp only [List.nil_append, slotFrom, get, Option.bind_eq_some_iff, Option.some.injEq,
        owns.injEq]
      constructor
      · rintro ⟨c, hc, rfl⟩
        exact ⟨a, k, cs, ⟨rfl, rfl, rfl⟩, (List.getElem?_eq_some_iff.mp hc).1, rfl⟩
      · rintro ⟨_, _, _, ⟨rfl, rfl, rfl⟩, hi, rfl⟩
        exact ⟨cs[i], List.getElem?_eq_getElem hi, rfl⟩
  | cons j q ih =>
    cases h with
    | null => simp [slotFrom, get_cons, children]
    | owns a k cs =>
      rw [List.cons_append, slotFrom, get_cons, children]
      cases cs[j]? with
      | none => simp
      | some c => exact ih _ c

theorem slot_concat {h : Handle κ} {q : List ℕ} {i : ℕ} {s : Slot} :
    h.slot (q ++ [i]) = some s ↔
      ∃ a k cs, h.get q = some (owns a k cs) ∧ i < cs.length ∧ s = .child a i :=
  slotFrom_concat .root h q i s

/-- Every position has a slot. -/
theorem exists_slot {h x : Handle κ} {p : List ℕ} (hp : h.get p = some x) :
    ∃ s, h.slot p = some s := by
  rcases List.eq_nil_or_concat' p with rfl | ⟨q, i, rfl⟩
  · exact ⟨.root, rfl⟩
  · rw [get_append, Option.bind_eq_some_iff] at hp
    obtain ⟨y, hy, hx⟩ := hp
    obtain ⟨a, k, cs, c, rfl, hc, -⟩ := get_cons_eq_some.mp hx
    exact ⟨.child a i,
      slot_concat.mpr ⟨a, k, cs, hy, (List.getElem?_eq_some_iff.mp hc).1, rfl⟩⟩

theorem read_slot {h : Handle κ} (hnodup : h.addrs.Nodup) {p : List ℕ} {s : Slot}
    (hs : h.slot p = some s) : h.read s = h.get p := by
  rcases List.eq_nil_or_concat' p with rfl | ⟨q, i, rfl⟩
  · obtain rfl := Option.some.inj hs
    rfl
  · obtain ⟨a, k, cs, hq, -, rfl⟩ := slot_concat.mp hs
    rw [read, childrenAt_of_get hnodup hq, get_append, hq, Option.bind_some, Option.bind_some,
      get_cons, children]
    cases cs[i]? <;> rfl

theorem write_slot {h : Handle κ} (hnodup : h.addrs.Nodup) {p : List ℕ} {s : Slot} {y : Handle κ}
    (hs : h.slot p = some s) (hp : h.get p = some y) (x : Handle κ) :
    h.write s x = some (h.set p x) := by
  rw [write.eq_def, read_slot hnodup hs, hp, Option.map_some]
  rcases List.eq_nil_or_concat' p with rfl | ⟨q, i, rfl⟩
  · obtain rfl := Option.some.inj hs
    cases h <;> rfl
  · obtain ⟨a, k, cs, hq, -, rfl⟩ := slot_concat.mp hs
    rw [← storeAt_of_get hnodup hq]

/-- Storing a handle moves no slot, those within the old handle apart. -/
theorem slotFrom_set {p q : List ℕ} (hpq : p <+: q → p = q) {s s' : Slot} {h : Handle κ}
    (hs : slotFrom s h q = some s') (x : Handle κ) : slotFrom s (h.set p x) q = some s' := by
  induction q generalizing h p s with
  | nil => exact hs
  | cons j q ih =>
    cases p with
    | nil => cases hpq List.nil_prefix
    | cons i p =>
      cases h with
      | null => cases hs
      | owns a k cs =>
        rw [slotFrom, Option.bind_eq_some_iff] at hs
        obtain ⟨c, hc, hs⟩ := hs
        rw [set_cons, slotFrom, List.getElem?_modify, hc]
        simp only [Option.map_eq_map, Option.map_some, Option.bind_some]
        split_ifs with hij
        · subst hij
          refine ih (fun h => ?_) hs
          exact List.cons.inj (hpq (List.prefix_cons_inj i |>.mpr h)) |>.2
        · exact hs

theorem slot_set {p q : List ℕ} (hpq : p <+: q → p = q) {s : Slot} {h : Handle κ}
    (hs : h.slot q = some s) (x : Handle κ) : (h.set p x).slot q = some s :=
  slotFrom_set hpq hs x

/-- A reference into what has been released is dangling. -/
theorem read_released {h : Handle κ} (hnodup : h.addrs.Nodup) {p r : List ℕ} {i : ℕ} {s : Slot}
    {y : Handle κ} (hp : h.get p = some y) (hs : h.slot (p ++ r ++ [i]) = some s) :
    (h.set p .null).read s = none := by
  obtain ⟨a, k, cs, hq, -, rfl⟩ := slot_concat.mp hs
  rw [get_append, hp, Option.bind_some] at hq
  have ha : a ∈ y.addrs := addr_mem_of_get hq (by rw [addrs]; exact List.mem_cons_self)
  obtain ⟨l, r, haddrs, hset⟩ := addrs_set hp
  rw [haddrs] at hnodup
  have hgone : a ∉ (h.set p .null).addrs := by
    rw [hset, addrs, List.append_nil]
    rw [List.nodup_append, List.nodup_append] at hnodup
    intro hmem
    rcases List.mem_append.mp hmem with hl | hr
    · exact hnodup.1.2.2 a hl a ha rfl
    · exact hnodup.2.2 a (List.mem_append_right l ha) a hr rfl
  rw [read, childrenAt_none _ hgone, Option.bind_none]

/-- A node is at one position. -/
theorem get_addr_inj {h : Handle κ} (hnodup : h.addrs.Nodup) {p q : List ℕ} {a : ℕ} {k k' : κ}
    {cs cs' : List (Handle κ)} (hp : h.get p = some (owns a k cs))
    (hq : h.get q = some (owns a k' cs')) : p = q := by
  have hself : ∀ (k : κ) cs, a ∈ (owns a k cs).addrs := fun k cs => by
    rw [addrs]
    exact List.mem_cons_self
  induction p generalizing h q with
  | nil =>
    obtain rfl := Option.some.inj hp
    cases q with
    | nil => rfl
    | cons j q =>
      obtain ⟨_, _, _, c, hh, hc, hq⟩ := get_cons_eq_some.mp hq
      obtain ⟨rfl, rfl, rfl⟩ := owns.inj hh
      exact absurd rfl (ne_of_mem_child hnodup hc (addr_mem_of_get hq (hself _ _)))
  | cons i p ih =>
    obtain ⟨b, k, cs, c, rfl, hc, hp⟩ := get_cons_eq_some.mp hp
    have hac := addr_mem_of_get hp (hself _ _)
    cases q with
    | nil =>
      obtain ⟨rfl, -, -⟩ := owns.inj (Option.some.inj hq)
      exact absurd rfl (ne_of_mem_child hnodup hc hac)
    | cons j q =>
      obtain ⟨_, _, _, d, hh, hd, hq⟩ := get_cons_eq_some.mp hq
      obtain ⟨rfl, rfl, rfl⟩ := owns.inj hh
      obtain rfl := child_unique hnodup hc hd hac (addr_mem_of_get hq (hself _ _))
      obtain rfl := Option.some.inj (hc.symm.trans hd)
      rw [ih (nodup_child hnodup hc) hp hq]

/-- Different positions are different slots. -/
theorem slot_inj {h : Handle κ} (hnodup : h.addrs.Nodup) {p q : List ℕ} {s : Slot}
    (hp : h.slot p = some s) (hq : h.slot q = some s) : p = q := by
  rcases List.eq_nil_or_concat' p with rfl | ⟨p, i, rfl⟩ <;>
    rcases List.eq_nil_or_concat' q with rfl | ⟨q, j, rfl⟩
  · rfl
  · obtain ⟨_, _, _, -, -, rfl⟩ := slot_concat.mp hq
    cases hp
  · obtain ⟨_, _, _, -, -, rfl⟩ := slot_concat.mp hp
    cases hq
  · obtain ⟨a, _, _, hpa, -, rfl⟩ := slot_concat.mp hp
    obtain ⟨b, _, _, hqb, -, hs⟩ := slot_concat.mp hq
    obtain ⟨rfl, rfl⟩ := Slot.child.inj hs
    rw [get_addr_inj hnodup hpa hqb]

/-! ### Copies -/

mutual

theorem clone_addrs : ∀ {n n' : ℕ} {h c : Handle κ}, clone n h = some (c, n') →
    n ≤ n' ∧ c.addrs = List.range' n (n' - n)
  | n, n', .null, c, hc => by rw [clone] at hc; cases hc
  | n, n', .owns a k cs, c, hc => by
    rw [clone, Option.map_eq_some_iff] at hc
    obtain ⟨⟨cs', m⟩, hcs, hc⟩ := hc
    obtain ⟨rfl, rfl⟩ := Prod.mk.inj hc
    obtain ⟨hle, haddrs⟩ := cloneAll_addrs hcs
    refine ⟨by omega, ?_⟩
    rw [addrs, haddrs, show m - n = m - (n + 1) + 1 by omega, List.range'_succ]

theorem cloneAll_addrs : ∀ {n n' : ℕ} {cs ds : List (Handle κ)}, cloneAll n cs = some (ds, n') →
    n ≤ n' ∧ addrsAll ds = List.range' n (n' - n)
  | n, n', [], ds, hc => by
    rw [cloneAll] at hc
    obtain ⟨rfl, rfl⟩ := Prod.mk.inj (Option.some.inj hc)
    exact ⟨le_rfl, by rw [addrsAll, Nat.sub_self, List.range'_zero]⟩
  | n, n', c :: cs, ds, hc => by
    rw [cloneAll, Option.bind_eq_some_iff] at hc
    obtain ⟨⟨d, m⟩, hd, hc⟩ := hc
    rw [Option.map_eq_some_iff] at hc
    obtain ⟨⟨ds', m'⟩, hds, hc⟩ := hc
    obtain ⟨rfl, rfl⟩ := Prod.mk.inj hc
    obtain ⟨hle, haddrs⟩ := clone_addrs hd
    obtain ⟨hle', haddrs'⟩ := cloneAll_addrs hds
    refine ⟨by omega, ?_⟩
    rw [addrsAll, haddrs, haddrs', show m' - n = (m - n) + (m' - m) by omega,
      ← List.range'_append_1, show n + (m - n) = m by omega]

end

mutual

theorem clone_fold (f : κ → List β → β) : ∀ {n n' : ℕ} {h c : Handle κ},
    clone n h = some (c, n') → fold f c = fold f h
  | n, n', .null, c, hc => by rw [clone] at hc; cases hc
  | n, n', .owns a k cs, c, hc => by
    rw [clone, Option.map_eq_some_iff] at hc
    obtain ⟨⟨cs', m⟩, hcs, hc⟩ := hc
    obtain ⟨rfl, rfl⟩ := Prod.mk.inj hc
    rw [fold, fold, cloneAll_fold f hcs]

theorem cloneAll_fold (f : κ → List β → β) : ∀ {n n' : ℕ} {cs ds : List (Handle κ)},
    cloneAll n cs = some (ds, n') → foldAll f ds = foldAll f cs
  | n, n', [], ds, hc => by
    rw [cloneAll] at hc
    obtain ⟨rfl, rfl⟩ := Prod.mk.inj (Option.some.inj hc)
    rfl
  | n, n', c :: cs, ds, hc => by
    rw [cloneAll, Option.bind_eq_some_iff] at hc
    obtain ⟨⟨d, m⟩, hd, hc⟩ := hc
    rw [Option.map_eq_some_iff] at hc
    obtain ⟨⟨ds', m'⟩, hds, hc⟩ := hc
    obtain ⟨rfl, rfl⟩ := Prod.mk.inj hc
    rw [foldAll, foldAll, clone_fold f hd, cloneAll_fold f hds]

end

mutual

/-- What stands for something can be copied. -/
theorem exists_clone (f : κ → List β → β) : ∀ {h : Handle κ} {b : β}, fold f h = some b →
    ∀ n, ∃ c n', clone n h = some (c, n')
  | .null, b, hb, n => by rw [fold] at hb; cases hb
  | .owns a k cs, b, hb, n => by
    rw [fold, Option.map_eq_some_iff] at hb
    obtain ⟨bs, hbs, -⟩ := hb
    obtain ⟨ds, n', hds⟩ := exists_cloneAll f hbs (n + 1)
    exact ⟨.owns n k ds, n', by rw [clone, hds]; rfl⟩

theorem exists_cloneAll (f : κ → List β → β) : ∀ {cs : List (Handle κ)} {bs : List β},
    foldAll f cs = some bs → ∀ n, ∃ ds n', cloneAll n cs = some (ds, n')
  | [], bs, hbs, n => ⟨[], n, by rw [cloneAll]⟩
  | c :: cs, bs, hbs, n => by
    rw [foldAll, Option.bind_eq_some_iff] at hbs
    obtain ⟨b, hb, hbs⟩ := hbs
    rw [Option.map_eq_some_iff] at hbs
    obtain ⟨bs', hbs', -⟩ := hbs
    obtain ⟨d, m, hd⟩ := exists_clone f hb n
    obtain ⟨ds, m', hds⟩ := exists_cloneAll f hbs' m
    exact ⟨d :: ds, m', by rw [cloneAll, hd, Option.bind_some, hds]; rfl⟩

end

theorem cloneAll_none {cs : List (Handle κ)} {i : ℕ} {c : Handle κ} (hc : cs[i]? = some c)
    (hnone : ∀ n, clone n c = none) (n : ℕ) : cloneAll n cs = none := by
  induction cs generalizing i n with
  | nil => cases hc
  | cons d cs ih =>
    rw [cloneAll]
    cases i with
    | zero =>
      obtain rfl := Option.some.inj hc
      rw [hnone, Option.bind_none]
    | succ i =>
      cases clone n d with
      | none => rfl
      | some x => rw [Option.bind_some, ih hc, Option.map_none]

/-- What was emptied somewhere cannot be copied. -/
theorem clone_none {h : Handle κ} {r : List ℕ} (hr : h.get r = some .null) (n : ℕ) :
    clone n h = none := by
  induction r generalizing h n with
  | nil =>
    obtain rfl := Option.some.inj hr
    rw [clone]
  | cons i r ih =>
    obtain ⟨a, k, cs, c, rfl, hc, hr⟩ := get_cons_eq_some.mp hr
    rw [clone, cloneAll_none hc (ih hr), Option.map_none]

/-- Every node has one owner, and the allocator has passed the addresses in use. -/
structure Sound (h : Handle κ) (n : ℕ) : Prop where
  nodup : h.addrs.Nodup
  fresh : ∀ a ∈ h.addrs, a < n

theorem Sound.set_null {h y : Handle κ} {n : ℕ} (hs : h.Sound n) {p : List ℕ}
    (hp : h.get p = some y) : (h.set p .null).Sound n := by
  obtain ⟨l, r, haddrs, hset⟩ := addrs_set hp
  have hsub : List.Sublist (h.set p .null).addrs h.addrs := by
    rw [haddrs, hset, addrs, List.append_nil]
    exact (List.sublist_append_left l y.addrs).append_right r
  exact ⟨hsub.nodup hs.nodup, fun a ha => hs.fresh a (hsub.subset ha)⟩

/-- A copy is stored in nodes of its own. -/
theorem Sound.set_clone {h x y c : Handle κ} {n n' : ℕ} (hs : h.Sound n) {p : List ℕ}
    (hp : h.get p = some y) (hc : clone n x = some (c, n')) : (h.set p c).Sound n' := by
  obtain ⟨l, r, haddrs, hset⟩ := addrs_set hp
  obtain ⟨hle, hcopy⟩ := clone_addrs hc
  have hkept : (l ++ r).Nodup ∧ ∀ a ∈ l ++ r, a < n := by
    have := hs.set_null hp
    have hnull : (h.set p .null).addrs = l ++ r := by rw [hset, addrs, List.append_nil]
    exact ⟨hnull ▸ this.nodup, hnull ▸ this.fresh⟩
  have hnew : ∀ a, a ∈ c.addrs ↔ n ≤ a ∧ a < n' := fun a => by
    rw [hcopy, List.mem_range'_1]
    omega
  have hperm : List.Perm (h.set p c).addrs (c.addrs ++ (l ++ r)) := by
    rw [hset, List.append_assoc, ← List.append_assoc c.addrs]
    refine (List.perm_append_comm_assoc l c.addrs r).trans ?_
    rw [List.append_assoc]
  constructor
  · refine hperm.nodup_iff.mpr (List.Nodup.append (hcopy ▸ List.nodup_range') hkept.1 ?_)
    intro a hac hal
    have := (hnew a).mp hac
    have := hkept.2 a hal
    omega
  · intro a ha
    rcases List.mem_append.mp (hperm.mem_iff.mp ha) with hac | hal
    · exact ((hnew a).mp hac).2
    · have := hkept.2 a hal
      omega

end Handle
end Owned
