import Mathlib.Tactic

/-! A log of items kept in blocks. Items fill a current block; a full block is
moved to the end of a queue, for which a free block must take its place. When
none is free the log either refuses, or makes the oldest queued block the new
current one, with the items that are still in it until the next one is added. -/

variable {α : Type}

structure BlockLog (α : Type) where
  queue : List (List α)
  current : List α
  free : ℕ

namespace BlockLog

def empty (free : ℕ) : BlockLog α := ⟨[], [], free⟩

/-- All items, oldest first. -/
def content (l : BlockLog α) : List α := l.queue.flatten ++ l.current

/-- Move the current block to the queue, unless there is nothing in it. -/
def flush (overwrite : Bool) (l : BlockLog α) : BlockLog α × Bool :=
  match l.current, l.free, l.queue with
  | [], _, _ => (l, true)
  | _ :: _, free + 1, _ => (⟨l.queue ++ [l.current], [], free⟩, true)
  | _ :: _, 0, oldest :: rest =>
    if overwrite then (⟨rest ++ [l.current], oldest, 0⟩, true) else (l, false)
  | _ :: _, 0, [] => (l, false)

/-- An item that finds the current block full and cannot flush it drops it. -/
def add (size : ℕ) (overwrite : Bool) (l : BlockLog α) (x : α) : BlockLog α :=
  if l.current.length < size then { l with current := l.current ++ [x] }
  else { (l.flush overwrite).1 with current := [x] }

/-- The items that `add` drops with the current block, or overwrites. -/
def lost (size : ℕ) (overwrite : Bool) (l : BlockLog α) : List α :=
  if l.current.length < size then [] else (l.flush overwrite).1.current

def read (l : BlockLog α) : BlockLog α × List α :=
  match l.queue with
  | [] => (l, [])
  | oldest :: rest => (⟨rest, l.current, l.free + 1⟩, oldest)

/-- `count` blocks of `size` places; none that is queued is empty. -/
structure Fits (count size : ℕ) (l : BlockLog α) : Prop where
  blocks : l.queue.length + 1 + l.free = count
  queued : ∀ block ∈ l.queue, block ≠ [] ∧ block.length ≤ size
  current : l.current.length ≤ size

variable {l : BlockLog α} {count size : ℕ} {overwrite : Bool}

theorem flush_nil (h : l.current = []) : l.flush overwrite = (l, true) := by
  simp [flush, h]

theorem flush_free (h : l.current ≠ []) (hf : 0 < l.free) :
    l.flush overwrite = (⟨l.queue ++ [l.current], [], l.free - 1⟩, true) := by
  obtain ⟨queue, current, free⟩ := l
  cases current with
  | nil => exact absurd rfl h
  | cons x t =>
    cases free with
    | zero => simp at hf
    | succ free => rfl

theorem flush_refused (h : l.current ≠ []) (hf : l.free = 0) :
    l.flush false = (l, false) := by
  obtain ⟨queue, current, free⟩ := l
  cases current with
  | nil => exact absurd rfl h
  | cons x t =>
    simp only at hf
    subst hf
    cases queue <;> rfl

theorem flush_overwrite {oldest : List α} {rest : List (List α)} (h : l.current ≠ [])
    (hf : l.free = 0) (hq : l.queue = oldest :: rest) :
    l.flush true = (⟨rest ++ [l.current], oldest, 0⟩, true) := by
  obtain ⟨queue, current, free⟩ := l
  cases current with
  | nil => exact absurd rfl h
  | cons x t =>
    simp only at hf hq
    subst hf hq
    rfl

theorem read_nil (h : l.queue = []) : l.read = (l, []) := by
  simp [read, h]

theorem read_cons {oldest : List α} {rest : List (List α)} (h : l.queue = oldest :: rest) :
    l.read = (⟨rest, l.current, l.free + 1⟩, oldest) := by
  simp [read, h]

/-- The queued blocks, and the current one unless it is empty. -/
def blocks (l : BlockLog α) : List (List α) :=
  l.queue ++ match l.current with
    | [] => []
    | _ :: _ => [l.current]

theorem flatten_blocks (l : BlockLog α) : l.blocks.flatten = l.content := by
  obtain ⟨queue, current, free⟩ := l
  cases current <;> simp [blocks, content]

/-- Without overwriting, a flush only closes the current block, or does nothing. -/
theorem blocks_flush (l : BlockLog α) : (l.flush false).1.blocks = l.blocks := by
  obtain ⟨queue, current, free⟩ := l
  cases current with
  | nil => rfl
  | cons x t =>
    cases free with
    | zero => cases queue <;> rfl
    | succ free => simp [flush, blocks]

theorem current_flush (h : (l.flush false).2 = true) : (l.flush false).1.current = [] := by
  obtain ⟨queue, current, free⟩ := l
  cases current with
  | nil => rfl
  | cons x t =>
    cases free with
    | zero => cases queue <;> simp [flush] at h
    | succ free => rfl

/-- Reading all queued blocks. -/
def drain (l : BlockLog α) : BlockLog α := ⟨[], l.current, l.free + l.queue.length⟩

theorem blocks_drain (l : BlockLog α) : l.queue ++ l.drain.blocks = l.blocks := rfl

theorem queue_flush_sublist (l : BlockLog α) (overwrite : Bool) :
    (l.flush overwrite).1.queue.flatten.Sublist l.content := by
  obtain ⟨queue, current, free⟩ := l
  match current, free, queue with
  | [], _, _ => exact List.sublist_append_left _ _
  | _ :: _, _ + 1, _ => simp [flush, content]
  | _ :: _, 0, [] => simp [flush]
  | _ :: _, 0, oldest :: rest =>
    cases overwrite with
    | false => exact List.sublist_append_left _ _
    | true => simp [flush, content]

/-- A flush loses nothing. -/
theorem content_flush_perm (l : BlockLog α) (overwrite : Bool) :
    (l.flush overwrite).1.content.Perm l.content := by
  obtain ⟨queue, current, free⟩ := l
  match current, free, queue with
  | [], _, _ => exact .refl _
  | _ :: _, _ + 1, _ => simp [flush, content]
  | _ :: _, 0, [] => exact .refl _
  | x :: current, 0, oldest :: rest =>
    cases overwrite with
    | false => exact .refl _
    | true =>
      have h : ((rest ++ [x :: current]).flatten ++ oldest).Perm
          (oldest ++ (rest ++ [x :: current]).flatten) := List.perm_append_comm
      simpa [flush, content] using h

theorem Fits.flush (h : l.Fits count size) (overwrite : Bool) :
    (l.flush overwrite).1.Fits count size := by
  by_cases hc : l.current = []
  · rw [flush_nil hc]
    exact h
  have hcur : l.current ≠ [] ∧ l.current.length ≤ size := ⟨hc, h.current⟩
  have hblocks := h.blocks
  rcases Nat.eq_zero_or_pos l.free with hf | hf
  · cases overwrite with
    | false =>
      rw [flush_refused hc hf]
      exact h
    | true =>
      cases hq : l.queue with
      | nil =>
        have : l.flush true = (l, false) := by
          obtain ⟨queue, current, free⟩ := l
          simp only at hf hq
          subst hf hq
          cases current with
          | nil => exact absurd rfl hc
          | cons x t => rfl
        rw [this]
        exact h
      | cons oldest rest =>
        rw [flush_overwrite hc hf hq]
        rw [hq, List.length_cons] at hblocks
        refine ⟨?_, fun block hb => ?_, (h.queued oldest (by simp [hq])).2⟩
        · simp only [List.length_append, List.length_cons, List.length_nil]
          omega
        · rcases List.mem_append.mp hb with hb | hb
          · exact h.queued block (by simp [hq, hb])
          · exact List.mem_singleton.mp hb ▸ hcur
  · rw [flush_free hc hf]
    refine ⟨?_, fun block hb => ?_, Nat.zero_le _⟩
    · simp only [List.length_append, List.length_cons, List.length_nil]
      omega
    · rcases List.mem_append.mp hb with hb | hb
      · exact h.queued block hb
      · exact List.mem_singleton.mp hb ▸ hcur

theorem Fits.read (h : l.Fits count size) : l.read.1.Fits count size := by
  cases hq : l.queue with
  | nil =>
    rw [read_nil hq]
    exact h
  | cons oldest rest =>
    have hblocks := h.blocks
    rw [read_cons hq]
    refine ⟨?_, fun block hb => h.queued block (by simp [hq, hb]), h.current⟩
    simp only [hq, List.length_cons] at hblocks ⊢
    omega

theorem Fits.add (h : l.Fits count size) (hs : 0 < size) (overwrite : Bool) (x : α) :
    (l.add size overwrite x).Fits count size := by
  unfold BlockLog.add
  split_ifs with hlt
  · refine ⟨h.blocks, h.queued, ?_⟩
    simp only [List.length_append, List.length_cons, List.length_nil]
    omega
  · have hf := h.flush overwrite
    exact ⟨hf.blocks, hf.queued, hs⟩

/-! An overwriting log with several blocks keeps the newest items. -/

section Overwrite

/-- What `n + 1` items added to an empty overwriting log leave in it. -/
structure Newest (count size n : ℕ) (xs : List α) (l : BlockLog α) : Prop where
  fits : l.Fits count size
  full : ∀ block ∈ l.queue, block.length = size
  queue : l.queue.length = min (n / size) (count - 1)
  current : l.current.length = n % size + 1
  content : l.content <:+ xs

theorem newest_first (hs : 0 < size) (hc : 0 < count) (x : α) :
    Newest count size 0 [x] ((empty (count - 1)).add size true x) := by
  have he : (empty (count - 1) : BlockLog α).add size true x = ⟨[], [x], count - 1⟩ := by
    simp [BlockLog.add, empty, hs]
  rw [he]
  exact ⟨⟨by simp; omega, by simp, hs⟩, by simp, by simp, by simp, by simp [BlockLog.content]⟩

theorem Newest.add {n : ℕ} {xs : List α} (h : Newest count size n xs l) (hs : 0 < size)
    (hc : 1 < count) (x : α) :
    Newest count size (n + 1) (xs ++ [x]) (l.add size true x) := by
  have hcur := h.current
  have hdm := Nat.div_add_mod n size
  have hmod := Nat.mod_lt n hs
  obtain ⟨pre, hpre⟩ := h.content
  have hfits := h.fits.add hs true x
  by_cases hlt : n % size + 1 < size
  · -- there is room in the current block
    have hsplit : n + 1 = size * (n / size) + (n % size + 1) := by omega
    have hdiv : (n + 1) / size = n / size := by
      rw [hsplit, Nat.mul_add_div hs, Nat.div_eq_of_lt hlt, Nat.add_zero]
    have hmod' : (n + 1) % size = n % size + 1 := by
      rw [hsplit, Nat.mul_add_mod, Nat.mod_eq_of_lt hlt]
    have he : l.add size true x = { l with current := l.current ++ [x] } := by
      simp [BlockLog.add, hcur, hlt]
    rw [he] at hfits ⊢
    refine ⟨hfits, h.full, by rw [hdiv]; exact h.queue, by simp [hcur, hmod'], pre, ?_⟩
    rw [← hpre]
    simp [BlockLog.content]
  · -- the current block is full
    have hsplit : n + 1 = size * (n / size + 1) := by
      rw [Nat.mul_add, Nat.mul_one]
      omega
    have hdiv : (n + 1) / size = n / size + 1 := by
      rw [hsplit, Nat.mul_div_cancel_left _ hs]
    have hmod' : (n + 1) % size = 0 := by
      rw [hsplit, Nat.mul_mod_right]
    have hsize : l.current.length = size := by omega
    have hne : l.current ≠ [] := by
      rw [← List.length_pos_iff]
      omega
    have hq := h.queue
    have hblocks := h.fits.blocks
    have he : l.add size true x = { (l.flush true).1 with current := [x] } := by
      simp [BlockLog.add, hsize]
    rw [he] at hfits ⊢
    rcases Nat.eq_zero_or_pos l.free with hf | hf
    · -- the oldest block is overwritten
      have hqne : l.queue ≠ [] := by
        rw [← List.length_pos_iff]
        omega
      obtain ⟨oldest, rest, hor⟩ := List.exists_cons_of_ne_nil hqne
      have hlen : rest.length + 1 = count - 1 := by
        rw [hor, List.length_cons] at hblocks
        omega
      rw [flush_overwrite hne hf hor] at hfits ⊢
      rw [hor, List.length_cons] at hq
      refine ⟨hfits, fun block hb => ?_, ?_, by simp [hmod'], pre ++ oldest, ?_⟩
      · rcases List.mem_append.mp hb with hb | hb
        · exact h.full block (by simp [hor, hb])
        · exact List.mem_singleton.mp hb ▸ hsize
      · simp only [List.length_append, List.length_cons, List.length_nil]
        omega
      · rw [← hpre]
        simp [BlockLog.content, hor]
    · rw [flush_free hne hf] at hfits ⊢
      refine ⟨hfits, fun block hb => ?_, ?_, by simp [hmod'], pre, ?_⟩
      · rcases List.mem_append.mp hb with hb | hb
        · exact h.full block hb
        · exact List.mem_singleton.mp hb ▸ hsize
      · simp only [List.length_append, List.length_cons, List.length_nil]
        omega
      · rw [← hpre]
        simp [BlockLog.content]

/-- The items kept are a suffix, so their number says which they are. -/
theorem Newest.content_eq {n : ℕ} {xs : List α} (h : Newest count size n xs l) :
    l.content = xs.drop (xs.length - (min (n / size) (count - 1) * size + n % size + 1)) := by
  have hflat : l.queue.flatten.length = l.queue.length * size := by
    rw [List.length_flatten, List.map_congr_left h.full]
    simp
  have hlen : l.content.length = min (n / size) (count - 1) * size + n % size + 1 := by
    rw [BlockLog.content, List.length_append, hflat, h.queue, h.current]
    omega
  rw [← hlen]
  exact List.suffix_iff_eq_drop.mp h.content

end Overwrite

/-! What has become of all items since the log was empty. -/

section History

/-- `History xs rs ds l`: of the items `xs`, the blocks `rs` have been read, `ds`
have been dropped, and the others are in `l`. -/
inductive History (count size : ℕ) (overwrite : Bool) :
    List α → List (List α) → List α → BlockLog α → Prop
  | start : History count size overwrite [] [] [] (empty (count - 1))
  | add {xs : List α} {rs : List (List α)} {ds : List α} {l : BlockLog α} (x : α) :
      History count size overwrite xs rs ds l →
      History count size overwrite (xs ++ [x]) rs (ds ++ l.lost size overwrite)
        (l.add size overwrite x)
  | drain {xs : List α} {rs : List (List α)} {ds : List α} {l : BlockLog α} :
      History count size overwrite xs rs ds l →
      History count size overwrite xs (rs ++ l.queue) ds l.drain

variable {xs ds : List α} {rs : List (List α)}

/-- What has been read and what is left stands in the order in which it came. -/
theorem History.sublist (h : History count size overwrite xs rs ds l) :
    (rs.flatten ++ l.content).Sublist xs := by
  induction h with
  | start => exact .refl _
  | @add xs rs ds l x _ ih =>
    rw [BlockLog.add]
    split_ifs
    · have he : rs.flatten ++ content { l with current := l.current ++ [x] } =
          (rs.flatten ++ l.content) ++ [x] := by simp [content]
      rw [he]
      exact ih.append (.refl _)
    · have hs : ((l.flush overwrite).1.queue.flatten ++ [x]).Sublist (l.content ++ [x]) :=
        (l.queue_flush_sublist overwrite).append (.refl _)
      refine ((List.Sublist.refl rs.flatten).append hs).trans ?_
      rw [← List.append_assoc]
      exact ih.append (.refl _)
  | drain _ ih => simpa [content, BlockLog.drain] using ih

/-- Each item has been read, has been dropped, or is left. -/
theorem History.perm (h : History count size overwrite xs rs ds l) :
    xs.Perm (rs.flatten ++ l.content ++ ds) := by
  induction h with
  | start => exact .refl _
  | @add xs rs ds l x _ ih =>
    refine (ih.append_right [x]).trans ?_
    rw [BlockLog.add, lost]
    split_ifs
    · simp only [content, List.append_nil, List.append_assoc]
      exact .append_left _ (.append_left _ (.append_left _ List.perm_append_comm))
    · have hc := (l.content_flush_perm overwrite).symm
      rw [content] at hc
      set queue := (l.flush overwrite).1.queue.flatten
      set dropped := (l.flush overwrite).1.current
      rw [List.append_assoc, List.append_assoc, List.append_assoc]
      refine .append_left _ ?_
      have h₁ : (l.content ++ (ds ++ [x])).Perm (queue ++ (dropped ++ (ds ++ [x]))) := by
        rw [← List.append_assoc queue]
        exact hc.append_right _
      have h₂ : (dropped ++ (ds ++ [x])).Perm ([x] ++ (ds ++ dropped)) := by
        rw [← List.append_assoc [x]]
        exact List.perm_append_comm.trans (List.perm_append_comm.append_right _)
      refine h₁.trans ?_
      simp only [content, List.append_assoc]
      exact h₂.append_left _
  | drain _ ih => simpa [content, BlockLog.drain] using ih

/-- A log that overwrites and is not read keeps the newest items. -/
theorem History.newest (h : History count size true xs rs ds l) (hs : 0 < size) (hc : 1 < count)
    (hr : rs = []) :
    (xs = [] ∧ l = empty (count - 1)) ∨ (xs ≠ [] ∧ Newest count size (xs.length - 1) xs l) := by
  induction h with
  | start => exact .inl ⟨rfl, rfl⟩
  | @add xs rs ds l x _ ih =>
    refine .inr ⟨by simp, ?_⟩
    rcases ih hr with ⟨rfl, rfl⟩ | ⟨hne, hn⟩
    · exact newest_first hs (by omega) x
    · have hpos : xs.length - 1 + 1 = xs.length := by
        have := List.length_pos_iff.mpr hne
        omega
      have := hn.add hs hc x
      rw [hpos] at this
      simpa using this
  | @drain xs rs ds l _ ih =>
    obtain ⟨hr, hq⟩ := List.append_eq_nil_iff.mp hr
    have he : l.drain = l := by
      obtain ⟨queue, current, free⟩ := l
      simp only at hq
      subst hq
      rfl
    rw [he]
    exact ih hr

/-- All items while they fit, and from then on those of the last `count - 1` full
blocks and of the current one. -/
theorem History.kept (h : History count size true xs [] ds l) (hs : 0 < size) (hc : 1 < count) :
    l.content = if xs.length ≤ count * size then xs
      else xs.drop (xs.length - ((count - 1) * size + (xs.length - 1) % size + 1)) := by
  rcases h.newest hs hc rfl with ⟨rfl, rfl⟩ | ⟨hne, hn⟩
  · simp [empty, content]
  · have hpos := List.length_pos_iff.mpr hne
    have hdm := Nat.div_add_mod' (xs.length - 1) size
    have hmod := Nat.mod_lt (xs.length - 1) hs
    rw [hn.content_eq]
    split_ifs with hle
    · have hq : (xs.length - 1) / size ≤ count - 1 :=
        Nat.le_sub_one_of_lt ((Nat.div_lt_iff_lt_mul hs).mpr (by omega))
      have hall : xs.length - (min ((xs.length - 1) / size) (count - 1) * size +
          (xs.length - 1) % size + 1) = 0 := by
        rw [min_eq_left hq]
        omega
      rw [hall, List.drop_zero]
    · have hq : count - 1 ≤ (xs.length - 1) / size :=
        (Nat.sub_le count 1).trans ((Nat.le_div_iff_mul_le hs).mpr (by omega))
      rw [min_eq_right hq]

/-- Where nothing is dropped all items are in the blocks, in order; the blocks
before the current one are full, and it is empty only at the start. -/
structure Cut (size : ℕ) (xs : List α) (front : List (List α)) (current : List α) : Prop where
  flatten : front.flatten ++ current = xs
  full : ∀ block ∈ front, block.length = size
  current_le : current.length ≤ size
  nil : current = [] → front = []

theorem Cut.add_room {front : List (List α)} {current : List α} (c : Cut size xs front current)
    (h : current.length < size) (x : α) : Cut size (xs ++ [x]) front (current ++ [x]) := by
  refine ⟨?_, c.full, ?_, by simp⟩
  · rw [← c.flatten, List.append_assoc]
  · rw [List.length_append, List.length_singleton]
    omega

theorem Cut.add_full {front : List (List α)} {current : List α} (c : Cut size xs front current)
    (hs : 0 < size) (h : ¬ current.length < size) (x : α) :
    Cut size (xs ++ [x]) (front ++ [current]) [x] := by
  refine ⟨?_, fun block hb => ?_, hs, by simp⟩
  · rw [← c.flatten, List.flatten_append, List.flatten_singleton]
  · rcases List.mem_append.mp hb with hb | hb
    · exact c.full block hb
    · rw [List.mem_singleton.mp hb]
      exact le_antisymm c.current_le (not_lt.mp h)

theorem History.cut (h : History count size false xs rs ds l) (hs : 0 < size) (hd : ds = []) :
    Cut size xs (rs ++ l.queue) l.current := by
  induction h with
  | start => exact ⟨rfl, nofun, Nat.zero_le _, fun _ => rfl⟩
  | @add xs rs ds l x _ ih =>
    obtain ⟨hd, hlost⟩ := List.append_eq_nil_iff.mp hd
    have c := ih hd
    unfold lost at hlost
    unfold BlockLog.add
    split_ifs at hlost ⊢ with hlt
    · exact c.add_room hlt x
    · -- the flush has succeeded, since nothing was dropped
      have hne : l.current ≠ [] := by
        intro h
        rw [h] at hlt
        exact hlt hs
      rcases Nat.eq_zero_or_pos l.free with hf | hf
      · rw [flush_refused hne hf] at hlost
        exact absurd hlost hne
      · rw [flush_free hne hf, ← List.append_assoc]
        exact c.add_full hs hlt x
  | @drain xs rs ds l _ ih =>
    have c := ih hd
    simpa [BlockLog.drain] using c

theorem Fits.drain (h : l.Fits count size) : l.drain.Fits count size := by
  have hblocks := h.blocks
  refine ⟨?_, nofun, h.current⟩
  simp only [BlockLog.drain, List.length_nil]
  omega

theorem History.fits (h : History count size overwrite xs rs ds l) (hs : 0 < size)
    (hc : 0 < count) : l.Fits count size := by
  induction h with
  | start => exact ⟨by simp [empty]; omega, nofun, Nat.zero_le _⟩
  | add x _ ih => exact ih.add hs overwrite x
  | drain _ ih => exact ih.drain

theorem Fits.ne_nil (hf : l.Fits count size) : ∀ block ∈ l.blocks, block ≠ [] := by
  intro block hb
  rcases List.mem_append.mp hb with hb | hb
  · exact (hf.queued block hb).1
  · cases hcur : l.current with
    | nil => simp [hcur] at hb
    | cons x t =>
      rw [hcur] at hb
      rw [List.mem_singleton.mp hb]
      exact List.cons_ne_nil x t

/-- No block is empty, whether it has been read or is left. -/
theorem History.ne_nil (h : History count size overwrite xs rs ds l) (hs : 0 < size)
    (hc : 0 < count) : ∀ block ∈ rs ++ l.blocks, block ≠ [] := by
  have hread : ∀ block ∈ rs, block ≠ [] := by
    induction h with
    | start => nofun
    | add x _ ih => exact ih
    | drain h ih =>
      intro block hb
      rcases List.mem_append.mp hb with hb | hb
      · exact ih block hb
      · exact ((h.fits hs hc).queued block hb).1
  intro block hb
  rcases List.mem_append.mp hb with hb | hb
  · exact hread block hb
  · exact (h.fits hs hc).ne_nil block hb

/-- The last block has what is left over. -/
theorem Cut.length {front : List (List α)} {current : List α} (c : Cut size xs front current) :
    front.length * size + current.length = xs.length := by
  have hflat : front.flatten.length = front.length * size := by
    rw [List.length_flatten, List.map_congr_left c.full]
    simp
  rw [← c.flatten, List.length_append, hflat]

/-- Nothing is dropped as long as all items fit. -/
theorem History.cut_of_le (h : History count size overwrite xs rs ds l) (hs : 0 < size)
    (hc : 0 < count) (hle : xs.length ≤ count * size) :
    ds = [] ∧ Cut size xs (rs ++ l.queue) l.current := by
  induction h with
  | start => exact ⟨rfl, rfl, nofun, Nat.zero_le _, fun _ => rfl⟩
  | @add xs rs ds l x h ih =>
    rw [List.length_append, List.length_singleton] at hle
    obtain ⟨hd, c⟩ := ih (by omega)
    have hblocks := (h.fits hs hc).blocks
    rw [hd, List.nil_append, lost, BlockLog.add]
    split_ifs with hlt
    · exact ⟨rfl, c.add_room hlt x⟩
    · have hne : l.current ≠ [] := by
        rintro he
        rw [he] at hlt
        exact hlt hs
      have hf : 0 < l.free := by
        -- otherwise every block is full of items
        by_contra hf
        have hlen := c.length
        have hcur := le_antisymm c.current_le (not_lt.mp hlt)
        rw [List.length_append, hcur, ← Nat.succ_mul, Nat.succ_eq_add_one] at hlen
        have hge : count ≤ rs.length + l.queue.length + 1 := by omega
        have := Nat.mul_le_mul_right size hge
        omega
      rw [flush_free hne hf, ← List.append_assoc]
      exact ⟨rfl, c.add_full hs hlt x⟩
  | drain _ ih =>
    obtain ⟨hd, c⟩ := ih hle
    exact ⟨hd, by simpa [BlockLog.drain] using c⟩

/-- No more items are in the log than there are places. -/
theorem Fits.length_content_le (h : l.Fits count size) : l.content.length ≤ count * size := by
  have hqueue : l.queue.flatten.length ≤ l.queue.length * size := by
    rw [List.length_flatten]
    exact (List.sum_le_card_nsmul _ size (by simpa using fun block hb => (h.queued block hb).2)).trans
      (by simp)
  have hblocks := h.blocks
  have hcurrent := h.current
  have hle : (l.queue.length + 1) * size ≤ count * size := Nat.mul_le_mul_right size (by omega)
  rw [Nat.add_mul, Nat.one_mul] at hle
  rw [content, List.length_append]
  omega

end History
end BlockLog
