import MatLogger2.VarBuffer.Ownership
import MatLogger2.Lib.Ledger

/-! Where the samples of a variable are: with the callers of `read_block`, in
the consumer's hand, in the read queue, in the current block. A block's samples
are out of reach of every thread but its owner. -/

namespace XBot

open Spsc Transition

variable {α : Type}

namespace Event

/-- The samples for which `add_elem` has returned true. -/
def accepted : Event α → Option (List α)
  | .added data true => some data.data
  | _ => none

/-- The valid columns that `read_block` has returned. -/
def delivered : Event α → List (List α)
  | .read result => result.samples
  | _ => []

def discards : Event α → Option (List (List α))
  | .discarded [] => none
  | .discarded run => some run
  | _ => none

end Event

def accepted (tr : List (Event α)) : List (List α) := tr.filterMap Event.accepted

def delivered (tr : List (Event α)) : List (List α) := tr.flatMap Event.delivered

def discarded (tr : List (Event α)) : List (List (List α)) := tr.filterMap Event.discards

@[simp] theorem accepted_append (tr es : List (Event α)) :
    accepted (tr ++ es) = accepted tr ++ accepted es := List.filterMap_append

@[simp] theorem delivered_append (tr es : List (Event α)) :
    delivered (tr ++ es) = delivered tr ++ delivered es := List.flatMap_append

@[simp] theorem discarded_append (tr es : List (Event α)) :
    discarded (tr ++ es) = discarded tr ++ discarded es := List.filterMap_append

theorem discarded_nil : discarded [(.discarded [] : Event α)] = [] := rfl

/-- An event that accepts, delivers and discards nothing. -/
def Silent (es : List (Event α)) : Prop := accepted es = [] ∧ delivered es = [] ∧ discarded es = []

theorem silent_nil : Silent ([] : List (Event α)) := ⟨rfl, rfl, rfl⟩

theorem Silent.append {es es' : List (Event α)} (h : Silent es) (h' : Silent es') :
    Silent (es ++ es') := by
  obtain ⟨h₁, h₂, h₃⟩ := h
  obtain ⟨h₁', h₂', h₃'⟩ := h'
  simp [Silent, *]

/-- The samples in the blocks of some handles, as the blocks stand. -/
def samplesOf (block : BlockId → BufferBlock α) (l : List Ptr) : List (List α) :=
  l.flatMap fun h => h.elim [] fun i => (block i).valid

@[simp] theorem samplesOf_nil (block : BlockId → BufferBlock α) : samplesOf block [] = [] := rfl

@[simp] theorem samplesOf_cons (block : BlockId → BufferBlock α) (i : BlockId) (l : List Ptr) :
    samplesOf block (some i :: l) = (block i).valid ++ samplesOf block l := rfl

@[simp] theorem samplesOf_append (block : BlockId → BufferBlock α) (l l' : List Ptr) :
    samplesOf block (l ++ l') = samplesOf block l ++ samplesOf block l' := List.flatMap_append

theorem samplesOf_update (block : BlockId → BufferBlock α) {i : BlockId} (x : BufferBlock α)
    {l : List Ptr} (h : some i ∉ l) :
    samplesOf (Function.update block i x) l = samplesOf block l := by
  apply List.flatMap_congr
  intro y hy
  cases y with
  | none => rfl
  | some j =>
    have hne : j ≠ i := by
      rintro rfl
      exact h hy
    simp [Function.update_of_ne hne]

namespace Consumer

/-- What the consumer has taken out of the read queue and not yet returned. -/
def samples (block : BlockId → BufferBlock α) : Consumer α → List (List α)
  | .popStore _ i | .copyData i | .copyValid i _ | .reset i _ _ => (block i).valid
  | .pushWrite _ data valid | .pushRead _ data valid _ => data.take valid
  | .pushCopy _ data valid _ | .pushStore _ data valid _ => data.take valid
  | .idle | .popWrite | .popRead _ | .popCopy _ | .crashed => []

/-- The copies made so far are of the block as it still stands. -/
def Copied (block : BlockId → BufferBlock α) : Consumer α → Prop
  | .copyValid i data => data = (block i).buf
  | .reset i data valid => data = (block i).buf ∧ valid = (block i).writeIdx
  | _ => True

variable {c : Consumer α} {i : BlockId}

theorem samples_update (block : BlockId → BufferBlock α) (x : BufferBlock α)
    (h : some i ∉ c.holds) : c.samples (Function.update block i x) = c.samples block := by
  cases c <;> simp_all [samples, holds, Function.update_of_ne, Ne.symm]

theorem Copied.update {block : BlockId → BufferBlock α} (hc : c.Copied block) (x : BufferBlock α)
    (h : some i ∉ c.holds) : c.Copied (Function.update block i x) := by
  cases c <;> simp_all [Copied, holds, Function.update_of_ne, Ne.symm]

end Consumer

namespace Producer

/-- The current block has been published: its samples are counted in the queue. -/
def published : Producer α → Bool
  | .flushing _ (.setCurrent _ _) => true
  | _ => false

theorem current_mem_holds {p : Producer α} (h : p.published = false) (cur : BlockId) :
    some cur ∈ p.holds cur := by
  cases p with
  | flushing caller pc => cases pc <;> simp_all [published, holds]
  | _ => simp [holds]

/-- A flush for a sample is made with a full current block, and a new block is
empty until it has become the current one. -/
def Fills (b : ℕ) (cur : BlockId) (block : BlockId → BufferBlock α) : Producer α → Prop
  | .flushing _ (.setCurrent _ i) => (block i).valid = []
  | .flushing _ (.callback _) => (block cur).valid = []
  | .flushing caller (.popStore _ _ i) =>
      (caller.isSome → (block cur).valid.length = b) ∧ (block i).valid = []
  | .flushing caller (.pushWrite _ i) =>
      (caller.isSome → (block cur).valid.length = b) ∧ (block i).valid = []
  | .flushing caller (.pushRead _ i _) =>
      (caller.isSome → (block cur).valid.length = b) ∧ (block i).valid = []
  | .flushing caller (.pushCopy _ i _) =>
      (caller.isSome → (block cur).valid.length = b) ∧ (block i).valid = []
  | .flushing caller (.pushStore _ i _) =>
      (caller.isSome → (block cur).valid.length = b) ∧ (block i).valid = []
  | .flushing caller _ => caller.isSome → (block cur).valid.length = b
  | .resetting _ true => (block cur).valid = []
  | .resetting _ false => (block cur).valid.length = b
  | _ => True

/-- The consumer's reset of its block does not disturb the producer. -/
theorem Fills.update {b : ℕ} {cur i : BlockId} {block : BlockId → BufferBlock α} {p : Producer α}
    (hf : p.Fills b cur block) (x : BufferBlock α) (h : some i ∉ p.holds cur) :
    p.Fills b cur (Function.update block i x) := by
  cases p with
  | flushing caller pc =>
    cases pc <;> simp_all [Fills, holds, Function.update_of_ne, Ne.symm]
  | resetting data ok => cases ok <;> simp_all [Fills, holds, Function.update_of_ne, Ne.symm]
  | _ => trivial

end Producer

namespace Threads

variable (s : Threads α)

/-- The samples that have left the current block and have not been returned. -/
def queued : List (List α) := s.consumer.samples s.vb.block ++ samplesOf s.vb.block s.rqLive

/-- The samples that are still only in the current block. -/
def filling : List (List α) := if s.producer.published then [] else s.vb.current.valid

end Threads

end XBot
