import MatLogger2.VarBuffer.Loss
import MatLogger2.VarBuffer.Sequential

/-! When `add_elem` discards samples that it has accepted before: the flush of its full
current block is refused, it resets the block all the same, and returns true. -/

namespace XBot

open Spsc Transition Ledger

variable {α : Type}

namespace Threads

/-- What is buffered: blocks that the consumer holds or will read, then the current one. -/
def buffered (s : Threads α) : List (List α) := s.queued ++ s.filling

end Threads

/-- Some `add_elem` with a full current block has looked at the write queue when
neither that nor the pool had a block. -/
def Refused (b : ℕ) (hist : List (Threads α)) : Prop :=
  ∃ pre s s' post, hist = pre ++ s :: s' :: post ∧ (∃ run data, Starved b run data s) ∧
    s'.producer ≠ s.producer

/-- The producer is about to discard its current block. -/
def Failing (s : Threads α) : Prop :=
  match s.producer with
  | .flushing (some _) (.allRead _ w) => w = s.vb.queue.writeQueue.read ∧ s.vb.queue.blockPool = []
  | .flushing (some _) (.takeBlock _) => s.vb.queue.blockPool = []
  | .resetting _ false => True
  | _ => False

variable {b : ℕ} {hist : List (Threads α)} {tr es : List (Event α)} {s s' : Threads α}

theorem refused_snoc {pre : List (Threads α)} : Refused b (pre ++ [s] ++ [s']) ↔
    Refused b (pre ++ [s]) ∨ (∃ run data, Starved b run data s) ∧ s'.producer ≠ s.producer := by
  constructor
  · rintro ⟨pre', t, t', post, he, hst, hne⟩
    rcases post.eq_nil_or_concat with rfl | ⟨post, u, rfl⟩
    · have he' : pre ++ [s, s'] = pre' ++ [t, t'] := by simpa using he
      obtain ⟨-, hlast⟩ := List.append_inj' he' rfl
      cases hlast
      exact .inr ⟨hst, hne⟩
    · refine .inl ⟨pre', t, t', post, ?_, hst, hne⟩
      have he' : (pre ++ [s]) ++ [s'] = (pre' ++ t :: t' :: post) ++ [u] := by simpa using he
      exact (List.append_inj' he' rfl).1
  · rintro (⟨pre', t, t', post, he, hst, hne⟩ | ⟨hst, hne⟩)
    · exact ⟨pre', t, t', post ++ [s'], by rw [he]; simp, hst, hne⟩
    · exact ⟨pre, s, s', [], by simp, hst, hne⟩

/-- From then on the producer is failing. -/
theorem failing_of_starved {a : Act α} {run : List (List α)} {data : Eigen.MatrixXd α}
    (hst : Starved b run data s) (h : s.step a = some (s', es)) (hne : s'.producer ≠ s.producer) :
    Failing s' := by
  obtain ⟨⟨info, hp⟩, -, hpool, hwq, -⟩ := hst
  obtain ⟨vb, p, c⟩ := s
  obtain rfl : p = .flushing (some data) (.allWrite info) := hp
  cases a with
  | callAddElem _ => cases h
  | callFlushToQueue => cases h
  | producer =>
    cases h
    exact ⟨(Ring.content_eq_nil _).mp hwq, hpool⟩
  | callReadBlock =>
    cases c with
    | idle =>
      cases hm : vb.bufferMode <;> simp only [Threads.step, hm] at h <;> cases h <;>
        exact absurd rfl hne
    | _ => cases h
  | consumer => exact absurd (consumerStep_frame h).producer hne

/-- A failing producer goes on failing until it discards. -/
theorem Failing.step {a : Act α} (hb : 0 < b) (hf : Failing s) (k : Kept b hist tr s)
    (h : s.step a = some (s', es)) : Failing s' ∨ discarded es ≠ [] := by
  obtain ⟨vb, p, c⟩ := s
  cases a with
  | callAddElem data => cases p <;> cases h; cases hf
  | callFlushToQueue => cases p <;> cases h; cases hf
  | producer =>
    have hm : vb.bufferMode = .producerConsumer := k.mode
    cases p with
    | flushing caller pc =>
      cases caller with
      | none => cases pc <;> cases hf
      | some data =>
        cases pc with
        | allRead info w =>
          obtain ⟨hw, hpool⟩ := hf
          have havail : Boost.readAvailable w vb.queue.writeQueue.read = 0 := by
            rw [Boost.readAvailable_eq, gap_eq_zero]
            exact hw
          simp only [Threads.step, Threads.producerStep, VariableBuffer.flushStep, havail, if_true,
            Threads.afterFlush] at h
          cases h
          exact .inl hpool
        | takeBlock info =>
          have hpool : vb.queue.blockPool = [] := hf
          simp only [Threads.step, Threads.producerStep, VariableBuffer.flushStep, hpool,
            List.getLast?_nil, hm, Threads.afterFlush] at h
          cases h
          exact .inl trivial
        | _ => cases hf
    | resetting data ok =>
      cases ok with
      | true => cases hf
      | false =>
        cases h
        right
        have hlen : vb.current.valid.length = b := k.ordered.fills
        obtain ⟨x, run, hx⟩ := List.exists_cons_of_length_pos (by omega : 0 < vb.current.valid.length)
        simp [discarded, Event.discards, hx]
    | _ => cases hf
  | callReadBlock =>
    cases c with
    | idle =>
      have hm : vb.bufferMode = .producerConsumer := k.mode
      simp only [Threads.step, hm] at h
      cases h
      exact .inl hf
    | _ => cases h
  | consumer =>
    have hframe := consumerStep_frame h
    left
    obtain ⟨vb', p', c'⟩ := s'
    obtain rfl : p' = p := hframe.producer
    have hpool : vb'.queue.blockPool = vb.queue.blockPool := hframe.pool
    have hread : vb'.queue.writeQueue.read = vb.queue.writeQueue.read := hframe.writeQueue
    unfold Failing at hf ⊢
    simp only [hpool, hread] at hf ⊢
    exact hf

/-- What is buffered, as a run that has accepted it and delivered nothing. -/
def recorded (s : Threads α) : List (Event α) :=
  s.buffered.map fun x => .added ⟨x.length, 1, x, (Nat.mul_one _).symm⟩ true

theorem recorded_spec (s : Threads α) : accepted (recorded s) = s.buffered ∧
    delivered (recorded s) = [] ∧ discarded (recorded s) = [] := by
  refine ⟨?_, ?_, ?_⟩
  · rw [accepted, recorded, List.filterMap_map]
    exact List.filterMap_some
  · rw [delivered, recorded, List.flatMap_map]
    exact List.flatMap_eq_nil_iff.mpr fun _ _ => rfl
  · rw [discarded, recorded, List.filterMap_map]
    exact List.filterMap_eq_nil_iff.mpr fun _ _ => rfl

/-- A run from a state between two calls of the producer. -/
structure Resumed (b : ℕ) (s₀ : Threads α) (hist : List (Threads α)) (es : List (Event α))
    (s : Threads α) : Prop where
  kept : Kept b hist (recorded s₀ ++ es) s
  refused : discarded es ≠ [] → Refused b hist
  failing : Refused b hist → Failing s ∨ discarded es ≠ []

theorem Resumed.start {s₀ : Threads α} (k : Kept b hist tr s₀) (hp : s₀.producer = .idle) :
    Resumed b s₀ [s₀] [] s₀ := by
  obtain ⟨hacc, hdel, hdis⟩ := recorded_spec s₀
  have hledger : Open (discarded (recorded s₀)) (accepted (recorded s₀))
      (delivered (recorded s₀) ++ s₀.queued) s₀.filling := by
    rw [hacc, hdel, hdis, List.nil_append]
    exact ⟨s₀.queued, rfl, by simpa using Lossy.nil.append s₀.queued⟩
  refine ⟨?_, fun h => absurd rfl h, ?_⟩
  · rw [List.append_nil]
    refine ⟨k.mode, k.owned, ⟨k.ordered.size, hledger, k.ordered.fills, k.ordered.copied⟩, ?_, ?_⟩
    · rw [Warned, hp]
      trivial
    · rw [hdis]
      simp
  · rintro ⟨pre, s, s', post, he, -⟩
    have hlen := congrArg List.length he
    rw [List.length_singleton, List.length_append, List.length_cons, List.length_cons] at hlen
    omega

theorem Resumed.step {s₀ : Threads α} {a : Act α} (hb : 0 < b) {pre : List (Threads α)}
    (r : Resumed b s₀ (pre ++ [s]) tr s) (h : s.step a = some (s', es)) :
    Resumed b s₀ (pre ++ [s] ++ [s']) (tr ++ es) s' := by
  have hk := r.kept.step ⟨pre, rfl⟩ h
  rw [List.append_assoc (recorded s₀)] at hk
  refine ⟨hk, fun hdis => ?_, fun href => ?_⟩
  · rw [discarded_append, ne_eq, List.append_eq_nil_iff, not_and_or] at hdis
    rcases hdis with hdis | hdis
    · exact refused_snoc.mpr (.inl (r.refused hdis))
    · obtain ⟨run, hrun⟩ := List.exists_mem_of_ne_nil _ hdis
      obtain ⟨data, hp, pre', t, mid, he, hst, hmid⟩ := r.kept.since_starved h hrun
      -- the starved state is not the last one, and its successor has moved on
      cases mid with
      | nil =>
        obtain ⟨-, hlast⟩ := List.append_inj' he rfl
        cases hlast
        obtain ⟨info, hp'⟩ := hst.producer
        rw [hp] at hp'
        cases hp'
      | cons t' mid =>
        refine refused_snoc.mpr (.inl ⟨pre', t, t', mid, he, ⟨run, data, hst⟩, fun heq => ?_⟩)
        obtain ⟨info, hp'⟩ := hst.producer
        rw [hp'] at heq
        rcases (hmid t' List.mem_cons_self).1 with ⟨_, _, h'⟩ | ⟨_, h'⟩ | h' <;>
          rw [h'] at heq <;> cases heq
  · rw [discarded_append, ne_eq, List.append_eq_nil_iff, not_and_or]
    rcases refused_snoc.mp href with href | ⟨⟨run, data, hst⟩, hne⟩
    · rcases r.failing href with hf | hdis
      · rcases hf.step hb r.kept h with hf | hdis
        · exact .inl hf
        · exact .inr (.inr hdis)
      · exact .inr (.inl hdis)
    · exact .inl (failing_of_starved hst h hne)

theorem resumed_run {rows cols : ℕ} {s₀ : Threads α} (hb : 0 < b)
    (h₀ : (threads α rows cols b .producerConsumer).Reachable s₀) (hp : s₀.producer = .idle)
    (h : ((threads α rows cols b .producerConsumer).startingAt s₀).Run hist es s) :
    Resumed b s₀ hist es s := by
  refine h.inv_hist (fun s hs => ?_) ?_
  · obtain ⟨hist₀, tr₀, hr₀⟩ := h₀
    obtain rfl : s = s₀ := hs
    exact .start (Kept.run hr₀) hp
  · rintro hist tr s es s' hr r ⟨a, ha⟩
    obtain ⟨pre, rfl⟩ := hr.last
    exact r.step hb ha

/-- Between two calls, what has been buffered or read since is what was accepted, if and
only if no block has been discarded. -/
theorem Resumed.buffered_iff {s₀ : Threads α} (hb : 0 < b) (r : Resumed b s₀ hist es s) :
    delivered es ++ s.buffered = s₀.buffered ++ accepted es ↔ discarded es = [] := by
  obtain ⟨hacc, hdel, hdis⟩ := recorded_spec s₀
  have hl := r.kept.ordered.ledger.lossy
  rw [accepted_append, delivered_append, discarded_append, hacc, hdel, hdis, List.nil_append,
    List.nil_append, List.append_assoc] at hl
  constructor
  · intro heq
    rw [← heq] at hl
    have hlen := hl.length
    rw [Threads.buffered] at hlen
    have hnil : (discarded es).flatten = [] := List.length_eq_zero_iff.mp (by omega)
    rw [List.flatten_eq_nil_iff] at hnil
    rw [List.eq_nil_iff_forall_not_mem]
    intro run hrun
    have hrunlen := r.kept.lengths run (by rw [discarded_append]; exact List.mem_append_right _ hrun)
    rw [hnil run hrun, List.length_nil] at hrunlen
    omega
  · intro hnil
    rw [hnil] at hl
    exact hl.eq_of_nil

/-- An `add_elem` that is not interrupted, and a run of both threads between two calls of
the producer: what was buffered and what is accepted is kept if and only if no full block
is refused a place in the queue. -/
theorem add_keeps_iff {rows cols b : ℕ} :
    (∀ vb : VariableBuffer α, (sequential α rows cols b).Reachable vb →
      vb.bufferMode = .producerConsumer → ∀ data : Eigen.MatrixXd α,
      data.size = vb.rows * vb.cols →
      (((vb.addElem data).ret = .ok true →
          (vb.addElem data).vb.log.content = vb.log.content ++ [data.data]) ∧
        ((vb.addElem data).ret = .ok false →
          (vb.addElem data).vb.log.content = vb.log.content) ↔
      vb.current.valid.length < vb.current.getSize ∨ 0 < vb.log.free)) ∧
    ∀ s₀ : Threads α, (threads α rows cols b .producerConsumer).Reachable s₀ →
      s₀.producer = .idle → ∀ hist es s,
      ((threads α rows cols b .producerConsumer).startingAt s₀).Run hist es s → s.producer = .idle →
      ((delivered es ++ s.buffered = s₀.buffered ++ accepted es ∧
        ((∀ data, .added data false ∉ es) → ∀ data ok, .added data ok ∈ es →
          data.data ∈ delivered es ++ s.buffered)) ↔
      ¬ Refused b hist) := by
  refine ⟨fun vb h hm data hsize => VariableBuffer.addElem_content_iff h hm hsize,
    fun s₀ h₀ hp₀ hist es s hr hp => ?_⟩
  have hb : 0 < b := by
    refine h₀.inv (I := fun _ => 0 < b) ?_ fun _ _ _ hb _ => hb
    rintro s ⟨name, hb, -⟩
    exact hb
  have r := resumed_run hb h₀ hp₀ hr
  have hdiscards : discarded es = [] ↔ ¬ Refused b hist := by
    constructor
    · intro hnil href
      rcases r.failing href with hf | hdis
      · rw [Failing, hp] at hf
        exact hf
      · exact hdis hnil
    · intro hno
      by_contra hdis
      exact hno (r.refused hdis)
  rw [← hdiscards, ← r.buffered_iff hb]
  refine and_iff_left_of_imp fun heq hok data ok hmem => ?_
  cases ok with
  | false => exact absurd hmem (hok data)
  | true =>
    rw [heq]
    exact List.mem_append_right _ (List.mem_filterMap.mpr ⟨_, hmem, rfl⟩)

theorem add_keeps_iff_overfill :
    (∃ (vb : VariableBuffer ℕ) (data : Eigen.MatrixXd ℕ), (sequential ℕ 1 1 1).Reachable vb ∧
      (((vb.addElem data).ret = .ok true →
          (vb.addElem data).vb.log.content = vb.log.content ++ [data.data]) ∧
        ((vb.addElem data).ret = .ok false →
          (vb.addElem data).vb.log.content = vb.log.content) ↔
      vb.current.valid.length < vb.current.getSize ∨ 0 < vb.log.free)) ∧
    ∃ s₀ hist es s, ((threads ℕ 1 1 1 .producerConsumer).startingAt s₀).Run hist es s ∧
      discarded es = [[[19]]] ∧
      ((delivered es ++ s.buffered = s₀.buffered ++ accepted es ∧
        ((∀ data, .added data false ∉ es) → ∀ data ok, .added data ok ∈ es →
          data.data ∈ delivered es ++ s.buffered)) ↔
      ¬ Refused 1 hist) := by
  constructor
  · obtain ⟨vb, h, hm, hr, hc, -⟩ := VariableBuffer.exists_scalars .producerConsumer 1
    exact ⟨vb, ⟨1, 1, [1], rfl⟩, h, add_keeps_iff.1 vb h hm _ (by rw [hr, hc]; rfl)⟩
  · obtain ⟨s, es, h, hdis, -, hp, -⟩ := exec_overfill
    obtain ⟨hist, hr⟩ := System.Run.exec (S := (threads ℕ 1 1 1 .producerConsumer).startingAt
      scalarThreads) (fun _ a _ _ ha => ⟨a, ha⟩) (.start rfl) h
    exact ⟨scalarThreads, _, _, s, hr, hdis, add_keeps_iff.2 scalarThreads
      ⟨_, _, .start scalarThreads_init⟩ rfl _ _ s hr hp⟩

/-- The 21st scalar is accepted, and the 20th is gone. -/
theorem accepted_discards : ∃ vb : VariableBuffer ℕ, (sequential ℕ 1 1 1).Reachable vb ∧
    vb.bufferMode = .producerConsumer ∧ (vb.addElem ⟨1, 1, [20], rfl⟩).ret = .ok true ∧
    vb.log.content = (List.range 20).map (fun k => [k]) ∧
    (vb.addElem ⟨1, 1, [20], rfl⟩).vb.log.content = (List.range 19).map (fun k => [k]) ++ [[20]] := by
  obtain ⟨vb, h, hm, hr, hc, hlog⟩ := VariableBuffer.exists_scalars .producerConsumer 20
  obtain ⟨hb, w⟩ := VariableBuffer.whole_of_reachable h
  have hfull : vb.log = ⟨(List.range 19).map fun k => [[k]], [[19]], 0⟩ := hlog
  obtain ⟨hret, -, hbecomes⟩ := VariableBuffer.addElem_spec w hb
    (by rw [hr, hc]; rfl : (⟨1, 1, [20], rfl⟩ : Eigen.MatrixXd ℕ).size = vb.rows * vb.cols)
  refine ⟨vb, h, hm, hret, by rw [hfull]; rfl, ?_⟩
  rw [hbecomes.log, hfull, VariableBuffer.overwrites, hm]
  rfl

end XBot
