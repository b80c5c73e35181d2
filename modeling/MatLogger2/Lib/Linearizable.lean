import MatLogger2.Lib.Transition

/-! Objects that several threads call at the same time. In the atomic system of
an object each call takes effect at one moment between its call and its return.
A system is linearizable if every history of its calls and returns is also one
of the atomic system. -/

namespace Transition

variable {σ τ ε : Type} {S : System σ ε} {T : System τ ε}

/-- Some steps lead from `t` to `t'` and show `tr`. -/
def System.Leads (T : System τ ε) (t : τ) (tr : List ε) (t' : τ) : Prop :=
  ∃ hist, (T.startingAt t).Run hist tr t'

theorem System.Leads.refl (t : τ) : T.Leads t [] t := ⟨[t], .start rfl⟩

theorem System.Leads.next {t t' t'' : τ} {tr es : List ε} (h : T.Leads t tr t')
    (hstep : T.step t' es t'') : T.Leads t (tr ++ es) t'' := by
  obtain ⟨hist, hr⟩ := h
  exact ⟨_, hr.next hstep⟩

theorem System.Leads.one {t t' : τ} {es : List ε} (hstep : T.step t es t') : T.Leads t es t' :=
  (System.Leads.refl t).next hstep

/-- Each step of `S` is matched by some steps of `T` that show the same. -/
theorem System.Run.simulate {R : σ → τ → Prop} (h0 : ∀ s, S.init s → ∃ t, T.init t ∧ R s t)
    (hs : ∀ s es s' t, S.Reachable s → R s t → S.step s es s' → ∃ t', T.Leads t es t' ∧ R s' t')
    {hist : List σ} {tr : List ε} {s : σ} (h : S.Run hist tr s) :
    ∃ hist' t, T.Run hist' tr t ∧ R s t := by
  induction h with
  | start hi =>
    obtain ⟨t, ht, hR⟩ := h0 _ hi
    exact ⟨_, t, .start ht, hR⟩
  | next hr hstep ih =>
    obtain ⟨hist', t, hr', hR⟩ := ih
    obtain ⟨t', ⟨_, hl⟩, hR'⟩ := hs _ _ _ t ⟨_, _, hr⟩ hR hstep
    obtain ⟨post, hr''⟩ := hr'.append hl
    exact ⟨_, t', hr'', hR'⟩

end Transition

namespace Linear

open Transition

variable {ι Q Q' Op Ret : Type}

/-- A thread enters a call, or leaves it with a result. -/
inductive Event (ι Op Ret : Type)
  | call (i : ι) (op : Op)
  | ret (i : ι) (r : Ret)

/-- What the operations do when nothing else happens meanwhile. -/
structure Object (Q Op Ret : Type) where
  init : Q → Prop
  apply : Q → Op → Q × Ret

/-- A call has not taken effect yet, or has its result. -/
inductive Status (Op Ret : Type)
  | idle
  | called (op : Op)
  | done (r : Ret)

structure Atomic (ι Q Op Ret : Type) where
  state : Q
  status : ι → Status Op Ret

variable [DecidableEq ι]

def Atomic.set (a : Atomic ι Q Op Ret) (i : ι) (st : Status Op Ret) : Atomic ι Q Op Ret :=
  { a with status := Function.update a.status i st }

/-- The call of thread `i` takes effect. -/
def Object.commit (O : Object Q Op Ret) (a : Atomic ι Q Op Ret) (i : ι) (op : Op) :
    Atomic ι Q Op Ret :=
  ⟨(O.apply a.state op).1, Function.update a.status i (.done (O.apply a.state op).2)⟩

@[simp] theorem Atomic.set_status (a : Atomic ι Q Op Ret) (i : ι) (st : Status Op Ret) :
    (a.set i st).status i = st := by
  simp [Atomic.set]

theorem Atomic.set_of_ne (a : Atomic ι Q Op Ret) {i j : ι} (h : j ≠ i) (st : Status Op Ret) :
    (a.set i st).status j = a.status j := by
  simp [Atomic.set, h]

@[simp] theorem Object.commit_status (O : Object Q Op Ret) (a : Atomic ι Q Op Ret) (i : ι) (op : Op) :
    (O.commit a i op).status i = .done (O.apply a.state op).2 := by
  simp [Object.commit]

theorem Object.commit_of_ne (O : Object Q Op Ret) (a : Atomic ι Q Op Ret) {i j : ι} (h : j ≠ i)
    (op : Op) : (O.commit a i op).status j = a.status j := by
  simp [Object.commit, h]

inductive Object.Step (O : Object Q Op Ret) :
    Atomic ι Q Op Ret → List (Event ι Op Ret) → Atomic ι Q Op Ret → Prop
  | call {a : Atomic ι Q Op Ret} {i : ι} (op : Op) :
      a.status i = .idle → O.Step a [.call i op] (a.set i (.called op))
  | commit {a : Atomic ι Q Op Ret} {i : ι} {op : Op} :
      a.status i = .called op → O.Step a [] (O.commit a i op)
  | ret {a : Atomic ι Q Op Ret} {i : ι} {r : Ret} :
      a.status i = .done r → O.Step a [.ret i r] (a.set i .idle)

/-- Any number of threads, each inside at most one call of the object. -/
def Object.atomic (ι : Type) [DecidableEq ι] (O : Object Q Op Ret) :
    System (Atomic ι Q Op Ret) (Event ι Op Ret) where
  init a := O.init a.state ∧ ∀ i, a.status i = .idle
  step := O.Step

/-- Two objects that answer alike have the same histories. -/
structure Object.Sim (O : Object Q Op Ret) (O' : Object Q' Op Ret) (R : Q → Q' → Prop) : Prop where
  init : ∀ q, O.init q → ∃ q', O'.init q' ∧ R q q'
  apply : ∀ q q' op, R q q' →
    R (O.apply q op).1 (O'.apply q' op).1 ∧ (O'.apply q' op).2 = (O.apply q op).2

theorem Object.Sim.run {O : Object Q Op Ret} {O' : Object Q' Op Ret} {R : Q → Q' → Prop}
    (h : O.Sim O' R) {hist : List (Atomic ι Q Op Ret)} {tr : List (Event ι Op Ret)}
    {a : Atomic ι Q Op Ret} (hr : (O.atomic ι).Run hist tr a) :
    ∃ hist', ∃ a' : Atomic ι Q' Op Ret, (O'.atomic ι).Run hist' tr a' ∧
      R a.state a'.state ∧ a'.status = a.status := by
  refine hr.simulate (R := fun a (a' : Atomic ι Q' Op Ret) =>
    R a.state a'.state ∧ a'.status = a.status) ?_ ?_
  · rintro ⟨q, status⟩ ⟨hq, hidle⟩
    obtain ⟨q', hq', hR⟩ := h.init q hq
    exact ⟨⟨q', status⟩, ⟨hq', hidle⟩, hR, rfl⟩
  · rintro ⟨q, status⟩ es s' ⟨q', status'⟩ - ⟨hR, rfl⟩ hstep
    cases hstep with
    | call op hi => exact ⟨_, .one (.call op hi), hR, rfl⟩
    | @commit i op hi =>
      obtain ⟨hR', hret⟩ := h.apply q q' op hR
      refine ⟨_, .one (.commit hi), hR', ?_⟩
      simp only [Object.commit, hret]
    | ret hi => exact ⟨_, .one (.ret hi), hR, rfl⟩

/-- A call that takes effect and returns at once. -/
theorem Object.commit_ret (O : Object Q Op Ret) {a : Atomic ι Q Op Ret} {i : ι} {op : Op}
    (h : a.status i = .called op) :
    (O.atomic ι).Leads a [.ret i (O.apply a.state op).2] ((O.commit a i op).set i .idle) :=
  (System.Leads.one (T := O.atomic ι) (.commit h)).next (.ret (O.commit_status a i op))

end Linear
