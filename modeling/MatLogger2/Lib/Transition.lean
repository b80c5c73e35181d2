import Mathlib.Tactic

/-! Systems that take steps and show events. A run keeps the states it has
visited and the events it has shown; what holds at the start and is kept by each
step holds at the end of every run. -/

namespace Transition

variable {σ ε : Type}

structure System (σ ε : Type) where
  init : σ → Prop
  step : σ → List ε → σ → Prop

/-- `S.Run hist tr s`: a run through the states `hist` with the events `tr`,
now in `s`, which is the last of `hist`. -/
inductive System.Run (S : System σ ε) : List σ → List ε → σ → Prop
  | start {s : σ} : S.init s → S.Run [s] [] s
  | next {hist : List σ} {tr es : List ε} {s s' : σ} :
      S.Run hist tr s → S.step s es s' → S.Run (hist ++ [s']) (tr ++ es) s'

def System.Reachable (S : System σ ε) (s : σ) : Prop := ∃ hist tr, S.Run hist tr s

variable {S : System σ ε}

/-- The induction over a run, for a property of the visited states, the events
and the current state. -/
theorem System.Run.inv_hist {I : List σ → List ε → σ → Prop}
    (h0 : ∀ s, S.init s → I [s] [] s)
    (hs : ∀ hist tr s es s', S.Run hist tr s → I hist tr s → S.step s es s' →
      I (hist ++ [s']) (tr ++ es) s')
    {hist : List σ} {tr : List ε} {s : σ} (h : S.Run hist tr s) : I hist tr s := by
  induction h with
  | start hi => exact h0 _ hi
  | next hr hst ih => exact hs _ _ _ _ _ hr ih hst

theorem System.Run.inv {I : List ε → σ → Prop} (h0 : ∀ s, S.init s → I [] s)
    (hs : ∀ tr s es s', I tr s → S.step s es s' → I (tr ++ es) s')
    {hist : List σ} {tr : List ε} {s : σ} (h : S.Run hist tr s) : I tr s :=
  h.inv_hist (I := fun _ tr s => I tr s) h0 fun _ _ _ _ _ _ hi hst => hs _ _ _ _ hi hst

theorem System.Reachable.inv {I : σ → Prop} (h0 : ∀ s, S.init s → I s)
    (hs : ∀ s es s', I s → S.step s es s' → I s') {s : σ} (h : S.Reachable s) : I s := by
  obtain ⟨hist, tr, hr⟩ := h
  exact hr.inv (I := fun _ s => I s) h0 fun _ _ _ _ hi hst => hs _ _ _ hi hst

theorem System.Run.last {hist : List σ} {tr : List ε} {s : σ} (h : S.Run hist tr s) :
    ∃ pre, hist = pre ++ [s] := by
  cases h with
  | start => exact ⟨[], rfl⟩
  | next _ _ => exact ⟨_, rfl⟩

/-- The same system, started in a given state. -/
def System.startingAt (S : System σ ε) (s₀ : σ) : System σ ε := { S with init := fun s => s = s₀ }

/-- A run goes on from where it has led. -/
theorem System.Run.append {s₀ s : σ} {hist hist' : List σ} {tr tr' : List ε}
    (h : S.Run hist tr s₀) (h' : (S.startingAt s₀).Run hist' tr' s) :
    ∃ post, S.Run (hist ++ post) (tr ++ tr') s := by
  induction h' with
  | start hs => exact hs ▸ ⟨[], by simpa using h⟩
  | @next _ tr' es _ s' _ hstep ih =>
    obtain ⟨post, hr⟩ := ih
    have hr' := hr.next hstep
    rw [List.append_assoc, List.append_assoc] at hr'
    exact ⟨post ++ [s'], hr'⟩

/-- The run that a list of actions takes, if none of them is refused. -/
def exec {A : Type} (step : σ → A → Option (σ × List ε)) : σ → List A → Option (σ × List ε)
  | s, [] => some (s, [])
  | s, a :: as =>
    match step s a with
    | none => none
    | some (s', es) => (exec step s' as).map fun (t, es') => (t, es ++ es')

theorem System.Run.exec {A : Type} {step : σ → A → Option (σ × List ε)}
    (hS : ∀ s a s' es, step s a = some (s', es) → S.step s es s') {as : List A} :
    ∀ {hist : List σ} {tr es : List ε} {s t : σ}, S.Run hist tr s →
      Transition.exec step s as = some (t, es) → ∃ hist', S.Run (hist ++ hist') (tr ++ es) t := by
  induction as with
  | nil =>
    intro hist tr es s t hr h
    cases h
    exact ⟨[], by simpa using hr⟩
  | cons a as ih =>
    intro hist tr es s t hr h
    simp only [Transition.exec] at h
    cases ha : step s a with
    | none => simp [ha] at h
    | some p =>
      obtain ⟨s', es₁⟩ := p
      simp only [ha, Option.map_eq_some_iff, Prod.mk.injEq, Prod.exists] at h
      obtain ⟨t', es₂, h, rfl, rfl⟩ := h
      obtain ⟨hist', hr'⟩ := ih (hr.next (hS _ _ _ _ ha)) h
      exact ⟨s' :: hist', by simpa using hr'⟩

/-- Actions that are taken one list after the other. -/
theorem exec_append {A : Type} {step : σ → A → Option (σ × List ε)} {as bs : List A} {t u : σ}
    {es' : List ε} (h' : exec step t bs = some (u, es')) : ∀ {s : σ} {es : List ε},
    exec step s as = some (t, es) → exec step s (as ++ bs) = some (u, es ++ es') := by
  induction as with
  | nil =>
    intro s es h
    cases h
    exact h'
  | cons a as ih =>
    intro s es h
    simp only [exec, List.cons_append] at h ⊢
    cases ha : step s a with
    | none => simp [ha] at h
    | some p =>
      obtain ⟨s', es₁⟩ := p
      simp only [ha, Option.map_eq_some_iff, Prod.mk.injEq, Prod.exists] at h
      obtain ⟨t', es₂, h, rfl, rfl⟩ := h
      simp only [ih h, Option.map_some, List.append_assoc]

/-- A thread that comes nearer to its goal by each step of its own, and is not set back by the others,
reaches it in as many steps of its own as it was away from it. -/
theorem exec_reaches {A : Type} {step : σ → A → Option (σ × List ε)} {I goal : σ → Prop}
    {rank : σ → ℕ} {own : A → Bool}
    (hI : ∀ s a s' es, I s → step s a = some (s', es) → I s')
    (hgoal : ∀ s, I s → rank s = 0 → goal s)
    (hown : ∀ s a s' es, I s → own a = true → step s a = some (s', es) → rank s' < rank s)
    (hother : ∀ s a s' es, I s → ¬ goal s → own a = false → step s a = some (s', es) →
      rank s' ≤ rank s)
    {as : List A} : ∀ {s s' : σ} {es : List ε}, I s → Transition.exec step s as = some (s', es) →
      rank s ≤ as.countP own → ∃ pre post t es', as = pre ++ post ∧
        Transition.exec step s pre = some (t, es') ∧ goal t := by
  induction as with
  | nil =>
    intro s s' es hi _ hle
    exact ⟨[], [], s, [], rfl, rfl, hgoal s hi (Nat.le_zero.mp hle)⟩
  | cons a as ih =>
    intro s s' es hi h hle
    by_cases hg : goal s
    · exact ⟨[], a :: as, s, [], rfl, rfl, hg⟩
    simp only [Transition.exec] at h
    cases ha : step s a with
    | none => simp [ha] at h
    | some p =>
      obtain ⟨s₁, es₁⟩ := p
      simp only [ha] at h
      obtain ⟨⟨s₂, es₂⟩, h, -⟩ := Option.map_eq_some_iff.mp h
      have hle₁ : rank s₁ ≤ as.countP own := by
        rw [List.countP_cons] at hle
        cases ho : own a with
        | true =>
          have := hown s a s₁ es₁ hi ho ha
          simp only [ho, if_true] at hle
          omega
        | false =>
          have := hother s a s₁ es₁ hi hg ho ha
          simp only [ho, Bool.false_eq_true, if_false, Nat.add_zero] at hle
          omega
      obtain ⟨pre, post, t, es', rfl, ht, hgoal⟩ := ih (hI s a s₁ es₁ hi ha) h hle₁
      refine ⟨a :: pre, post, t, es₁ ++ es', rfl, ?_, hgoal⟩
      simp only [Transition.exec, ha, ht, Option.map_some]

/-- Some visited state satisfied `P`, and all later ones satisfied `Q`. -/
def Since (P Q : σ → Prop) (hist : List σ) : Prop :=
  ∃ pre s post, hist = pre ++ s :: post ∧ P s ∧ ∀ t ∈ post, Q t

theorem since_now {P Q : σ → Prop} {s : σ} (hist : List σ) (h : P s) :
    Since P Q (hist ++ [s]) := ⟨hist, s, [], rfl, h, by simp⟩

theorem Since.snoc {P Q : σ → Prop} {hist : List σ} {s : σ} (h : Since P Q hist) (hs : Q s) :
    Since P Q (hist ++ [s]) := by
  obtain ⟨pre, t, post, rfl, hp, hq⟩ := h
  refine ⟨pre, t, post ++ [s], by simp, hp, fun u hu => ?_⟩
  rcases List.mem_append.mp hu with hu | hu
  · exact hq u hu
  · exact List.mem_singleton.mp hu ▸ hs

theorem Since.append {P Q : σ → Prop} {hist post : List σ} (h : Since P Q hist)
    (hp : ∀ s ∈ post, Q s) : Since P Q (hist ++ post) := by
  obtain ⟨pre, t, post', rfl, ht, hq⟩ := h
  refine ⟨pre, t, post' ++ post, by simp, ht, fun u hu => ?_⟩
  rcases List.mem_append.mp hu with hu | hu
  · exact hq u hu
  · exact hp u hu

/-- What is excluded later has been followed by `P`. -/
theorem Since.follows {P Q : σ → Prop} {hist pre post : List σ} {s : σ} (h : Since P Q hist)
    (hs : hist = pre ++ s :: post) (hp : ¬ P s) (hq : ¬ Q s) : ∃ t ∈ post, P t := by
  obtain ⟨pre', t, post', he, ht, hall⟩ := h
  rw [hs] at he
  rcases List.append_eq_append_iff.mp he with ⟨mid, -, hmid⟩ | ⟨mid, -, hmid⟩
  · cases mid with
    | nil =>
      obtain ⟨rfl, -⟩ := List.cons.inj hmid
      exact absurd ht hp
    | cons u mid =>
      obtain ⟨rfl, rfl⟩ := List.cons.inj hmid
      exact ⟨t, by simp, ht⟩
  · cases mid with
    | nil =>
      obtain ⟨rfl, -⟩ := List.cons.inj hmid
      exact absurd ht hp
    | cons u mid =>
      obtain ⟨rfl, rfl⟩ := List.cons.inj hmid
      exact absurd (hall s (by simp)) hq

/-- Each event is as `P` allows after the events before it. -/
def Each (P : List ε → ε → Prop) (tr : List ε) : Prop :=
  ∀ pre e post, tr = pre ++ e :: post → P pre e

theorem each_nil {P : List ε → ε → Prop} : Each P [] := by
  intro pre e post h
  cases pre <;> cases h

theorem Each.snoc {P : List ε → ε → Prop} {tr : List ε} {e : ε} (h : Each P tr) (he : P tr e) :
    Each P (tr ++ [e]) := by
  intro pre e' post heq
  induction post using List.reverseRecOn with
  | nil =>
    obtain ⟨rfl, hlast⟩ := List.append_inj' heq rfl
    exact (List.singleton_inj.mp hlast) ▸ he
  | append_singleton post last _ =>
    rw [← List.cons_append, ← List.append_assoc] at heq
    exact h pre e' post (List.append_inj' heq rfl).1

theorem Each.append {P : List ε → ε → Prop} {tr es : List ε} (h : Each P tr)
    (hes : ∀ pre, ∀ e ∈ es, P pre e) : Each P (tr ++ es) := by
  induction es using List.reverseRecOn with
  | nil => rwa [List.append_nil]
  | append_singleton es e ih =>
    rw [← List.append_assoc]
    exact (ih fun pre e he => hes pre e (List.mem_append_left _ he)).snoc (hes _ e (by simp))

end Transition
