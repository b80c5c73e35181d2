import Mathlib.Tactic

/-! Computations that return a value, throw, or have no defined behaviour. -/

inductive Exec (β : Type)
  | value (b : β)
  | thrown (what : String)
  | undefined

namespace Exec

variable {β γ σ : Type}

def bind (x : Exec β) (f : β → Exec γ) : Exec γ :=
  match x with
  | value b => f b
  | thrown what => thrown what
  | undefined => undefined

theorem bind_eq_value {x : Exec β} {f : β → Exec γ} {c : γ} :
    x.bind f = value c ↔ ∃ b, x = value b ∧ f b = value c := by
  cases x <;> simp [bind]

/-- Run all of them, one after the other. -/
def all : List (Exec β) → Exec (List β)
  | [] => value []
  | x :: xs => x.bind fun b => (all xs).bind fun bs => value (b :: bs)

theorem all_eq_value {xs : List (Exec β)} {bs : List β} :
    all xs = value bs ↔ List.Forall₂ (fun x b => x = value b) xs bs := by
  induction xs generalizing bs with
  | nil =>
    simp only [all, value.injEq]
    exact ⟨fun h => h ▸ .nil, fun h => by cases h; rfl⟩
  | cons x xs ih =>
    simp only [all, bind_eq_value, value.injEq]
    constructor
    · rintro ⟨b, hx, bs, hxs, rfl⟩
      exact .cons hx (ih.mp hxs)
    · intro h
      cases h with
      | cons hx hxs => exact ⟨_, hx, _, ih.mpr hxs, rfl⟩

/-- Related elements can be found one by one. -/
theorem exists_forall₂_iff {R : β → γ → Prop} {bs : List β} :
    (∃ cs, List.Forall₂ R bs cs) ↔ ∀ b ∈ bs, ∃ c, R b c := by
  induction bs with
  | nil => exact iff_of_true ⟨[], .nil⟩ (by simp)
  | cons b bs ih =>
    rw [List.forall_mem_cons, ← ih]
    constructor
    · rintro ⟨cs, hcs⟩
      cases hcs with
      | cons hb hbs => exact ⟨⟨_, hb⟩, _, hbs⟩
    · rintro ⟨⟨c, hb⟩, cs, hbs⟩
      exact ⟨c :: cs, .cons hb hbs⟩

/-- What each of the related elements is equivalent to. -/
theorem forall₂_iff_forall {R : β → γ → Prop} {P : β → Prop} {bs : List β} {cs : List γ}
    (h : List.Forall₂ (fun b c => R b c ↔ P b) bs cs) : List.Forall₂ R bs cs ↔ ∀ b ∈ bs, P b := by
  induction h with
  | nil => exact iff_of_true .nil (by simp)
  | cons hb _ ih => rw [List.forall₂_cons, List.forall_mem_cons, hb, ih]

def foldl (f : σ → β → Exec σ) : σ → List β → Exec σ
  | s, [] => value s
  | s, b :: bs => (f s b).bind fun s => foldl f s bs

@[simp] theorem foldl_nil (f : σ → β → Exec σ) (s : σ) : foldl f s [] = value s := rfl

theorem foldl_cons_eq_value {f : σ → β → Exec σ} {s t : σ} {b : β} {bs : List β} :
    foldl f s (b :: bs) = value t ↔ ∃ s', f s b = value s' ∧ foldl f s' bs = value t :=
  bind_eq_value

/-- The elements that a loop comes to, which goes on as long as there is a value. -/
def reached (f : β → Exec γ) : List β → List β
  | [] => []
  | b :: bs =>
    b :: match f b with
      | value _ => reached f bs
      | thrown _ => []
      | undefined => []

theorem mem_of_mem_reached {f : β → Exec γ} {bs : List β} {b : β} (h : b ∈ reached f bs) : b ∈ bs := by
  induction bs with
  | nil => cases h
  | cons b' bs ih =>
    rw [reached, List.mem_cons] at h
    rcases h with rfl | h
    · exact List.mem_cons_self
    · cases hb : f b' with
      | value c =>
        rw [hb] at h
        exact List.mem_cons_of_mem b' (ih h)
      | thrown what => simp [hb] at h
      | undefined => simp [hb] at h

/-- Where all that are reached have a value, all have. -/
theorem reached_eq {f : β → Exec γ} {bs : List β} (h : ∀ b ∈ reached f bs, ∃ c, f b = value c) :
    reached f bs = bs := by
  induction bs with
  | nil => rfl
  | cons b bs ih =>
    obtain ⟨c, hc⟩ := h b (by rw [reached]; exact List.mem_cons_self)
    rw [reached, hc] at h ⊢
    exact congrArg (b :: ·) (ih fun b' hb' => h b' (List.mem_cons_of_mem b hb'))

theorem forall_value_iff {f : β → Exec γ} {bs : List β} :
    (∀ b ∈ bs, ∃ c, f b = value c) ↔ ∀ b ∈ reached f bs, ∃ c, f b = value c := by
  refine ⟨fun h b hb => h b (mem_of_mem_reached hb), fun h => ?_⟩
  rw [reached_eq h] at h
  exact h

end Exec
