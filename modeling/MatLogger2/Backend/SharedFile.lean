import MatLogger2.Backend.Series
import MatLogger2.Logger.Interleaved

/-! The file that a logger shared by two threads leaves behind: the samples of its vector variables,
and what it has saved. -/

namespace XBot

open Matio VariableBuffer MatLogger2 Transition Ledger

variable {α : Type} {opt : Options} {hist : List (Shared α)} {tr : List (LoggerEvent α)}
variable {s : Shared α}

namespace Shared

end Shared

namespace MatLogger2

/-- The first value that is saved under a name gets into a new file, if no variable has the name. -/
theorem CallsOf.held {vars : List (StdString × VariableBuffer α)} {saved : List (StdString × MatData α)}
    {calls : List (BackendCall α)} (h : CallsOf vars saved calls) {lib : Library α} {heap : Heap}
    {f : MatFile α} (hfold : file lib heap calls = some ⟨some f, false⟩)
    {before after : List (StdString × MatData α)} {name : StdString} {value : MatData α}
    (hsaved : saved = before ++ (name, value) :: after)
    (hfirst : ∀ p ∈ before, cstr p.1 ≠ cstr name) (hvars : ∀ p ∈ vars, cstr p.1 ≠ cstr name)
    (hwf : MatData.Each MatData.WellFormed value) (hstorable : MatData.Each MatData.Storable value) :
    Held f name value := by
  have hcont := h.containers
  rw [hsaved, XBot.containers, List.filterMap_eq_append_iff] at hcont
  obtain ⟨pre, post, rfl, hpre, hpost⟩ := hcont
  obtain ⟨skip, call, rest, rfl, hskip, hcall, -⟩ := List.filterMap_eq_cons_iff.mp hpost
  obtain rfl : call = .writeContainer name value := by
    cases call with
    | write => cases hcall
    | writeContainer => cases hcall; rfl
  have hsound := h.sound
  rw [← List.append_assoc, List.forall_mem_append, List.forall_mem_cons] at hsound
  obtain ⟨hsound₁, -, hsound₂⟩ := hsound
  -- nothing is written under the name before the value is
  obtain ⟨f₁, hf₁, hkeep₁⟩ := MatioBackend.perform_frame lib heap hsound₁ .empty
  have hapart : ∀ call ∈ pre ++ skip, call.target ≠ cstr name := by
    intro call hc
    have hmem : call ∈ pre ++ (skip ++ BackendCall.writeContainer name value :: rest) := by
      rw [← List.append_assoc]
      exact List.mem_append_left _ hc
    rcases h.target_cases hmem with ⟨p, -, rfl⟩ | ⟨p, hp, -, hpt⟩
    · rcases List.mem_append.mp hc with hc | hc
      · refine hfirst p ?_
        rw [← hpre]
        exact List.mem_filterMap.mpr ⟨_, hc, rfl⟩
      · cases hskip _ hc
    · rw [hpt]
      exact hvars p hp
  have hfree : f₁.find (cstr name) = none := (hkeep₁ _ (.inl hapart)).1
  obtain ⟨m, hp, hdenotes⟩ := perform_container lib heap (p := (name, value)) hfree hwf hstorable
  obtain ⟨f₂, hf₂, hkeep₂⟩ := MatioBackend.perform_frame lib heap hsound₂ (f₁.put (cstr name) m false)
  have hfixed := MatFile.fixed_put f₁ (cstr name) m
  have hall : file lib heap ((pre ++ skip) ++ BackendCall.writeContainer name value :: rest) =
      some ⟨some f₂, false⟩ := by
    rw [file_append, file, MatioBackend.init, hf₁, Option.bind_some, List.foldlM_cons, hp]
    exact hf₂
  rw [← List.append_assoc, hall] at hfold
  cases hfold
  exact ⟨m, (hfixed.of_same (hkeep₂ _ (.inr ⟨m, hfixed⟩))).1, hdenotes⟩

end MatLogger2

end XBot
