import TreeSync.Machine.Polling
import TreeSync.Machine

/-!
# TreeSync.Proofs.Machine.Polling

What comes of asking again and again.

If something holds before, and looking at the clock, sleeping and asking in vain all
keep it, then it held when the last question was asked, and the answer to that one
is the answer of the whole (`ends_waitFor`).
-/

namespace TreeSync.Clock

variable {α : Type} {clock : Clock (StateM Machine)} {check : StateM Machine (Option α)}
  {holds : Machine → Prop}

/-- Waiting for the answer of a check keeps something. -/
structure Keeps (clock : Clock (StateM Machine)) (check : StateM Machine (Option α))
    (holds : Machine → Prop) : Prop where
  now : ∀ machine, holds machine → holds (clock.now.run machine).run.2
  sleep : ∀ ms machine, holds machine → holds ((clock.sleep ms).run machine).run.2
  refused : ∀ machine, holds machine → (check.run machine).run.1 = none →
    holds (check.run machine).run.2

/-- How the last question was answered, while something held. -/
inductive Ends (check : StateM Machine (Option α)) (holds : Machine → Prop) :
    Option α × Machine → Prop
  | answered {asked after : Machine} {value : α} (hasked : holds asked)
      (hanswer : (check.run asked).run = (some value, after)) : Ends check holds (some value, after)
  | refused {asked after : Machine} (hasked : holds asked)
      (hanswer : (check.run asked).run.1 = none) (hafter : holds after) :
      Ends check holds (none, after)

/-- One question, and what follows a refusal. -/
theorem run_pollWithin {World : Type} (clock : Clock (StateM World))
    (check : StateM World (Option α)) (deadline interval calls : Nat) (world : World) :
    ((clock.pollWithin deadline interval check (calls + 1)).run world).run =
      match (check.run world).run with
      | (some value, after) => (some value, after)
      | (none, after) =>
          if deadline ≤ (clock.now.run after).run.1 then (none, (clock.now.run after).run.2)
          else
            ((clock.pollWithin deadline interval check calls).run
              ((clock.sleep interval).run (clock.now.run after).run.2).run.2).run := by
  rw [pollWithin, StateT.run_bind, Id.run_bind]
  cases (check.run world).run with
  | mk answer after =>
      cases answer with
      | some value => rfl
      | none =>
          simp only [StateT.run_bind, Id.run_bind]
          split <;> rfl

/-- One call more: either the calls after it end as said, or there are none. -/
theorem ends_succ (h : clock.Keeps check holds) {deadline interval calls : Nat}
    (hrest : ∀ machine, holds machine →
      (∃ after, ((clock.pollWithin deadline interval check calls).run machine).run =
        (none, after) ∧ holds after) ∨
      Ends check holds ((clock.pollWithin deadline interval check calls).run machine).run)
    {machine : Machine} (hmachine : holds machine) :
    Ends check holds
      ((clock.pollWithin deadline interval check (calls + 1)).run machine).run := by
  rw [run_pollWithin]
  split
  · next value after hanswer => exact .answered hmachine hanswer
  · next after hanswer =>
      have hrefused : (check.run machine).run.1 = none := by rw [hanswer]
      have hafter := h.refused machine hmachine hrefused
      rw [hanswer] at hafter
      split
      · exact .refused hmachine hrefused (h.now after hafter)
      · obtain ⟨last, hlast, hholds⟩ | hends := hrest _ (h.sleep interval _ (h.now after hafter))
        · rw [hlast]
          exact .refused hmachine hrefused hholds
        · exact hends

theorem ends_pollWithin (h : clock.Keeps check holds) (deadline interval calls : Nat)
    {machine : Machine} (hmachine : holds machine) :
    Ends check holds
      ((clock.pollWithin deadline interval check (calls + 1)).run machine).run := by
  induction calls generalizing machine with
  | zero => exact ends_succ h (fun machine hholds => Or.inl ⟨machine, rfl, hholds⟩) hmachine
  | succ calls ih => exact ends_succ h (fun machine hholds => Or.inr (ih hholds)) hmachine

/-- **Asking until the time is up** ends with the answer to the last question. -/
theorem ends_waitFor (h : clock.Keeps check holds) (timeout interval : Nat) {machine : Machine}
    (hmachine : holds machine) :
    Ends check holds ((clock.waitFor timeout interval check).run machine).run := by
  rw [waitFor, StateT.run_bind, Id.run_bind]
  exact ends_pollWithin h _ interval _ (h.now machine hmachine)

/-- What asking keeps in any case is kept to the end. -/
theorem Ends.kept {ending : Option α × Machine} (h : Ends check holds ending)
    (hcheck : ∀ machine, holds machine → holds (check.run machine).run.2) : holds ending.2 := by
  cases h with
  | answered hasked hanswer =>
      have hafter := hcheck _ hasked
      rwa [hanswer] at hafter
  | refused hasked hanswer hafter => exact hafter

end TreeSync.Clock
