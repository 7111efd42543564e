/-!
# Runs of calls

A state that answers calls one after the other, and when two of them answer alike.
-/

namespace Runs

variable {S T C A : Type}

/-- The answers to some calls. -/
def answers (step : S → C → A × S) (s : S) : List C → List A
  | [] => []
  | call :: calls => (step s call).1 :: answers step (step s call).2 calls

/-- The state after some calls. -/
def after (step : S → C → A × S) (s : S) : List C → S
  | [] => s
  | call :: calls => after step (step s call).2 calls

section

variable {step : S → C → A × S} {step' : T → C → A × T}

/-- States that are related answer alike, and stay so, when every call keeps them. -/
theorem simulates {R : S → T → Prop}
    (hstep : ∀ s t call, R s t →
      (step s call).1 = (step' t call).1 ∧ R (step s call).2 (step' t call).2)
    {s : S} {t : T} (h : R s t) (calls : List C) :
    answers step s calls = answers step' t calls ∧
      R (after step s calls) (after step' t calls) := by
  induction calls generalizing s t with
  | nil => exact ⟨rfl, h⟩
  | cons call calls ih =>
    obtain ⟨hanswer, hnext⟩ := hstep s t call h
    obtain ⟨hanswers, hafter⟩ := ih hnext
    refine ⟨?_, hafter⟩
    rw [answers, answers, hanswer, hanswers]

end

end Runs
