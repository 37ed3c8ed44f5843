import Mathlib.Data.List.Basic
import Mathlib.Tactic.Common

/-! # Reading a trace

A trace is a list of events, newest first. A question about it is answered by
the newest event that is not silent: `tells` is `none` for an event that is silent
on the question and `some answer` for one that settles it.
-/

namespace Foundation

universe u v

variable {Event : Type u} {Answer : Type v} {tells : Event → Option (Option Answer)}

/-- The answer of the newest event that is not silent. -/
def latest (tells : Event → Option (Option Answer)) : List Event → Option Answer
  | [] => none
  | event :: older => (tells event).getD (latest tells older)

theorem latest_cons_of_silent {event : Event} (hsilent : tells event = none)
    (older : List Event) : latest tells (event :: older) = latest tells older := by
  simp [latest, hsilent]

theorem latest_cons_of_tells {event : Event} {answer : Option Answer}
    (htells : tells event = some answer) (older : List Event) :
    latest tells (event :: older) = answer := by
  simp [latest, htells]

theorem latest_append_of_silent {newer : List Event}
    (hsilent : ∀ event ∈ newer, tells event = none) (older : List Event) :
    latest tells (newer ++ older) = latest tells older := by
  induction newer with
  | nil => rfl
  | cons event rest ih =>
      rw [List.cons_append, latest_cons_of_silent (hsilent event List.mem_cons_self)]
      exact ih (fun later hlater => hsilent later (List.mem_cons_of_mem event hlater))

/-- Where all newer events agree, or are silent, the answer is theirs or an older one. -/
theorem latest_append_of_tells {newer : List Event} {answer : Option Answer}
    (htells : ∀ event ∈ newer, tells event = none ∨ tells event = some answer)
    (older : List Event) :
    latest tells (newer ++ older) = answer ∨ latest tells (newer ++ older) = latest tells older := by
  induction newer with
  | nil => exact .inr rfl
  | cons event rest ih =>
      rw [List.cons_append]
      rcases htells event List.mem_cons_self with hsilent | hsettled
      · rw [latest_cons_of_silent hsilent]
        exact ih (fun later hlater => htells later (List.mem_cons_of_mem event hlater))
      · exact .inl (latest_cons_of_tells hsettled _)

end Foundation
