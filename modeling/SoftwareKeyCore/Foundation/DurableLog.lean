import SoftwareKeyCore.Foundation.TransitionSystem

/-!
# Durable logs

What a component that makes entries durable promises, whatever its threads do: entries are
appended, a front part of the log becomes durable and grows, and a front part is acknowledged
only when it is durable. `Consistent` holds in every reachable log
(`consistent_of_reachable`): what was acknowledged once is durable ever after.
-/

set_option autoImplicit false
set_option relaxedAutoImplicit false

namespace SoftwareKeyCore

/-- The entries, how many of them are durable, and the lengths of the acknowledged front parts. -/
structure DurableLog (α : Type) where
  entries : List α
  durable : ℕ
  acknowledged : List ℕ

namespace DurableLog

variable {α : Type}

/-- What happens to a log. -/
inductive Event (α : Type)
  | append (entry : α)
  | persist (durable : ℕ)
  | acknowledge (bound : ℕ)

/-- The durable part only grows, within the log, and only what is durable is acknowledged. -/
def step (log : DurableLog α) : Event α → Option (DurableLog α)
  | .append entry => some { log with entries := log.entries ++ [entry] }
  | .persist durable =>
    if log.durable ≤ durable ∧ durable ≤ log.entries.length then
      some { log with durable := durable }
    else none
  | .acknowledge bound =>
    if bound ≤ log.durable then some { log with acknowledged := log.acknowledged ++ [bound] }
    else none

/-- A log starts empty. -/
def system (α : Type) : TransitionSystem (DurableLog α) (Event α) where
  Initial := fun log ↦ log = ⟨[], 0, []⟩
  step := step

/-- Acknowledged is durable, and durable is in the log. -/
structure Consistent (log : DurableLog α) : Prop where
  durable_le : log.durable ≤ log.entries.length
  acknowledged_le : ∀ bound ∈ log.acknowledged, bound ≤ log.durable

theorem consistent_step {log log' : DurableLog α} {event : Event α} (hlog : log.Consistent)
    (hstep : log.step event = some log') : log'.Consistent := by
  cases event with
  | append entry =>
    obtain rfl := Option.some.inj hstep
    refine ⟨?_, hlog.acknowledged_le⟩
    have hlength : log.entries.length ≤ (log.entries ++ [entry]).length := by simp
    exact hlog.durable_le.trans hlength
  | persist durable =>
    rw [step, Option.ite_none_right_eq_some] at hstep
    obtain ⟨⟨hgrows, hwithin⟩, hlog'⟩ := hstep
    obtain rfl := Option.some.inj hlog'
    exact ⟨hwithin, fun bound hbound ↦ (hlog.acknowledged_le bound hbound).trans hgrows⟩
  | acknowledge bound =>
    rw [step, Option.ite_none_right_eq_some] at hstep
    obtain ⟨hbound, hlog'⟩ := hstep
    obtain rfl := Option.some.inj hlog'
    refine ⟨hlog.durable_le, ?_⟩
    intro bound' hbound'
    rcases List.mem_append.mp hbound' with hold | hnew
    · exact hlog.acknowledged_le bound' hold
    · rw [List.mem_singleton.mp hnew]
      exact hbound

/-- In every reachable log what was acknowledged is durable. -/
theorem consistent_of_reachable {log : DurableLog α} (hreachable : (system α).Reachable log) :
    log.Consistent := by
  refine hreachable.invariant Consistent ?_ fun _ _ _ _ _ hlog hstep ↦ consistent_step hlog hstep
  rintro _ rfl
  exact ⟨le_refl _, by simp⟩

end DurableLog

end SoftwareKeyCore
