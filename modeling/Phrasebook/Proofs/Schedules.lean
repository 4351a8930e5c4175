import Phrasebook.Proofs.CountOrder
import Phrasebook.Proofs.Runs

/-! Runs in parallel. What is made for an intent depends on those counted before it only through the
counts of units that refer to themselves; where these are counted, every schedule gives what the run
in turn gives. -/

namespace Phrasebook

namespace Registry

variable {registry : Registry} {options : Options} {schedule other : Schedule}

/-- The intents have the same results under all schedules. -/
theorem results_eq_of_allows (hcheck : registry.check = .ok ()) (hloops : registry.LoopsCounted)
    (hschedule : registry.Allows options schedule) (hother : registry.Allows options other) :
    (registry.process options schedule.counted).results registry.intents =
      (registry.process options other.counted).results registry.intents := by
  refine List.filterMap_congr fun definition hmem => ?_
  obtain ⟨turn, -, hmade⟩ := hschedule.exists_made hmem
  obtain ⟨turn', -, hmade'⟩ := hother.exists_made hmem
  have hsame := (countUnit_eq_of_counted hcheck hloops (get?_of_mem_intents hmem)
    (hschedule.counted_take turn) (hother.counted_take turn')).2 options
  rw [hmade, hmade', hsame]

/-- Where all loops are counted, a run gives the same under all schedules. -/
theorem generateBy_eq_ok_of_loopsCounted (hloops : registry.LoopsCounted)
    (hschedule : registry.Allows options schedule) (hother : registry.Allows options other)
    {generation : Generation} (h : registry.generateBy options schedule = .ok generation) :
    registry.generateBy options other = .ok generation := by
  obtain ⟨hoptions, hcheck, outcomes, hall, rfl⟩ := (generateBy_eq_ok_iff hschedule).mp h
  refine (generateBy_eq_ok_iff hother).mpr ⟨hoptions, hcheck, outcomes, ?_, rfl⟩
  rw [← hother.results_eq_iff, ← results_eq_of_allows hcheck hloops hschedule hother]
  exact hschedule.results_eq_iff.mpr hall

end Registry

end Phrasebook
