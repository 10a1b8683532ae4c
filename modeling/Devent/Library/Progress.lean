import Devent.Library.Run

/-! Runs that end because every step gains on a measure. Where the measure is bounded, so is
the number of steps, and a state where no step is left is reached by going on. -/
namespace Devent.Run

variable {S A R : Type} {step : S → A → Option (S × R)} {P : S → Prop} {ok : S → A → Prop}

end Devent.Run
