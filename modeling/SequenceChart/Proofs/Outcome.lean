/-! Results that may fail, taken apart: what a success of two steps in a row says about each of them. -/

namespace SequenceChart

variable {ε α β : Type}

theorem bind_eq_ok {first : Except ε α} {second : α → Except ε β} {result : β} :
    first >>= second = .ok result ↔ ∃ value, first = .ok value ∧ second value = .ok result := by
  cases first with
  | error fault => exact ⟨nofun, nofun⟩
  | ok value => exact ⟨fun h => ⟨value, rfl, h⟩, fun ⟨_, rfl, h⟩ => h⟩

theorem map_eq_ok {outcome : Except ε α} {f : α → β} {result : β} :
    outcome.map f = .ok result ↔ ∃ value, outcome = .ok value ∧ f value = result := by
  cases outcome with
  | error fault => exact ⟨nofun, nofun⟩
  | ok value => exact ⟨fun h => ⟨value, rfl, Except.ok.inj h⟩, fun ⟨_, rfl, h⟩ => congrArg Except.ok h⟩

theorem map_map {γ : Type} (outcome : Except ε α) (f : α → β) (g : β → γ) :
    (outcome.map f).map g = outcome.map fun value => g (f value) := by
  cases outcome <;> rfl

theorem mapError_eq_ok {δ : Type} {outcome : Except ε α} {f : ε → δ} {result : α} :
    outcome.mapError f = .ok result ↔ outcome = .ok result := by
  cases outcome with
  | error fault => exact ⟨nofun, nofun⟩
  | ok value => exact ⟨fun h => congrArg Except.ok (Except.ok.inj h), fun h => congrArg Except.ok (Except.ok.inj h)⟩

theorem mapError_eq_error {δ : Type} {outcome : Except ε α} {f : ε → δ} {result : δ} :
    outcome.mapError f = .error result ↔ ∃ fault, outcome = .error fault ∧ f fault = result := by
  cases outcome with
  | error fault => exact ⟨fun h => ⟨fault, rfl, Except.error.inj h⟩, fun ⟨_, rfl, h⟩ => congrArg Except.error h⟩
  | ok value => exact ⟨nofun, nofun⟩

theorem isOk_iff {outcome : Except ε α} : outcome.isOk = true ↔ ∃ value, outcome = .ok value := by
  cases outcome with
  | error fault => exact ⟨nofun, nofun⟩
  | ok value => exact ⟨fun _ => ⟨value, rfl⟩, fun _ => rfl⟩

instance decidableEqError [DecidableEq ε] (outcome : Except ε α) (fault : ε) : Decidable (outcome = .error fault) :=
  match outcome with
  | .ok _ => isFalse nofun
  | .error first => decidable_of_iff (first = fault) ⟨congrArg Except.error, Except.error.inj⟩

theorem toOption_map_eq_some {outcome : Except ε α} {f : α → β} {result : β} :
    outcome.toOption.map f = some result ↔ ∃ value, outcome = .ok value ∧ f value = result := by
  cases outcome with
  | error fault => exact ⟨nofun, nofun⟩
  | ok value => exact ⟨fun h => ⟨value, rfl, Option.some.inj h⟩, fun ⟨_, rfl, h⟩ => congrArg some h⟩

end SequenceChart
