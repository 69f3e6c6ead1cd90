import Mathlib

/-!
# The boot clock of the runtime

The runtime takes the time from the normal world, in seconds and milliseconds, and gives it to its
profiling code as microseconds.  Both multiplications are done with 32 bits, and only the product
is widened to 64 bits.  The clock therefore shows the microseconds modulo `2 ^ 32`, and starts
again at zero after about 72 minutes.
-/

namespace Watz.Wamr

/-- `TEE_Time`, as `TEE_GetREETime` returns it. -/
structure TeeTime where
  seconds : UInt32
  millis : UInt32
  millis_lt : millis < 1000
  deriving DecidableEq

namespace TeeTime

/-- Times are ordered by their seconds, then by their milliseconds. -/
def Le (t₁ t₂ : TeeTime) : Prop :=
  t₁.seconds < t₂.seconds ∨ t₁.seconds = t₂.seconds ∧ t₁.millis ≤ t₂.millis

instance (t₁ t₂ : TeeTime) : Decidable (t₁.Le t₂) := inferInstanceAs (Decidable (_ ∨ _))

/-- The microseconds since 1970. -/
def microseconds (t : TeeTime) : ℕ := (t.seconds.toNat * 1000 + t.millis.toNat) * 1000

end TeeTime

/-- `tee_time_to_ms`. -/
def teeTimeToMs (t : TeeTime) : UInt32 := t.seconds * 1000 + t.millis

/-- `os_time_get_boot_microsecond`, for the time that `TEE_GetREETime` has returned. -/
def osTimeGetBootMicrosecond (t : TeeTime) : UInt64 := (teeTimeToMs t * 1000).toUInt64

variable {t₁ t₂ : TeeTime}

lemma osTimeGetBootMicrosecond_toNat (t : TeeTime) :
    (osTimeGetBootMicrosecond t).toNat = t.microseconds % 2 ^ 32 := by
  rw [osTimeGetBootMicrosecond, teeTimeToMs, UInt32.toNat_toUInt64, UInt32.toNat_mul,
    UInt32.toNat_add, UInt32.toNat_mul, TeeTime.microseconds]
  show ((t.seconds.toNat * 1000 % 2 ^ 32 + t.millis.toNat) % 2 ^ 32 * 1000) % 2 ^ 32 = _
  omega

lemma TeeTime.microseconds_lt (t : TeeTime) : t.microseconds < 2 ^ 52 := by
  have hs := t.seconds.toNat_lt
  have hm : t.millis.toNat < 1000 := t.millis_lt
  rw [microseconds]
  omega

lemma TeeTime.Le.microseconds_le (h : t₁.Le t₂) : t₁.microseconds ≤ t₂.microseconds := by
  have hm : t₁.millis.toNat < 1000 := t₁.millis_lt
  rw [microseconds, microseconds]
  rcases h with hlt | ⟨heq, hle⟩
  · have hlt : t₁.seconds.toNat < t₂.seconds.toNat := hlt
    omega
  · have hle : t₁.millis.toNat ≤ t₂.millis.toNat := hle
    rw [heq]
    omega

/-- The difference of two readings is the elapsed time exactly if no multiple of `2 ^ 32`
microseconds lies between them. -/
theorem bootClock_elapsed_iff (h : t₁.Le t₂) :
    (osTimeGetBootMicrosecond t₂ - osTimeGetBootMicrosecond t₁).toNat
        = t₂.microseconds - t₁.microseconds
      ↔ t₁.microseconds / 2 ^ 32 = t₂.microseconds / 2 ^ 32 := by
  have hle := h.microseconds_le
  have hlt := t₂.microseconds_lt
  rw [UInt64.toNat_sub, osTimeGetBootMicrosecond_toNat, osTimeGetBootMicrosecond_toNat]
  -- the quotients are below `2 ^ 20`, so the difference of 64 bits cannot hide one of them
  omega

/-- Two readings in the second hour. -/
theorem bootClock_elapsed_iff_sample :
    TeeTime.Le ⟨5000, 0, by decide⟩ ⟨5001, 20, by decide⟩
      ∧ ((osTimeGetBootMicrosecond ⟨5001, 20, by decide⟩
          - osTimeGetBootMicrosecond ⟨5000, 0, by decide⟩).toNat
            = TeeTime.microseconds ⟨5001, 20, by decide⟩
              - TeeTime.microseconds ⟨5000, 0, by decide⟩
        ↔ TeeTime.microseconds ⟨5000, 0, by decide⟩ / 2 ^ 32
            = TeeTime.microseconds ⟨5001, 20, by decide⟩ / 2 ^ 32) :=
  ⟨by decide, bootClock_elapsed_iff (by decide)⟩

/-- 33 milliseconds after 4294.967 seconds the clock shows less than before. -/
theorem bootClock_runs_backwards :
    ∃ t₁ t₂ : TeeTime, t₁.Le t₂ ∧ osTimeGetBootMicrosecond t₂ < osTimeGetBootMicrosecond t₁
      ∧ t₂.microseconds - t₁.microseconds = 33000
      ∧ (osTimeGetBootMicrosecond t₂ - osTimeGetBootMicrosecond t₁).toNat ≠ 33000 :=
  ⟨⟨4294, 967, by decide⟩, ⟨4295, 0, by decide⟩, by decide, by decide, by decide, by decide⟩

end Watz.Wamr
