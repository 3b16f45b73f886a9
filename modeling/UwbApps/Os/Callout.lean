import Mathlib.Tactic.Ring

/-!
# Callouts and configuration values

A callout counts down and then puts its event on the queue.  `Dpl` is what the operating system
does about it: how many ticks a second has, what resetting a callout does to it, and how
`conf_value_from_str` reads a string as an `int16_t` or puts it into a field.  The fields that are
laws are what its callers rely on.  A tick count is taken as signed, and a callout reset to a
negative one is not armed.
-/

set_option autoImplicit false

namespace UwbApps.Os

/-- `struct dpl_callout`: counting down, or its event on the queue. -/
structure DplCallout where
  armed : Bool
  pending : Bool
deriving DecidableEq

/-- The operating system under a callout. -/
structure Dpl where
  /-- `DPL_TICKS_PER_SEC`. -/
  ticksPerSec : ℕ
  dplCalloutReset : DplCallout → BitVec 32 → DplCallout
  /-- `conf_value_from_str` with `CONF_INT16`. -/
  confInt16 : String → Option Int16
  /-- `conf_value_from_str` with `CONF_STRING`: what a field of so many bytes then holds. -/
  confString : ℕ → String → Option String
  ticksPerSec_lt : ticksPerSec < 2 ^ 31
  reset_armed : ∀ c ticks, 0 ≤ ticks.toInt → (dplCalloutReset c ticks).armed
  reset_of_neg : ∀ c ticks, ticks.toInt < 0 → (dplCalloutReset c ticks).armed → c.armed

/-- The time runs out. -/
def DplCallout.expire (c : DplCallout) : Option DplCallout :=
  if c.armed then some { armed := false, pending := true } else none

/-- The event queue takes the event to run it. -/
def DplCallout.take (c : DplCallout) : Option DplCallout :=
  if c.pending then some { c with pending := false } else none

/-- The event will be run, sooner or later. -/
def DplCallout.Live (c : DplCallout) : Prop := c.armed ∨ c.pending

instance (c : DplCallout) : Decidable c.Live := inferInstanceAs (Decidable (_ ∨ _))

/-- `DPL_TICKS_PER_SEC / rate`, as the tick count it is passed as. -/
def Dpl.period (d : Dpl) (rate : Int16) : BitVec 32 :=
  BitVec.ofInt 32 ((d.ticksPerSec : ℤ).tdiv rate.toInt)

/-- A positive rate gives a tick count that arms. -/
theorem Dpl.period_nonneg (d : Dpl) {rate : Int16} (h : 0 < rate.toInt) :
    0 ≤ (d.period rate).toInt := by
  have hlow : 0 ≤ (d.ticksPerSec : ℤ).tdiv rate.toInt := Int.tdiv_nonneg (by omega) (Int.le_of_lt h)
  have hhigh : (d.ticksPerSec : ℤ).tdiv rate.toInt ≤ d.ticksPerSec := by
    rw [Int.tdiv_eq_ediv_of_nonneg (by omega)]
    exact Int.ediv_le_self _ (by omega)
  have hlt := d.ticksPerSec_lt
  rw [Dpl.period, BitVec.toInt_ofInt, Int.bmod_eq_of_le (by omega) (by omega)]
  exact hlow

end UwbApps.Os
