import Folio.Failure
/-!
# Timeouts

How long a lock may be waited for: a number of seconds whose nanoseconds, rounded away from zero,
fit in 64 bits with a sign and are not negative. Minus one second stands for no limit.
-/

namespace Folio

namespace Timeout

/-- The number of nanoseconds from which on a time is too large, 2⁶³. -/
def limit : Int := 9223372036854775808

/-- The number of nanoseconds in a second. -/
def second : Int := 1000000000

/-- The number of nanoseconds in a second, as a binary64. -/
def billion : Binary64 := Binary64.ofDecimal false 1 9

/-- Checks an integer number of seconds. -/
def checkInt (seconds : Int) : Except TimeoutFault Unit :=
  if limit ≤ seconds * second ∨ seconds * second < -limit then .error .integerTooLarge
  else if seconds < 0 ∧ seconds ≠ -1 then .error .negative
  else .ok ()

/-- Checks a binary64 number of seconds. -/
def checkFloat (seconds : Binary64) : Except TimeoutFault Unit :=
  let nanoseconds : Number := .float (seconds.mul billion)
  if seconds.isNaN then .error .nan
  else if nanoseconds.holds .ge (.int limit) || nanoseconds.holds .lt (.int (-limit)) then
    .error .tooLarge
  else if nanoseconds.holds .lt (.int (-second)) ||
      nanoseconds.holds .ge (.int (1 - second)) && nanoseconds.holds .lt (.int 0) then
    .error .negative
  else .ok ()

/-- Checks a time to wait; true and false count as one second and none. -/
def check : Term → Except TimeoutFault Unit
  | .scalar (.number (.int seconds)) => checkInt seconds
  | .scalar (.number (.float seconds)) => checkFloat seconds
  | .scalar (.bool _) => .ok ()
  | t => .error (.notNumber t.operandName)

end Timeout

end Folio
