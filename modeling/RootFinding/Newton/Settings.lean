import RootFinding.Tolerance

/-!
# Settings of a solve

The tolerances, the greatest number of iterations, and what is done with the trace: it may be
stored, printed, or extended by the iterate, residual, Jacobian and step, which also prints it.
Tolerances must be finite and not negative; the step tolerance is looked at first.
-/

namespace RootFinding.Newton

def method : String := "Newton"

structure Settings where
  tolerances : Tolerances := ⟨0, 1e-8⟩
  iterations : Nat := 1000
  storeTrace : Bool := false
  printTrace : Bool := false
  extendedTrace : Bool := false

inductive SettingsFault where
  | stepTolerance
  | residualTolerance
  deriving DecidableEq, Repr

def SettingsFault.message : SettingsFault → String
  | stepTolerance => "xtol must be finite and non-negative"
  | residualTolerance => "ftol must be finite and non-negative"

def usable (tolerance : Float) : Bool := tolerance.isFinite && !(tolerance < 0)

namespace Settings

def fault? (o : Settings) : Option SettingsFault :=
  if !usable o.tolerances.step then some .stepTolerance
  else if !usable o.tolerances.residual then some .residualTolerance
  else none

def printsTrace (o : Settings) : Bool := o.printTrace || o.extendedTrace

def traces (o : Settings) : Bool := o.storeTrace || o.printsTrace

end Settings

end RootFinding.Newton
