import OberonModules.Log

/-!
# Reporters

A reporter receives the diagnostics of an analysis one at a time. Reporting never
stops the analysis; whoever owns the reporter decides at the end what follows.
-/

namespace OberonModules

class Reporter (ρ : Type) where
  report : ρ → Diagnostic → Traced ρ
  count : ρ → Nat

def Reporter.hasErrors [Reporter ρ] (reporter : ρ) : Bool :=
  0 < Reporter.count reporter

instance : Reporter Diagnostics where
  report diagnostics diagnostic := pure (diagnostics.push diagnostic)
  count := Diagnostics.size

/-- The reporter of someone else, on loan. Every report goes through to it. -/
structure Lent (ρ : Type) where
  lender : ρ

instance {ρ : Type} [Reporter ρ] : Reporter (Lent ρ) where
  report lent diagnostic := Lent.mk <$> Reporter.report lent.lender diagnostic
  count lent := Reporter.count lent.lender

@[simp] theorem Diagnostics.report_eq (diagnostics : Diagnostics) (diagnostic : Diagnostic) :
    Reporter.report diagnostics diagnostic = pure (diagnostics.push diagnostic) := rfl

@[simp] theorem Diagnostics.count_eq (diagnostics : Diagnostics) :
    Reporter.count diagnostics = diagnostics.size := rfl

end OberonModules
