/-
# The phases of a handoff

A handoff goes through its phases in a fixed order and never back.  Entering a
phase that lies before the current one is a mistake in the caller and halts.
-/

namespace BootHandoff
namespace Handoff

/-- How far a handoff has come. -/
inductive Phase where
  | init
  | loadMonitor
  | loadSecureOs
  | assembleParams
  | flushCache
  | disableMmu
  | transferControl
  deriving DecidableEq, Repr, Inhabited

namespace Phase

/-- The place of a phase in the order. -/
def rank : Phase → Nat
  | init => 0
  | loadMonitor => 1
  | loadSecureOs => 2
  | assembleParams => 3
  | flushCache => 4
  | disableMmu => 5
  | transferControl => 6

instance : LE Phase := ⟨fun p q => p.rank ≤ q.rank⟩

instance (p q : Phase) : Decidable (p ≤ q) := inferInstanceAs (Decidable (p.rank ≤ q.rank))

/-- The name of a phase in the log. -/
def name : Phase → String
  | init => "Init"
  | loadMonitor => "LoadSecureMonitor"
  | loadSecureOs => "LoadSecureOs"
  | assembleParams => "AssembleParams"
  | flushCache => "FlushCache"
  | disableMmu => "DisableTranslation"
  | transferControl => "TransferControl"

end Phase
end Handoff
end BootHandoff
