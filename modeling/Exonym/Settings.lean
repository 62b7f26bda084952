import Exonym.Hierarchy.Analysis
import Exonym.Ledger.Settings

/-!
# Settings of a run
-/

namespace Exonym

structure Settings where
  interfaces : InterfaceSettings
  naming : NameSettings
  deriving Repr

namespace Settings

def default : Settings :=
  ⟨⟨true⟩, .default⟩

instance : Inhabited Settings := ⟨default⟩

end Settings

end Exonym
