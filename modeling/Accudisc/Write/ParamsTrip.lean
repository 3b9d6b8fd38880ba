import Accudisc.Write.Burn

/-!
# The write parameters there and back (`wparams.c`)

The probe's round trip: the page is captured, changed by the sequence of the burn, and read back; and a
captured page is selected again.
-/

namespace Accudisc

def WpPage.none : WpPage := ⟨fun _ => 0, 0⟩

end Accudisc
