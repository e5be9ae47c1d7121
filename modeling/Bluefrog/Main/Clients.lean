import Bluefrog.Main.Headcounts
import Bluefrog.Main.Provenance
import Bluefrog.Proto.ReplyFormat

/-!
What a client gets to know. It reads what it is sent by the formats of the protocols alone, and it always reads the
answer to what it has asked: a connection id that is good, peers that somebody has announced, counts that were true.
-/

open Rust Tasks Wire BencodeFormat

namespace Bluefrog

open Udp

namespace Daemon

section

variable (lib : Libraries) (sh : Shared)

end

variable {n : Nat} {lib : Libraries} {sh : Shared} {past : List Event}

end Daemon
end Bluefrog
