import BarkToken.Extension.Account
import BarkToken.Extension.Interface
import BarkToken.Extension.Mint
import BarkToken.Footprint.Processor

/-!
# Footprints of the extension instructions (extension/*/processor.rs)
-/

namespace BarkToken
open Fallible Footprint

variable {R W : Set Pubkey} {s t l m : Ledger} {accounts : List AccountInfo} {env : Env}

/-! ### Account settings -/

end BarkToken
