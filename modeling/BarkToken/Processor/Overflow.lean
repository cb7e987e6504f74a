import BarkToken.Foundation.Avoids
import BarkToken.Processor.Common

/-!
# Shared steps that do not overflow

Reading an account, checking an authority and writing the result back never end with
`TokenError::Overflow`.
-/

namespace BarkToken
open Fallible

/-- The error of checked arithmetic. -/
abbrev overflow : Fault := TokenError.overflow

theorem nextAccountInfo_avoids (accounts : List AccountInfo) :
    Avoids overflow (nextAccountInfo accounts) := by
  cases accounts with
  | nil => exact .error (by decide)
  | cons info rest => exact .ok _

theorem unpackMint_avoids (d : AccountData) : Avoids overflow d.unpackMint := by
  refine .bind (.ensure (by decide)) fun _ _ => ?_
  cases d with
  | mint s => exact .bind (.ensure (by decide)) fun _ _ => .bind (.ensure (by decide)) fun _ _ => .pure s
  | account s => exact .ite (fun _ => .error (by decide)) fun _ => .error (by decide)
  | zeroed len tlv => exact .error (by decide)
  | multisig m => exact .error (by decide)
  | proofContext len c => exact .error (by decide)
  | foreign len => exact .error (by decide)

theorem readMultisig_avoids (d : AccountData) : Avoids overflow d.readMultisig := by
  cases d with
  | multisig m => exact .ok m
  | zeroed len tlv => exact .bind (.ensure (by decide)) fun _ _ => .pure _
  | mint s => exact .error (by decide)
  | account s => exact .error (by decide)
  | proofContext len c => exact .error (by decide)
  | foreign len => exact .error (by decide)

theorem getExtension_avoids {S : Type} (s : PodStateWithExtensions S) (t : ExtensionType) :
    Avoids overflow (s.getExtension t) := by
  unfold PodStateWithExtensions.getExtension
  split
  · exact .ok _
  · exact .ite (fun _ => .error (by decide)) fun _ => .error (by decide)

theorem countSigners_avoids (keys : List Pubkey) (signers : List AccountInfo) :
    Avoids overflow (countSigners keys signers) := by
  refine .loop (fun s signer => .loop (fun s entry => ?_) _ s) signers _
  exact .ite (fun _ => .bind (.ensure (by decide)) fun _ _ => .pure _) fun _ => .pure s

theorem validateOwner_avoids (l : Ledger) (key : Pubkey) (info : AccountInfo)
    (signers : List AccountInfo) : Avoids overflow (validateOwner l key info signers) := by
  refine .bind (.ensure (by decide)) fun _ _ => .ite (fun _ => ?_) fun _ => .ensure (by decide)
  refine .bind (readMultisig_avoids _) fun m _ => .bind (.ensure (by decide)) fun _ _ => ?_
  exact .bind (countSigners_avoids _ _) fun _ _ => .ensure (by decide)

theorem writeData_avoids (l : Ledger) (k : Pubkey) (d : AccountData) :
    Avoids overflow (l.writeData k d) :=
  .bind (.ensure (by decide)) fun _ _ => .pure _

end BarkToken
