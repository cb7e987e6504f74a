import BarkToken.Foundation.Footprint
import BarkToken.Processor.Common

/-!
# Footprints of the operations that the handlers share

Two runs of a handler from ledgers that agree on its accounts read the same at every
account, and so make the same writes.
-/

namespace BarkToken
open Fallible Footprint

/-- The keys of a list of accounts. -/
def keys (accounts : List AccountInfo) : Set Pubkey := { k | ∃ info ∈ accounts, info.key = k }

end BarkToken

namespace Fallible
open BarkToken

namespace Related

variable {β β' : Type} {S : β → β' → Prop}

/-- Both runs take the next account. -/
theorem next {accounts : List AccountInfo}
    {f : AccountInfo × List AccountInfo → Except Fault β}
    {f' : AccountInfo × List AccountInfo → Except Fault β'}
    (hf : ∀ info rest, accounts = info :: rest → Related S (f (info, rest)) (f' (info, rest))) :
    Related S (nextAccountInfo accounts >>= f) (nextAccountInfo accounts >>= f') := by
  cases accounts with
  | nil => exact .error _
  | cons info rest => exact hf info rest rfl

end Related

end Fallible

namespace Footprint.Twin
open BarkToken Fallible

variable {R W : Set Pubkey} {s t l m : Ledger} {k : Pubkey}

theorem setData (h : Twin R W s t l m) (hWR : W ⊆ R) (hk : k ∈ W) (d : AccountData) :
    Twin R W s t (l.setData k d) (m.setData k d) := by
  have hrecord := h.agree k (hWR hk)
  rw [Ledger.setData, Ledger.setData, hrecord]
  exact h.update hk _

theorem setLamports (h : Twin R W s t l m) (hWR : W ⊆ R) (hk : k ∈ W) (n : UInt64) :
    Twin R W s t (l.setLamports k n) (m.setLamports k n) := by
  have hrecord := h.agree k (hWR hk)
  rw [Ledger.setLamports, Ledger.setLamports, hrecord]
  exact h.update hk _

theorem writeData (h : Twin R W s t l m) (hWR : W ⊆ R) (hk : k ∈ W) (d : AccountData) :
    Related (Twin R W s t) (l.writeData k d) (m.writeData k d) := by
  unfold Ledger.writeData
  rw [h.agree k (hWR hk)]
  exact .bind_same fun _ _ => .ok (h.setData hWR hk d)

theorem writeLamports (h : Twin R W s t l m) (hWR : W ⊆ R) (hk : k ∈ W) (n : UInt64) :
    Related (Twin R W s t) (l.writeLamports k n) (m.writeLamports k n) := by
  unfold Ledger.writeLamports
  rw [h.agree k (hWR hk)]
  exact .bind_same fun _ _ => .ok (h.setLamports hWR hk n)

theorem deleteAccount (h : Twin R W s t l m) (hWR : W ⊆ R) (hk : k ∈ W) :
    Related (Twin R W s t) (l.deleteAccount k) (m.deleteAccount k) := by
  unfold Ledger.deleteAccount
  rw [h.agree k (hWR hk)]
  exact .bind_same fun _ _ => .ok (h.update hk _)

theorem systemTransfer (h : Twin R W s t l m) (hWR : W ⊆ R) {payer : AccountInfo}
    (hpayer : payer.key ∈ W) (hk : k ∈ W) (lamports : UInt64) :
    Related (Twin R W s t) (systemTransfer l payer k lamports)
      (systemTransfer m payer k lamports) := by
  unfold BarkToken.systemTransfer
  rw [h.agree _ (hWR hpayer)]
  refine .bind_same fun _ _ => .bind_same fun _ _ => .bind_same fun _ _ => .bind_same fun debited _ => ?_
  have hdebited := h.setLamports hWR hpayer debited
  dsimp only
  rw [hdebited.agree k (hWR hk)]
  exact .bind_same fun credited _ => .ok (hdebited.setLamports hWR hk credited)

theorem validateOwner (h : Twin R W s t l m) {info : AccountInfo} (hinfo : info.key ∈ R)
    (expected : Pubkey) (signers : List AccountInfo) :
    validateOwner l expected info signers = validateOwner m expected info signers := by
  rw [BarkToken.validateOwner, BarkToken.validateOwner, h.agree _ hinfo]

end Footprint.Twin

namespace BarkToken
open Fallible Footprint

/-! ### Calls into other programs -/

/-- The accounts that a call may write: the token accounts of a transfer and, of the
accounts that its hook asks for, those in `extra`, or a context and the account its
lamports go to. -/
def Invocation.writable (extra : List Pubkey) : Invocation → Set Pubkey
  | transferHook _ source _ destination _ additionalAccounts _ =>
    { k | k = source ∨ k = destination ∨ (k ∈ keys additionalAccounts ∧ k ∈ extra) }
  | closeContextState contextState lamportDestination _ =>
    { k | k = contextState ∨ k = lamportDestination }

/-- The accounts that a call is passed. -/
def Invocation.accounts : Invocation → Set Pubkey
  | transferHook _ source mint destination authority additionalAccounts _ =>
    { k | k = source ∨ k = mint ∨ k = destination ∨ k = authority ∨ k ∈ keys additionalAccounts }
  | closeContextState contextState lamportDestination authority =>
    { k | k = contextState ∨ k = lamportDestination ∨ k = authority }

/-- The runtime confines every call to the accounts it is passed. -/
def Env.Confines (env : Env) (extra : List Pubkey) : Prop :=
  ∀ i, Confined Set.univ i.accounts (i.writable extra) (env.invoke i)

section Calls

variable {R W : Set Pubkey} {s t l m : Ledger} {env : Env} {extra : List Pubkey}

/-- A hook is called with accounts of the instruction. -/
theorem Env.Confines.transferHook (henv : env.Confines extra) (h : Twin R W s t l m) (hWR : W ⊆ R)
    {program source mint destination authority : Pubkey} {additional : List AccountInfo}
    {amount : UInt64} (hsource : source ∈ W) (hmint : mint ∈ R) (hdestination : destination ∈ W)
    (hauthority : authority ∈ R) (hadditional : keys additional ⊆ R)
    (hextra : ∀ k ∈ keys additional, k ∈ extra → k ∈ W) :
    Related (Twin R W s t)
      (env.invoke (.transferHook program source mint destination authority additional amount) l)
      (env.invoke (.transferHook program source mint destination authority additional amount) m) := by
  refine (henv _).within (Set.mem_univ l) ?_ ?_ h
  · rintro k (rfl | rfl | rfl | rfl | hk)
    · exact hWR hsource
    · exact hmint
    · exact hWR hdestination
    · exact hauthority
    · exact hadditional hk
  · rintro k (rfl | rfl | ⟨hk, hkextra⟩)
    · exact hsource
    · exact hdestination
    · exact hextra k hk hkextra

/-- A context is closed for an account of the instruction. -/
theorem Env.Confines.closeContextState (henv : env.Confines extra) (h : Twin R W s t l m)
    (hWR : W ⊆ R) {context destination authority : Pubkey} (hcontext : context ∈ W)
    (hdestination : destination ∈ W) (hauthority : authority ∈ R) :
    Related (Twin R W s t) (env.invoke (.closeContextState context destination authority) l)
      (env.invoke (.closeContextState context destination authority) m) := by
  refine (henv _).within (Set.mem_univ l) ?_ ?_ h
  · rintro k (rfl | rfl | rfl)
    · exact hWR hcontext
    · exact hWR hdestination
    · exact hauthority
  · rintro k (rfl | rfl)
    · exact hcontext
    · exact hdestination

end Calls

end BarkToken
