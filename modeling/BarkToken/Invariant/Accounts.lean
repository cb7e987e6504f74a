import BarkToken.Invariant.WellFormed

/-!
# Token accounts along a run

A token account lasts until it is closed, and every instruction in between
changes it in one of the listed ways.
-/

namespace BarkToken
open Fallible AccountData

variable {k : Pubkey} {l l' : Ledger} {s : PodStateWithExtensions PodAccount}

/-- Other programs leave an account as it is. -/
theorem ForeignStep.keeps_accountAt (h : ForeignStep l l') (hs : AccountAt l k s) :
    AccountAt l' k s :=
  have hkeeps := (h k).keeps hs.owner
  ⟨hkeeps.1, hkeeps.2.1.trans hs.data⟩

/-- Whatever account another program leaves of this one was there before. -/
theorem ForeignStep.accountAt (h : ForeignStep l l') (hs : AccountAt l' k s) : AccountAt l k s := by
  by_cases howner : (l k).owner = programId
  · exact ⟨howner, ((h k).keeps howner).2.1.symm.trans hs.data⟩
  · obtain ⟨-, len, hzero⟩ := (h k).creates howner hs.owner
    exact absurd (hzero.symm.trans hs.data) (by simp)

theorem AccountAt.wellFormed (hl : WellFormedLedger l) (hs : AccountAt l k s) :
    WellFormedAccount (l k).lamports s := (hl k).of_account hs.owner hs.data

/-- An account that is written. -/
theorem AccountAt.setData_self (howner : (l k).owner = programId)
    (s : PodStateWithExtensions PodAccount) : AccountAt (l.setData k (.account s)) k s where
  owner := (Ledger.setData_owner l k _ k).trans howner
  data := by rw [Ledger.setData_self]

/-- An account next to one that is written. -/
theorem AccountAt.setData_of_ne {j : Pubkey} {d : AccountData} (hs : AccountAt l k s) (hne : k ≠ j) :
    AccountAt (l.setData j d) k s where
  owner := (Ledger.setData_owner l j d k).trans hs.owner
  data := by rw [Ledger.setData_of_ne hne, hs.data]

/-- An account after an instruction that does not close it. -/
theorem Call.process_accountAt {c : Call} (hl : WellFormedLedger c.ledger) (h : c.process = .ok l')
    (hs : AccountAt c.ledger k s) :
    (∃ s', AccountAt l' k s' ∧
      AccountChange c k (c.ledger k).lamports (l' k).lamports s s') ∨
      c.Closes k ∧ (l' k).owner = systemProgram := by
  have hstep := (Outcome.of_process hl.coherent h).recordStep hl.coherent k
  rcases hstep.of_account (hs.wellFormed hl).unpackAccount hs.owner hs.data with
    ⟨s', howner, hdata, hchange⟩ | ⟨hcloses, howner, -⟩
  · exact Or.inl ⟨s', ⟨howner, hdata⟩, hchange⟩
  · exact Or.inr ⟨hcloses, howner⟩

/-- An account that is there before an instruction and after it has changed in
one of the listed ways. -/
theorem Call.process_accountChange {c : Call} {s' : PodStateWithExtensions PodAccount}
    (hl : WellFormedLedger c.ledger) (h : c.process = .ok l') (hs : AccountAt c.ledger k s)
    (hs' : AccountAt l' k s') :
    AccountChange c k (c.ledger k).lamports (l' k).lamports s s' := by
  rcases Call.process_accountAt hl h hs with ⟨t, ht, hchange⟩ | ⟨-, howner⟩
  · exact ht.unique hs' ▸ hchange
  · exact absurd (hs'.owner.symm.trans howner) programId_ne_systemProgram

/-- An account after an instruction was there before it, or is new. -/
theorem Call.process_account_origin {c : Call} {s' : PodStateWithExtensions PodAccount}
    (hl : WellFormedLedger c.ledger) (h : c.process = .ok l') (hs' : AccountAt l' k s') :
    (∃ s, AccountAt c.ledger k s ∧ s'.base.mint = s.base.mint ∧
      AccountChange c k (c.ledger k).lamports (l' k).lamports s s') ∨
      ∃ len tlv mint, (c.ledger k).owner = programId ∧ (c.ledger k).data = .zeroed len tlv ∧
        (∀ e ∈ tlv.head?, e.1.accountType = .account) ∧
        NewAccount c k (l' k).lamports tlv s' mint := by
  have hstep := (Outcome.of_process hl.coherent h).recordStep hl.coherent k
  rcases hstep.account_origin hs'.owner hs'.data with ⟨s, howner, hdata, hmint⟩ | hnew
  · exact Or.inl ⟨s, ⟨howner, hdata⟩, hmint,
      Call.process_accountChange hl h ⟨howner, hdata⟩ hs'⟩
  · exact Or.inr hnew

/-- The mint that a new account is made for. -/
theorem NewAccount.mintAt {c : Call} {lamports : UInt64} {tlv : Tlv}
    {mint : PodStateWithExtensions PodMint} (h : NewAccount c k lamports tlv s mint) :
    MintAt c.ledger s.base.mint mint := ⟨h.mintOwner, (unpackMint_eq_ok.mp h.mintData).1⟩

/-- What every change of an account preserves holds of it as long as it is not
closed. -/
theorem RunWhere.account_invariant {x : Externals} {P : Call → Prop} {events : List Event}
    (Inv : PodStateWithExtensions PodAccount → Prop)
    (hP : ∀ c, P c → c.Succeeds → ¬ c.Closes k)
    (hstep : ∀ (c : Call) l' s s', c.x = x → P c → WellFormedLedger c.ledger → c.process = .ok l' →
      AccountAt c.ledger k s → AccountChange c k (c.ledger k).lamports (l' k).lamports s s' →
      Inv s → Inv s')
    (hrun : RunWhere x P l events l') (hl : WellFormedLedger l) (hs : AccountAt l k s) (h : Inv s) :
    WellFormedLedger l' ∧ ∃ s', AccountAt l' k s' ∧ Inv s' := by
  refine RunWhere.invariant (fun l => WellFormedLedger l ∧ ∃ s, AccountAt l k s ∧ Inv s)
    (fun c l' hx hPc hinv hok => ?_) (fun l l' hinv hf => ?_) hrun ⟨hl, s, hs, h⟩
  · obtain ⟨hl, s, hs, h⟩ := hinv
    refine ⟨Call.process_wellFormed hl hok, ?_⟩
    rcases Call.process_accountAt hl hok hs with ⟨s', hs', hchange⟩ | ⟨hcloses, -⟩
    · exact ⟨s', hs', hstep c l' s s' hx hPc hl hok hs hchange h⟩
    · exact absurd hcloses (hP c hPc ⟨l', hok⟩)
  · obtain ⟨hl, s, hs, h⟩ := hinv
    exact ⟨hf.wellFormed hl, s, hf.keeps_accountAt hs, h⟩

/-- What new accounts have, and every change of an account preserves, holds of
every account in every reachable state. -/
theorem Reachable.every_account {x : Externals} (Inv : PodStateWithExtensions PodAccount → Prop)
    (hnew : ∀ (c : Call) k lamports tlv s mint, FreshData tlv →
      (∀ e ∈ tlv.head?, e.1.accountType = .account) → NewAccount c k lamports tlv s mint → Inv s)
    (hstep : ∀ (c : Call) k lamports lamports' s s', c.x = x →
      AccountChange c k lamports lamports' s s' → Inv s → Inv s')
    (h : Reachable x l) : ∀ k s, AccountAt l k s → Inv s := by
  refine (Reachable.invariant (fun l => WellFormedLedger l ∧ ∀ k s, AccountAt l k s → Inv s)
    (fun l hgen => ⟨hgen.wellFormed, fun k s hs => ?_⟩)
    (fun c l' hx hinv hok => ⟨Call.process_wellFormed hinv.1 hok, fun k s' hs' => ?_⟩)
    (fun l l' hinv hf => ⟨hf.wellFormed hinv.1, fun k s hs => ?_⟩) h).2
  · obtain ⟨len, hzero⟩ := hgen.zeroed k hs.owner
    exact absurd (hzero.symm.trans hs.data) (by simp)
  · rcases Call.process_account_origin hinv.1 hok hs' with
      ⟨s, hs, -, hchange⟩ | ⟨len, tlv, mint, howner, hdata, hhead, hfresh⟩
    · exact hstep c k _ _ s s' hx hchange (hinv.2 k s hs)
    · exact hnew c k _ tlv s' mint ((hinv.1 k).of_zeroed howner hdata).2 hhead hfresh
  · exact hinv.2 k s (hf.accountAt hs)

end BarkToken
