import BarkToken.Step.Write

/-!
# Transfer hooks, step by step (Processor/Transfer, Confidential/Transfer)

While a hook runs, the two accounts of the transfer carry a flag, and other
programs do as they please. To this program's accounts nothing else happens.
-/

namespace BarkToken
open Fallible AccountData

variable {env : Env} {l l' l'' : Ledger}

/-- A token account that keeps its base state and its length, and everything in
its extensions but the entries of the types `ts`. -/
structure AccountKept (ts : List ExtensionType) (r r' : AccountRecord) : Prop where
  owner : r.owner = programId
  owner' : r'.owner = programId
  lamports : r.lamports ≤ r'.lamports
  data : ∃ s s', r.data = .account s ∧ r'.data = .account s' ∧ s'.base = s.base ∧
    s'.len = s.len ∧ Tlv.ChangesOnly ts s.tlv s'.tlv

/-- Either another program's doing, or a token account kept but for the types `ts`. -/
def KeptRecord (ts : List ExtensionType) (k : Pubkey) (r r' : AccountRecord) : Prop :=
  ForeignRecord k r r' ∨ AccountKept ts r r'

/-- A step that does no more than that to any record. -/
def KeptStep (ts : List ExtensionType) (l l' : Ledger) : Prop :=
  ∀ k, KeptRecord ts k (l k) (l' k)

/-- All that happens to the ledger around a hook. -/
abbrev HookStep (l l' : Ledger) : Prop := KeptStep [.transferHookAccount] l l'

section Kept

variable {ts : List ExtensionType}

theorem KeptRecord.refl (k : Pubkey) (r : AccountRecord) : KeptRecord ts k r r :=
  Or.inl (ForeignRecord.refl k r)

/-- A token account of this program before the step is one after it. -/
theorem KeptRecord.account {k : Pubkey} {r r' : AccountRecord} (h : KeptRecord ts k r r')
    {s : PodStateWithExtensions PodAccount} (howner : r.owner = programId)
    (hdata : r.data = .account s) :
    r'.owner = programId ∧ r.lamports ≤ r'.lamports ∧ ∃ s', r'.data = .account s' ∧
      s'.base = s.base ∧ s'.len = s.len ∧ Tlv.ChangesOnly ts s.tlv s'.tlv := by
  rcases h with hf | ⟨-, howner', hlamports, t, s', ht, hs', hbase, hlen, htlv⟩
  · obtain ⟨howner', hdata', hlamports⟩ := hf.keeps howner
    exact ⟨howner', hlamports, s, hdata'.trans hdata, rfl, rfl, .refl _ _⟩
  · obtain rfl := AccountData.account.inj (ht.symm.trans hdata)
    exact ⟨howner', hlamports, s', hs', hbase, hlen, htlv⟩

theorem KeptRecord.trans {k : Pubkey} {r r' r'' : AccountRecord} (h : KeptRecord ts k r r')
    (h' : KeptRecord ts k r' r'') : KeptRecord ts k r r'' := by
  rcases h with hf | ⟨howner, howner', hlamports, s, s', hs, hs', hbase, hlen, htlv⟩
  · rcases h' with hf' | ⟨howner', howner'', hlamports', s, s', hs, hs', hrest⟩
    · exact Or.inl (hf.trans hf')
    · have howner : r.owner = programId := by
        by_contra hne
        obtain ⟨-, n, hzero⟩ := hf.creates hne howner'
        rw [hzero] at hs
        cases hs
      obtain ⟨-, hdata, hlamports⟩ := hf.keeps howner
      exact Or.inr ⟨howner, howner'', UInt64.le_trans hlamports hlamports', s, s',
        hdata.symm.trans hs, hs', hrest⟩
  · obtain ⟨howner'', hlamports', s'', hs'', hbase', hlen', htlv'⟩ := KeptRecord.account h' howner' hs'
    exact Or.inr ⟨howner, howner'', UInt64.le_trans hlamports hlamports', s, s'', hs, hs'',
      hbase'.trans hbase, hlen'.trans hlen, htlv.trans htlv'⟩

theorem KeptStep.refl (l : Ledger) : KeptStep ts l l := fun k => KeptRecord.refl k (l k)

theorem KeptStep.trans (h : KeptStep ts l l') (h' : KeptStep ts l' l'') : KeptStep ts l l'' :=
  fun k => (h k).trans (h' k)

theorem KeptStep.of_foreign (h : ForeignStep l l') : KeptStep ts l l' := fun k => Or.inl (h k)

/-- An extension written to a token account. -/
theorem KeptStep.of_setExtension {k : Pubkey} {s : PodStateWithExtensions PodAccount}
    {t : ExtensionType} (v : t.Value) (ht : t ∈ ts) (howner : (l k).owner = programId)
    (hdata : (l k).data = .account s) :
    KeptStep ts l (l.setData k (.account (s.setExtension t v))) :=
  forall_of_update KeptRecord.refl (Or.inr ⟨howner, howner, UInt64.le_refl _, s, _, hdata, rfl, rfl,
    rfl, Tlv.ChangesOnly.put s.tlv v ht⟩)

/-- Around a hook, and in a confidential harvest, no balance changes. -/
theorem KeptRecord.recordStep {c : Call} {k : Pubkey} {r r' : AccountRecord}
    (h : KeptRecord ts k r r') (hts : ts ⊆ [.confidentialTransferFeeAmount, .transferHookAccount]) :
    RecordStep c k r r' := by
  rcases h with hf | hkept
  · exact .of_foreign hf
  · obtain ⟨s, s', hdata, hdata', hbase, hlen, htlv⟩ := hkept.data
    exact .account hkept.owner hkept.owner' hdata hdata'
      (.harvested hkept.lamports hbase hlen (htlv.mono hts))

end Kept

/-- A flag written to a token account. -/
theorem HookStep.of_write {k : Pubkey} {s : PodStateWithExtensions PodAccount}
    {v : TransferHookAccount} (hdata : (l k).data = .account s)
    (h : l.writeData k (.account (s.setExtension .transferHookAccount v)) = .ok l') :
    HookStep l l' ∧ l'.totalLamports = l.totalLamports := by
  obtain ⟨-, hl'⟩ := Ledger.writeData_eq_ok.mp h
  refine ⟨forall_of_writeData KeptRecord.refl h fun howner => ?_, ?_⟩
  · refine Or.inr ⟨howner, howner, UInt64.le_refl _, s, _, hdata, rfl, rfl, rfl, ?_⟩
    exact Tlv.ChangesOnly.put (t := .transferHookAccount) s.tlv v List.mem_cons_self
  · rw [hl', Ledger.totalLamports_setData]

theorem setTransferring_eq_ok {s s' : PodStateWithExtensions PodAccount}
    (h : setTransferring s = .ok s') : s' = s.setExtension .transferHookAccount ⟨true⟩ := by
  simp only [setTransferring, bind_eq_ok, pure_eq_ok] at h
  obtain ⟨-, -, rfl⟩ := h
  rfl

theorem unsetTransferring_step {k : Pubkey} (h : unsetTransferring l k = .ok l') :
    HookStep l l' ∧ l'.totalLamports = l.totalLamports := by
  simp only [unsetTransferring, bind_eq_ok] at h
  obtain ⟨account, haccount, -, -, hwrite⟩ := h
  exact HookStep.of_write (unpackAccount_eq_ok.mp haccount).1 hwrite

theorem setTransferringAt_step {k : Pubkey} (h : setTransferringAt l k = .ok l') :
    HookStep l l' ∧ l'.totalLamports = l.totalLamports := by
  simp only [setTransferringAt, bind_eq_ok] at h
  obtain ⟨account, haccount, account', hset, hwrite⟩ := h
  obtain rfl := setTransferring_eq_ok hset
  exact HookStep.of_write (unpackAccount_eq_ok.mp haccount).1 hwrite

theorem invoke_step {i : Invocation} (h : env.invoke i l = .ok l') :
    HookStep l l' ∧ l'.totalLamports = l.totalLamports :=
  ⟨KeptStep.of_foreign (env.invoke_frame i l l' h).1, (env.invoke_frame i l l' h).2⟩

theorem invokeTransferHook_step {hookProgram source mint destination authority : Pubkey}
    {s d : PodStateWithExtensions PodAccount} {additional : List AccountInfo} {amount : UInt64}
    (hne : source ≠ destination) (hs : (l source).data = .account s)
    (hd : (l destination).data = .account d)
    (h : invokeTransferHook env l hookProgram source mint destination s d authority additional
      amount = .ok l') : HookStep l l' ∧ l'.totalLamports = l.totalLamports := by
  simp only [invokeTransferHook, bind_eq_ok] at h
  obtain ⟨s', hs', d', hd', l₁, hwrite, l₂, hwrite', l₃, hinvoke, l₄, hunset, hunset'⟩ := h
  obtain rfl := setTransferring_eq_ok hs'
  obtain rfl := setTransferring_eq_ok hd'
  obtain ⟨h₁, t₁⟩ := HookStep.of_write hs hwrite
  have hd₁ : (l₁ destination).data = .account d := by
    obtain ⟨-, rfl⟩ := Ledger.writeData_eq_ok.mp hwrite
    rw [Ledger.setData_of_ne (Ne.symm hne), hd]
  obtain ⟨h₂, t₂⟩ := HookStep.of_write hd₁ hwrite'
  obtain ⟨h₃, t₃⟩ := invoke_step hinvoke
  obtain ⟨h₄, t₄⟩ := unsetTransferring_step hunset
  obtain ⟨h₅, t₅⟩ := unsetTransferring_step hunset'
  exact ⟨h₁.trans (h₂.trans (h₃.trans (h₄.trans h₅))), by rw [t₅, t₄, t₃, t₂, t₁]⟩

theorem invokeConfidentialHook_step {infos : TransferInfos} {mint : PodStateWithExtensions PodMint}
    {executed : ExecutedTransfer} (h : invokeConfidentialHook env infos mint executed = .ok l') :
    HookStep executed.ledger l' ∧ l'.totalLamports = executed.ledger.totalLamports := by
  unfold invokeConfidentialHook at h
  split at h
  case h_1 =>
    simp only [bind_eq_ok] at h
    obtain ⟨l₁, hset, l₂, hset', l₃, hinvoke, l₄, hunset, hunset'⟩ := h
    obtain ⟨h₁, t₁⟩ := setTransferringAt_step hset
    obtain ⟨h₂, t₂⟩ := setTransferringAt_step hset'
    obtain ⟨h₃, t₃⟩ := invoke_step hinvoke
    obtain ⟨h₄, t₄⟩ := unsetTransferring_step hunset
    obtain ⟨h₅, t₅⟩ := unsetTransferring_step hunset'
    exact ⟨h₁.trans (h₂.trans (h₃.trans (h₄.trans h₅))), by rw [t₅, t₄, t₃, t₂, t₁]⟩
  case h_2 =>
    obtain rfl := Except.ok.inj h
    exact ⟨.refl _, rfl⟩

end BarkToken
