import BarkToken.Guarantee.Signatures
import BarkToken.Invariant.Mints

/-!
# When a multisig is satisfied (processor.rs:231-270, 1792-1829)

Exactly which signer lists satisfy a multisig: for each of its keys the first account
with that key signs, and enough of its positions have a key that occurs. An initialised
multisig keeps its keys for good; it can be satisfied unless it asks for more
signatures than it has keys.
-/

namespace BarkToken
open Fallible AccountData

/-! ### Exact counts -/

/-- The positions that have been matched are the ones whose keys have been seen. -/
structure Counted (keys : List Pubkey) (seen : List AccountInfo) (s : MatchedSigners) : Prop
    extends Matching keys seen s where
  complete : ∀ i key, keys[i]? = some key → key ∈ seen.map AccountInfo.key → i ∈ s.matched

/-- One pass over the keys. -/
def matchKeys (keys : List Pubkey) (s : MatchedSigners) (signer : AccountInfo) :
    Except Fault MatchedSigners :=
  loop (matchSigner signer) keys.zipIdx s

theorem countSigners_eq_loop (keys : List Pubkey) (signers : List AccountInfo) :
    countSigners keys signers = loop (matchKeys keys) signers ⟨[], 0⟩ := rfl

variable {keys : List Pubkey} {seen : List AccountInfo} {s s' : MatchedSigners}
  {signer : AccountInfo}

theorem Counted.nil (keys : List Pubkey) : Counted keys [] ⟨[], 0⟩ where
  count := rfl
  nodup := List.nodup_nil
  signed := by simp
  complete := by simp

theorem Matching.mono {signers signers' : List AccountInfo} (hsub : signers ⊆ signers')
    (h : Matching keys signers s) : Matching keys signers' s where
  count := h.count
  nodup := h.nodup
  signed i hi := by
    obtain ⟨signer, hmem, hsigned⟩ := h.signed i hi
    exact ⟨signer, hsub hmem, hsigned⟩

/-- As many positions are matched as have a key that was seen. -/
theorem Counted.numSigners_eq (h : Counted keys seen s) :
    s.numSigners = keys.countP (fun key => key ∈ seen.map AccountInfo.key) := by
  have hperm : s.matched.Perm ((List.range keys.length).filter
      fun i => ∃ key ∈ keys[i]?, key ∈ seen.map AccountInfo.key) := by
    refine (List.perm_ext_iff_of_nodup h.nodup (List.nodup_range.filter _)).mpr fun i => ?_
    simp only [List.mem_filter, List.mem_range, decide_eq_true_eq, Option.mem_def]
    constructor
    · intro hi
      obtain ⟨signer, hmem, -, hget⟩ := h.signed i hi
      exact ⟨(List.getElem?_eq_some_iff.mp hget).1, signer.key, hget, List.mem_map_of_mem hmem⟩
    · rintro ⟨-, key, hget, hseen⟩
      exact h.complete i key hget hseen
  have hkeys : keys = (List.range keys.length).map fun i => keys[i]?.getD default := by
    refine List.ext_getElem (by simp) fun i hi _ => ?_
    simp [hi]
  rw [h.count, hperm.length_eq, ← List.countP_eq_length_filter]
  conv_rhs => rw [hkeys, List.countP_map]
  refine List.countP_congr fun i hi => ?_
  have hlt : i < keys.length := List.mem_range.mp hi
  simp [hlt]

/-- An account changes nothing whose key was seen before, or is none of the keys. -/
theorem Counted.matchKeys_skip (h : Counted keys seen s)
    (hskip : signer.key ∈ seen.map AccountInfo.key ∨ signer.key ∉ keys) :
    matchKeys keys s signer = .ok s := by
  have hnone : ∀ e ∈ keys.zipIdx, ¬ (e.1 = signer.key ∧ e.2 ∉ s.matched) := by
    rintro e he ⟨hkey, hnot⟩
    have hget := List.mem_zipIdx_iff_getElem?.mp he
    rcases hskip with hseen | hstranger
    · exact hnot (h.complete e.2 e.1 hget (hkey ▸ hseen))
    · exact hstranger (hkey ▸ List.mem_of_getElem? hget)
  unfold matchKeys
  generalize keys.zipIdx = entries at hnone
  induction entries with
  | nil => rfl
  | cons e entries ih =>
    refine loop_cons_eq_ok.mpr ⟨s, ?_, ih fun e he => hnone e (List.mem_cons_of_mem _ he)⟩
    rw [matchSigner, if_neg (hnone e List.mem_cons_self)]
    rfl

/-- An account with a key that is new and has not signed ends the count. -/
theorem Counted.matchKeys_unsigned (h : Counted keys seen s) (hunsigned : signer.isSigner = false)
    (hkey : signer.key ∈ keys) (hnew : signer.key ∉ seen.map AccountInfo.key) :
    matchKeys keys s signer = .error ProgramError.missingRequiredSignature := by
  obtain ⟨i, hi, hget⟩ := List.getElem_of_mem hkey
  have hentry : ∃ e ∈ keys.zipIdx, e.1 = signer.key ∧ e.2 ∉ s.matched := by
    refine ⟨(signer.key, i), List.mem_zipIdx_iff_getElem?.mpr (List.getElem?_eq_some_iff.mpr
      ⟨hi, hget⟩), rfl, fun hmatched => ?_⟩
    obtain ⟨other, hmem, -, hother⟩ := h.signed i hmatched
    have hsame : signer.key = other.key :=
      Option.some.inj ((List.getElem?_eq_some_iff.mpr ⟨hi, hget⟩).symm.trans hother)
    exact hnew (hsame ▸ List.mem_map_of_mem hmem)
  unfold matchKeys
  generalize keys.zipIdx = entries at hentry
  induction entries with
  | nil => simp at hentry
  | cons e entries ih =>
    rw [loop]
    by_cases hhead : e.1 = signer.key ∧ e.2 ∉ s.matched
    · rw [matchSigner, if_pos hhead, ensure, if_neg (by simp [hunsigned])]
      rfl
    · have hskip : matchSigner signer s e = .ok s := by
        rw [matchSigner, if_neg hhead]
        rfl
      obtain ⟨e', he', hmatch⟩ := hentry
      rcases List.mem_cons.mp he' with rfl | htail
      · exact absurd hmatch hhead
      · rw [hskip]
        exact ih ⟨e', htail, hmatch⟩

/-- A pass that ends well has matched every position of the account's key. -/
theorem matchSigner_loop_complete {entries : List (Pubkey × ℕ)}
    (h : loop (matchSigner signer) entries s = .ok s') :
    s.matched ⊆ s'.matched ∧ ∀ e ∈ entries, e.1 = signer.key → e.2 ∈ s'.matched := by
  induction entries generalizing s with
  | nil =>
    obtain rfl := Except.ok.inj h
    exact ⟨List.Subset.refl _, by simp⟩
  | cons e entries ih =>
    obtain ⟨u, hu, hrest⟩ := loop_cons_eq_ok.mp h
    obtain ⟨hsub, hentries⟩ := ih hrest
    obtain ⟨hgrow, hhead⟩ : s.matched ⊆ u.matched ∧ (e.1 = signer.key → e.2 ∈ u.matched) := by
      unfold matchSigner at hu
      split at hu
      case isTrue hnew =>
        obtain ⟨-, hpure⟩ := ensure_bind_eq_ok.mp hu
        obtain rfl := pure_eq_ok.mp hpure
        exact ⟨List.subset_cons_self _ _, fun _ => List.mem_cons_self⟩
      case isFalse hnot =>
        obtain rfl := pure_eq_ok.mp hu
        exact ⟨List.Subset.refl _, fun hkey => not_not.mp fun hfree => hnot ⟨hkey, hfree⟩⟩
    refine ⟨List.Subset.trans hgrow hsub, fun e' he' hkey => ?_⟩
    rcases List.mem_cons.mp he' with rfl | htail
    · exact hsub (hhead hkey)
    · exact hentries e' htail hkey

/-- What one more account leaves. -/
theorem Counted.of_matchKeys (h : Counted keys seen s) (hpass : matchKeys keys s signer = .ok s') :
    Counted keys (seen ++ [signer]) s' := by
  have hmatching : Matching keys (seen ++ [signer]) s' := by
    refine loop_invariant (Matching keys (seen ++ [signer])) (fun s entry u hentry hs hmatch => ?_)
      (h.toMatching.mono (List.subset_append_left seen [signer])) hpass
    exact matchSigner_matching (List.mem_append_right seen List.mem_cons_self)
      (List.mem_zipIdx_iff_getElem?.mp hentry) hs hmatch
  obtain ⟨hsub, hall⟩ := matchSigner_loop_complete hpass
  refine ⟨hmatching, fun i key hget hmem => ?_⟩
  rw [List.map_append, List.mem_append] at hmem
  rcases hmem with hold | hnew
  · exact hsub (h.complete i key hget hold)
  · have hkey : key = signer.key := by simpa using hnew
    exact hall (key, i) (List.mem_zipIdx_iff_getElem?.mpr hget) hkey

/-- What a list of accounts leaves. -/
theorem Counted.of_loop {signers : List AccountInfo} (h : Counted keys seen s)
    (hloop : loop (matchKeys keys) signers s = .ok s') :
    Counted keys (seen ++ signers) s' := by
  induction signers generalizing s seen with
  | nil =>
    obtain rfl := Except.ok.inj hloop
    rwa [List.append_nil]
  | cons signer signers ih =>
    obtain ⟨u, hu, hrest⟩ := loop_cons_eq_ok.mp hloop
    have hcounted := ih (h.of_matchKeys hu) hrest
    rwa [List.append_assoc, List.singleton_append] at hcounted

/-- The first account with each key has signed. -/
def FirstsSigned (keys : List Pubkey) (signers : List AccountInfo) : Prop :=
  ∀ key ∈ keys, ∀ a, signers.find? (fun a => a.key = key) = some a → a.isSigner = true

/-- The count goes through where the first account with each new key has signed. -/
theorem Counted.exists_loop_iff {signers : List AccountInfo} (h : Counted keys seen s) :
    (∃ s', loop (matchKeys keys) signers s = .ok s') ↔
      FirstsSigned (keys.filter fun key => key ∉ seen.map AccountInfo.key) signers := by
  induction signers generalizing s seen with
  | nil => exact ⟨fun _ key _ a ha => by simp at ha, fun _ => ⟨s, rfl⟩⟩
  | cons signer signers ih =>
    have hmem : ∀ {key}, key ∈ keys.filter (fun key => key ∉ seen.map AccountInfo.key) ↔
        key ∈ keys ∧ key ∉ seen.map AccountInfo.key := by simp
    have hmem' : ∀ {key}, key ∈ keys.filter (fun key => key ∉ (seen ++ [signer]).map AccountInfo.key) ↔
        key ∈ keys ∧ key ∉ seen.map AccountInfo.key ∧ key ≠ signer.key := by simp
    simp only [loop_cons_eq_ok, exists_comm (α := MatchedSigners), exists_and_left]
    by_cases hnew : signer.key ∈ keys ∧ signer.key ∉ seen.map AccountInfo.key
    case pos =>
      by_cases hsigned : signer.isSigner = true
      case pos =>
        obtain ⟨u, hu, -⟩ := matchSigner_loop hsigned keys.zipIdx s
        have hpass : matchKeys keys s signer = .ok u := hu
        simp only [hpass, Except.ok.injEq, exists_eq_left']
        rw [ih (h.of_matchKeys hpass)]
        constructor
        · intro hfirst key hkey a ha
          by_cases hsame : signer.key = key
          · rw [List.find?_cons_of_pos (by simpa using hsame), Option.some.injEq] at ha
            exact ha ▸ hsigned
          · rw [List.find?_cons_of_neg (by simpa using hsame)] at ha
            obtain ⟨hin, hnot⟩ := hmem.mp hkey
            exact hfirst key (hmem'.mpr ⟨hin, hnot, Ne.symm hsame⟩) a ha
        · intro hfirst key hkey a ha
          obtain ⟨hin, hnot, hne⟩ := hmem'.mp hkey
          refine hfirst key (hmem.mpr ⟨hin, hnot⟩) a ?_
          rwa [List.find?_cons_of_neg (by simpa using Ne.symm hne)]
      case neg =>
        have hunsigned : signer.isSigner = false := by simpa using hsigned
        rw [h.matchKeys_unsigned hunsigned hnew.1 hnew.2]
        constructor
        · rintro ⟨u, hu, -⟩
          cases hu
        · intro hfirst
          exact absurd (hfirst signer.key (hmem.mpr hnew) signer (by simp)) hsigned
    case neg =>
      have hskip : signer.key ∈ seen.map AccountInfo.key ∨ signer.key ∉ keys := by
        by_contra hboth
        simp only [not_or, not_not] at hboth
        exact hnew ⟨hboth.2, hboth.1⟩
      have hpass := h.matchKeys_skip hskip
      simp only [hpass, Except.ok.injEq, exists_eq_left']
      rw [ih h]
      -- No new key is this account's
      have hne : ∀ key ∈ keys.filter (fun key => key ∉ seen.map AccountInfo.key), signer.key ≠ key :=
        fun key hkey hsame => hnew (hsame ▸ hmem.mp hkey)
      constructor
      · intro hfirst key hkey a ha
        rw [List.find?_cons_of_neg (by simpa using hne key hkey)] at ha
        exact hfirst key hkey a ha
      · intro hfirst key hkey a ha
        refine hfirst key hkey a ?_
        rwa [List.find?_cons_of_neg (by simpa using hne key hkey)]

/-! ### Exact thresholds -/

/-- The number of positions whose key occurs among the accounts. -/
def PodMultisig.occurring (m : PodMultisig) (signers : List AccountInfo) : ℕ :=
  m.keys.countP fun key => key ∈ signers.map AccountInfo.key

theorem countSigners_eq_ok_iff {signers : List AccountInfo} {n : ℕ} :
    (∃ s, countSigners keys signers = .ok s ∧ n ≤ s.numSigners) ↔
      FirstsSigned keys signers ∧ n ≤ keys.countP fun key => key ∈ signers.map AccountInfo.key := by
  have hall : (keys.filter fun key => key ∉ ([] : List AccountInfo).map AccountInfo.key) = keys := by
    simp
  have hexists : (∃ s, countSigners keys signers = .ok s) ↔ FirstsSigned keys signers := by
    rw [countSigners_eq_loop, (Counted.nil keys).exists_loop_iff, hall]
  constructor
  · rintro ⟨s, hs, hle⟩
    have hcounted := (Counted.nil keys).of_loop hs
    exact ⟨hexists.mp ⟨s, hs⟩, hle.trans hcounted.numSigners_eq.le⟩
  · rintro ⟨hfirst, hle⟩
    obtain ⟨s, hs⟩ := hexists.mpr hfirst
    exact ⟨s, hs, hle.trans ((Counted.nil keys).of_loop hs).numSigners_eq.ge⟩

/-- Repeated keys and other accounts leave the count as it is. -/
theorem countSigners_skip {before after : List AccountInfo}
    (hskip : signer.key ∈ before.map AccountInfo.key ∨ signer.key ∉ keys) :
    countSigners keys (before ++ signer :: after) = countSigners keys (before ++ after) := by
  simp only [countSigners_eq_loop, loop_append]
  cases hbefore : loop (matchKeys keys) before ⟨[], 0⟩ with
  | error e => rfl
  | ok s =>
    have hpass : matchKeys keys s signer = .ok s :=
      ((Counted.nil keys).of_loop hbefore).matchKeys_skip hskip
    simp only [Except.bind, loop, hpass]

section Validate

variable {l : Ledger} {info : AccountInfo} {m : PodMultisig}

/-- `validate_owner` for a multisig counts its keys. -/
theorem validateOwner_eq (howner : (l info.key).owner = programId)
    (hdata : (l info.key).data = .multisig m) (hn : m.n.toNat ≤ 11) (signers : List AccountInfo) :
    validateOwner l info.key info signers = (do
      let count ← countSigners m.keys signers
      ensure (m.m.toNat ≤ count.numSigners) (ProgramError.missingRequiredSignature : Fault)) := by
  have hlen : (l info.key).data.len = multisigLen := by rw [hdata, len]
  rw [validateOwner, ensure, if_pos rfl, ok_bind, if_pos ⟨howner, hlen⟩, hdata, readMultisig,
    ok_bind, ensure, if_pos hn, ok_bind]
  rfl

/-- A multisig is satisfied exactly where the first account with each of its keys
signs and enough of its positions have a key that occurs. An account that repeats a key
or has none of the keys changes nothing. -/
theorem validateOwner_multisig_iff (howner : (l info.key).owner = programId)
    (hdata : (l info.key).data = .multisig m) (hn : m.n.toNat ≤ 11) :
    (∀ signers, validateOwner l info.key info signers = .ok () ↔
      FirstsSigned m.keys signers ∧ m.m.toNat ≤ m.occurring signers) ∧
    (∀ before a after, a.key ∈ (before ++ after).map AccountInfo.key →
      m.occurring (before ++ a :: after) = m.occurring (before ++ after)) ∧
    ∀ before a after, a.key ∈ before.map AccountInfo.key ∨ a.key ∉ m.keys →
      validateOwner l info.key info (before ++ a :: after) =
        validateOwner l info.key info (before ++ after) := by
  refine ⟨fun signers => ?_, fun before a after hrepeat => ?_, fun before a after hskip => ?_⟩
  · rw [validateOwner_eq howner hdata hn]
    simp only [bind_eq_ok, ensure_eq_ok]
    exact countSigners_eq_ok_iff
  · refine List.countP_congr fun key _ => ?_
    simp only [List.map_append, List.map_cons, List.mem_append, List.mem_cons, decide_eq_true_eq]
      at hrepeat ⊢
    constructor
    · rintro (hbefore | rfl | hafter)
      · exact Or.inl hbefore
      · exact hrepeat
      · exact Or.inr hafter
    · exact fun h => h.elim Or.inl fun hafter => Or.inr (Or.inr hafter)
  · rw [validateOwner_eq howner hdata hn, validateOwner_eq howner hdata hn, countSigners_skip hskip]

/-- Two of two: one account with the second key twice is not enough, and an account in
between that has neither key does no harm. -/
theorem validateOwner_multisig_twoOfTwo :
    validateOwner (replay .refusing twoOfTwoCalls blankMultisigLedger) ⟨2⟩ ⟨⟨2⟩, false⟩
      [⟨⟨8⟩, true⟩, ⟨⟨9⟩, false⟩, ⟨⟨7⟩, true⟩, ⟨⟨8⟩, false⟩] = .ok () := by
  have hdata : (replay .refusing twoOfTwoCalls blankMultisigLedger
      (AccountInfo.mk ⟨2⟩ false).key).data = .multisig twoOfTwo := by decide
  refine ((validateOwner_multisig_iff (by decide) hdata (by decide)).1 _).mpr ⟨?_, by decide⟩
  have hkeys : twoOfTwo.keys = [⟨7⟩, ⟨8⟩] := by decide
  intro key hkey a ha
  rw [hkeys, List.mem_pair] at hkey
  rcases hkey with rfl | rfl
  · obtain rfl := Option.some.inj (ha.symm.trans (by rfl))
    rfl
  · obtain rfl := Option.some.inj (ha.symm.trans (by rfl))
    rfl

end Validate

/-! ### What `InitializeMultisig` leaves -/

/-- A multisig of this program at `k`. -/
structure MultisigAt (l : Ledger) (k : Pubkey) (m : PodMultisig) : Prop where
  owner : (l k).owner = programId
  data : (l k).data = .multisig m

/-- No instruction changes an initialised multisig. -/
theorem Call.process_multisigAt {c : Call} {l' : Ledger} {k : Pubkey} {m : PodMultisig}
    (hl : WellFormedLedger c.ledger) (h : c.process = .ok l') (hm : MultisigAt c.ledger k m)
    (hinit : m.isInitialized = true) : MultisigAt l' k m := by
  cases Call.process_recordStep hl h k with
  | locally hlocal =>
    cases hlocal with
    | neutral hneutral =>
      cases hneutral with
      | foreign hforeign =>
        obtain ⟨howner, hdata, -⟩ := hforeign.keeps hm.owner
        exact ⟨howner, hdata.trans hm.data⟩
      | withdrawExcess _ howner hdata => exact ⟨howner, hdata.trans hm.data⟩
      | initMultisig _ _ _ _ hdata =>
        rcases hdata with ⟨tlv, hzero⟩ | ⟨m', hold, hnew⟩
        · exact absurd (hzero.symm.trans hm.data) (by simp)
        · obtain rfl := AccountData.multisig.inj (hold.symm.trans hm.data)
          exact absurd (hnew.symm.trans hinit) (by simp)
      | createNativeMint _ hsystem =>
        exact absurd (hm.owner.symm.trans hsystem) programId_ne_systemProgram
      | account _ _ hdata => exact absurd (hdata.symm.trans hm.data) (by simp)
      | sync _ _ hdata => exact absurd (hdata.symm.trans hm.data) (by simp)
      | mint _ _ hdata => exact absurd (hdata.symm.trans hm.data) (by simp)
      | extend _ _ hdata => exact absurd (hdata.symm.trans hm.data) (by simp)
      | initMint _ _ _ _ hdata => exact absurd (hdata.symm.trans hm.data) (by simp)
      | initAccount _ _ hdata => exact absurd (hdata.symm.trans hm.data) (by simp)
    | confidential _ _ hdata => exact absurd (hdata.symm.trans hm.data) (by simp)
  | account _ _ hdata => exact absurd (hdata.symm.trans hm.data) (by simp)
  | mint _ _ hdata => exact absurd (hdata.symm.trans hm.data) (by simp)
  | close hix hkey =>
    -- Only accounts and mints are closed
    rcases Call.process_closes h ⟨hix, hkey⟩ with ⟨s, hs, -⟩ | ⟨s, hs⟩
    · exact absurd (hs.data.symm.trans hm.data) (by simp)
    · exact absurd (hs.data.symm.trans hm.data) (by simp)

/-- An initialised multisig stays as it is. -/
theorem LedgerRun.multisigAt {x : Externals} {l l' : Ledger} {events : List Event} {k : Pubkey}
    {m : PodMultisig} (hrun : LedgerRun x l events l') (hl : WellFormedLedger l)
    (hm : MultisigAt l k m) (hinit : m.isInitialized = true) : MultisigAt l' k m := by
  refine (RunWhere.invariant (fun l => WellFormedLedger l ∧ MultisigAt l k m)
    (fun c l' _ _ hinv hok => ?_) (fun l l' hinv hf => ?_) hrun.runWhere ⟨hl, hm⟩).2
  · exact ⟨Call.process_wellFormed hinv.1 hok, Call.process_multisigAt hinv.1 hok hinv.2 hinit⟩
  · obtain ⟨howner, hdata, -⟩ := (hf k).keeps hinv.2.owner
    exact ⟨hf.wellFormed hinv.1, howner, hdata.trans hinv.2.data⟩

/-- The accounts after the multisig, and after the rent sysvar where it is passed. -/
def signerInfos (rentSysvarAccount : Bool) (accounts : List AccountInfo) : List AccountInfo :=
  accounts.drop (if rentSysvarAccount then 2 else 1)

/-- What `_process_initialize_multisig` writes. -/
structure MultisigWritten (l' : Ledger) (k : Pubkey) (required : UInt8)
    (signers : List AccountInfo) (m : PodMultisig) : Prop extends MultisigAt l' k m where
  initialized : m.Initialized
  required : m.m = required
  provided : m.n.toNat = signers.length
  keys : m.keys = signers.map AccountInfo.key

theorem processInitializeMultisig_written {env : Env} {required : UInt8} {rent : Bool}
    {accounts : List AccountInfo} {l l' : Ledger}
    (h : processInitializeMultisig env required rent accounts l = .ok l') :
    ∃ info ∈ accounts.head?, ∃ m, MultisigWritten l' info.key required (signerInfos rent accounts) m := by
  simp only [processInitializeMultisig, bind_eq_ok, Prod.exists, exists_unit, nextAccountInfo_eq_ok,
    ensure_eq_ok, Ledger.writeData_eq_ok] at h
  obtain ⟨info, rest, rfl, signers, hsigners, multisig, hmultisig, hnew, -, hprovided, hrequired,
    hlen, howner, rfl⟩ := h
  have htaken : signers = signerInfos rent (info :: rest) := by
    cases rent with
    | false => exact (pure_eq_ok.mp hsigners).symm
    | true =>
      simp only [takeRent, if_pos, bind_eq_ok, Prod.exists, exists_unit, nextAccountInfo_eq_ok,
        ensure_eq_ok, pure_eq_ok] at hsigners
      obtain ⟨rentInfo, rest', rfl, -, rfl⟩ := hsigners
      rfl
  subst htaken
  have hn : (UInt8.ofNat (signerInfos rent (info :: rest)).length).toNat =
      (signerInfos rent (info :: rest)).length := UInt8.toNat_ofNat_of_lt' (by
    have : (11 : ℕ) < UInt8.size := by decide
    omega)
  refine ⟨info, rfl, _, ⟨?_, by rw [Ledger.setData_self]⟩, ⟨rfl, hrequired, hprovided⟩, rfl, hn, ?_⟩
  · rw [Ledger.setData_owner]
    refine howner.resolve_right fun hsame => ?_
    -- What was there had not been initialised
    rw [hsame, readMultisig] at hmultisig
    have hinit := congrArg PodMultisig.isInitialized (Except.ok.inj hmultisig)
    exact absurd (hinit.trans hnew) (by simp)
  · refine List.ext_getElem ?_ fun i hi hi' => ?_
    · rw [PodMultisig.keys, List.length_take, Vector.length_toList, List.length_map, hn]
      exact min_eq_left hlen
    · rw [List.length_map] at hi'
      simp [PodMultisig.keys, hi']

/-- All of the accounts, signing. -/
def allSigning (signers : List AccountInfo) : List AccountInfo :=
  signers.map fun a => ⟨a.key, true⟩

section Usable

variable {l : Ledger} {info : AccountInfo} {m : PodMultisig}

/-- A multisig with enough keys is satisfied when they all sign. -/
theorem MultisigAt.validateOwner_all (h : MultisigAt l info.key m) (hm : m.Initialized)
    (hle : m.m.toNat ≤ m.n.toNat) {signers : List AccountInfo}
    (hkeys : m.keys = signers.map AccountInfo.key) :
    validateOwner l info.key info (allSigning signers) = .ok () := by
  have hsame : (allSigning signers).map AccountInfo.key = m.keys := by
    rw [allSigning, List.map_map, hkeys]
    rfl
  rw [validateOwner_eq h.owner h.data hm.provided.2]
  simp only [bind_eq_ok, ensure_eq_ok]
  refine countSigners_eq_ok_iff.mpr ⟨fun key _ a ha => ?_, ?_⟩
  · obtain ⟨b, -, rfl⟩ := List.mem_map.mp (List.mem_of_find?_eq_some ha)
    rfl
  · rw [hsame, List.countP_eq_length.mpr fun key hkey => by simpa using hkey, hm.keys_length]
    exact hle

/-- A multisig with fewer keys than it asks for is never satisfied. -/
theorem MultisigAt.validateOwner_ne (h : MultisigAt l info.key m) (hm : m.Initialized)
    (hlt : m.n.toNat < m.m.toNat) (signers : List AccountInfo) :
    validateOwner l info.key info signers ≠ .ok () := by
  intro hok
  rw [validateOwner_eq h.owner h.data hm.provided.2] at hok
  simp only [bind_eq_ok, ensure_eq_ok] at hok
  obtain ⟨-, hle⟩ := countSigners_eq_ok_iff.mp hok
  have hcount := hle.trans List.countP_le_length
  rw [hm.keys_length] at hcount
  omega

end Usable

/-- A multisig that its signers can use, now and in every later state. -/
structure MultisigUsable (x : Externals) (l' : Ledger) (k : Pubkey) (required : UInt8)
    (signers : List AccountInfo) : Prop where
  bounds : 1 ≤ required.toNat ∧ required.toNat ≤ signers.length ∧ signers.length ≤ 11
  written : ∃ m, MultisigWritten l' k required signers m
  satisfied : ∀ events later, LedgerRun x l' events later → ∀ info : AccountInfo, info.key = k →
    validateOwner later k info (allSigning signers) = .ok ()
  satisfiable : ∀ events later, LedgerRun x l' events later → ∀ info : AccountInfo, info.key = k →
    ∃ signers', validateOwner later k info signers' = .ok ()

/-- `InitializeMultisig` leaves a multisig that can be used exactly where no more
signatures are asked for than signers are given; it bounds each number, but does not
compare them. Where more are asked for, nothing ever satisfies the multisig. -/
theorem initializeMultisig_usable_iff {c : Call} {required : UInt8} {rent : Bool} {l' : Ledger}
    {k : Pubkey} (hreach : Reachable c.x c.ledger) (hix : c.ix = .initializeMultisig required rent)
    (hkey : c.key 0 = some k) (h : c.process = .ok l') :
    (MultisigUsable c.x l' k required (signerInfos rent c.accounts) ↔
      required.toNat ≤ (signerInfos rent c.accounts).length) ∧
    (¬ required.toNat ≤ (signerInfos rent c.accounts).length →
      ∀ events later, LedgerRun c.x l' events later → ∀ info : AccountInfo, info.key = k →
        ∀ signers, validateOwner later k info signers ≠ .ok ()) := by
  have hl := Call.process_wellFormed hreach.wellFormed h
  obtain ⟨x, env, ix, accounts, l⟩ := c
  subst hix
  obtain ⟨info, hinfo, m, hm⟩ := processInitializeMultisig_written h
  obtain rfl : info.key = k := by
    rw [Option.mem_def, List.head?_eq_getElem?] at hinfo
    simpa [Call.key, hinfo] using hkey
  have hlater : ∀ events later, LedgerRun x l' events later → MultisigAt later info.key m :=
    fun _ _ hrun => hrun.multisigAt hl hm.toMultisigAt hm.initialized.initialized
  refine ⟨⟨fun husable => husable.bounds.2.1, fun hle => ?_⟩,
    fun hlt events later hrun info' hinfo' signers => ?_⟩
  · have hsatisfied : ∀ events later, LedgerRun x l' events later → ∀ info' : AccountInfo,
        info'.key = info.key →
          validateOwner later info.key info' (allSigning (signerInfos rent accounts)) = .ok () := by
      intro events later hrun info' hinfo'
      have hat := hlater events later hrun
      rw [← hinfo'] at hat ⊢
      refine hat.validateOwner_all hm.initialized ?_ hm.keys
      rw [hm.required, hm.provided]
      exact hle
    have hrequired := hm.initialized.required
    have hprovided := hm.initialized.provided
    rw [hm.required] at hrequired
    rw [hm.provided] at hprovided
    exact ⟨⟨hrequired.1, hle, hprovided.2⟩, ⟨m, hm⟩, hsatisfied,
      fun events later hrun info' hinfo' => ⟨_, hsatisfied events later hrun info' hinfo'⟩⟩
  · have hat := hlater events later hrun
    rw [← hinfo'] at hat ⊢
    refine hat.validateOwner_ne hm.initialized ?_ signers
    rw [hm.required, hm.provided]
    exact Nat.lt_of_not_le hlt

/-- Three signatures are asked for, and two signers given. -/
def threeOfTwoCall : Call :=
  ⟨.refusing, .plain 0, .initializeMultisig 3 false, [⟨⟨2⟩, false⟩, ⟨⟨7⟩, false⟩, ⟨⟨8⟩, false⟩],
    blankMultisigLedger⟩

/-- No list of signers ever satisfies it. -/
theorem initializeMultisig_usable_fails :
    ∃ l', threeOfTwoCall.process = .ok l' ∧
      ¬ MultisigUsable .refusing l' ⟨2⟩ 3 [⟨⟨7⟩, false⟩, ⟨⟨8⟩, false⟩] ∧
      ∀ events later, LedgerRun .refusing l' events later → ∀ signers,
        validateOwner later ⟨2⟩ ⟨⟨2⟩, false⟩ signers ≠ .ok () := by
  obtain ⟨l', hl'⟩ := Call.succeeds_of_isOk (c := threeOfTwoCall) (by decide +kernel)
  have hgen : Genesis blankMultisigLedger := .ofList (by decide) (by decide)
  obtain ⟨info, hinfo, m, hm⟩ := processInitializeMultisig_written hl'
  obtain rfl : (⟨⟨2⟩, false⟩ : AccountInfo) = info := Option.some.inj hinfo
  have hwell : WellFormedLedger l' := Call.process_wellFormed (c := threeOfTwoCall) hgen.wellFormed hl'
  refine ⟨l', hl', fun husable => absurd husable.bounds.2.1 (by decide),
    fun events later hrun signers => ?_⟩
  have hat := hrun.multisigAt hwell hm.toMultisigAt hm.initialized.initialized
  have hlt : m.n.toNat < m.m.toNat := by
    rw [hm.provided, hm.required]
    decide
  exact MultisigAt.validateOwner_ne hat hm.initialized hlt signers

/-- Two of two. -/
theorem initializeMultisig_usable_twoOfTwo :
    ∃ l', (Call.mk .refusing (.plain 0) (.initializeMultisig 2 false)
      [⟨⟨2⟩, false⟩, ⟨⟨7⟩, false⟩, ⟨⟨8⟩, false⟩] blankMultisigLedger).process = .ok l' ∧
      MultisigUsable .refusing l' ⟨2⟩ 2 [⟨⟨7⟩, false⟩, ⟨⟨8⟩, false⟩] := by
  obtain ⟨l', hl'⟩ := Call.succeeds_of_isOk (c := .mk .refusing (.plain 0)
    (.initializeMultisig 2 false) [⟨⟨2⟩, false⟩, ⟨⟨7⟩, false⟩, ⟨⟨8⟩, false⟩] blankMultisigLedger)
    (by decide +kernel)
  have hgen : Genesis blankMultisigLedger := .ofList (by decide) (by decide)
  have hiff := initializeMultisig_usable_iff (k := ⟨2⟩) ⟨_, [], hgen, .nil _⟩ rfl rfl hl'
  exact ⟨l', hl', hiff.1.mpr (by decide)⟩

end BarkToken
