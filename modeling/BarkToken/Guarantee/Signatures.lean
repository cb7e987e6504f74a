import BarkToken.Invariant.WellFormed
import BarkToken.Program.Replay

/-!
# What a successful `validate_owner` proves (processor.rs:1792-1829)

The authority has signed, or it is a multisig and enough accounts have signed for
it. Two kinds of authority accounts break this: data of a multisig's length that
was never initialised asks for no signature, and a multisig that lists a key twice
counts one signature twice.
-/

namespace BarkToken
open Fallible AccountData

/-! ### Counting signers -/

/-- The signers that have been looked at so far account for every match. -/
structure Matching (keys : List Pubkey) (signers : List AccountInfo) (s : MatchedSigners) : Prop where
  count : s.numSigners = s.matched.length
  nodup : s.matched.Nodup
  signed : ∀ i ∈ s.matched, ∃ signer ∈ signers, signer.isSigner = true ∧ keys[i]? = some signer.key

theorem matchSigner_matching {keys : List Pubkey} {signers : List AccountInfo} {signer : AccountInfo}
    {s s' : MatchedSigners} {entry : Pubkey × ℕ} (hsigner : signer ∈ signers)
    (hentry : keys[entry.2]? = some entry.1) (hs : Matching keys signers s)
    (h : matchSigner signer s entry = .ok s') : Matching keys signers s' := by
  unfold matchSigner at h
  split at h
  case isTrue hnew =>
    simp only [bind_eq_ok, exists_unit, ensure_eq_ok, pure_eq_ok] at h
    obtain ⟨hsigned, rfl⟩ := h
    refine ⟨by simp [hs.count], List.nodup_cons.mpr ⟨hnew.2, hs.nodup⟩, fun i hi => ?_⟩
    rcases List.mem_cons.mp hi with rfl | hi
    · exact ⟨signer, hsigner, hsigned, hentry.trans (congrArg some hnew.1)⟩
    · exact hs.signed i hi
  case isFalse =>
    obtain rfl := pure_eq_ok.mp h
    exact hs

theorem countSigners_matching {keys : List Pubkey} {signers : List AccountInfo} {s : MatchedSigners}
    (h : countSigners keys signers = .ok s) : Matching keys signers s := by
  refine loop_invariant (Matching keys signers) (fun s signer u hsigner hs hpass => ?_)
    ⟨rfl, List.nodup_nil, by simp⟩ h
  exact loop_invariant (Matching keys signers) (fun s entry u hentry hs hmatch =>
    matchSigner_matching hsigner (List.mem_zipIdx_iff_getElem?.mp hentry) hs hmatch) hs hpass

namespace Matching

variable {keys : List Pubkey} {signers : List AccountInfo} {s : MatchedSigners}

/-- There are no more matches than keys. -/
theorem count_le_keys (h : Matching keys signers s) : s.numSigners ≤ keys.length := by
  have hsub : s.matched ⊆ List.range keys.length := fun i hi => by
    obtain ⟨signer, -, -, hget⟩ := h.signed i hi
    exact List.mem_range.mpr (List.getElem?_eq_some_iff.mp hget).1
  rw [h.count, ← List.length_range (n := keys.length)]
  exact (h.nodup.subperm hsub).length_le

/-- Different keys are matched by different signers. -/
theorem count_le_signers (h : Matching keys signers s) (hkeys : keys.Nodup) :
    s.numSigners ≤ (signers.filter AccountInfo.isSigner).length := by
  have hnodup : (s.matched.map fun i => keys[i]?).Nodup := by
    refine h.nodup.map_on fun i hi j _ hij => ?_
    obtain ⟨signer, -, -, hget⟩ := h.signed i hi
    exact (List.getElem?_inj (List.getElem?_eq_some_iff.mp hget).1 hkeys).mp hij
  have hsub : (s.matched.map fun i => keys[i]?) ⊆
      (signers.filter AccountInfo.isSigner).map fun a => some a.key := by
    intro key hkey
    obtain ⟨i, hi, rfl⟩ := List.mem_map.mp hkey
    obtain ⟨signer, hmem, hsigned, hget⟩ := h.signed i hi
    exact List.mem_map.mpr ⟨signer, List.mem_filter.mpr ⟨hmem, hsigned⟩, hget.symm⟩
  have hle := (hnodup.subperm hsub).length_le
  rw [List.length_map, List.length_map] at hle
  exact h.count ▸ hle

/-- Whatever is matched, someone has signed. -/
theorem signer_of_count (h : Matching keys signers s) (hpos : 0 < s.numSigners) :
    0 < (signers.filter AccountInfo.isSigner).length := by
  rw [h.count] at hpos
  obtain ⟨i, hi⟩ := List.exists_mem_of_length_pos hpos
  obtain ⟨signer, hmem, hsigned, -⟩ := h.signed i hi
  exact List.length_pos_of_mem (List.mem_filter.mpr ⟨hmem, hsigned⟩)

end Matching

/-! ### Accounts that all sign -/

/-- A pass over the keys with an account that has signed matches all its positions. -/
theorem matchSigner_loop {signer : AccountInfo} (hsigned : signer.isSigner = true)
    (entries : List (Pubkey × ℕ)) (s : MatchedSigners) :
    ∃ s', loop (matchSigner signer) entries s = .ok s' ∧ s.matched ⊆ s'.matched ∧
      ∀ e ∈ entries, e.1 = signer.key → e.2 ∈ s'.matched := by
  induction entries generalizing s with
  | nil => exact ⟨s, rfl, List.Subset.refl _, by simp⟩
  | cons e entries ih =>
    obtain ⟨u, hu, hsub, he⟩ : ∃ u, matchSigner signer s e = .ok u ∧ s.matched ⊆ u.matched ∧
        (e.1 = signer.key → e.2 ∈ u.matched) := by
      by_cases hnew : e.1 = signer.key ∧ e.2 ∉ s.matched
      · refine ⟨⟨e.2 :: s.matched, s.numSigners + 1⟩, ?_, List.subset_cons_self _ _,
          fun _ => List.mem_cons_self⟩
        rw [matchSigner, if_pos hnew, ensure_bind_eq_ok]
        exact ⟨hsigned, rfl⟩
      · refine ⟨s, ?_, List.Subset.refl _, fun hkey => not_not.mp fun hnot => hnew ⟨hkey, hnot⟩⟩
        rw [matchSigner, if_neg hnew]
        rfl
    obtain ⟨s', hs', hsub', hrest⟩ := ih u
    refine ⟨s', loop_cons_eq_ok.mpr ⟨u, hu, hs'⟩, List.Subset.trans hsub hsub', fun e' he' hkey => ?_⟩
    rcases List.mem_cons.mp he' with rfl | hmem
    · exact hsub' (he hkey)
    · exact hrest e' hmem hkey

/-- Accounts that have all signed match every position of their keys. -/
theorem countSigners_of_signed (keys : List Pubkey) {signers : List AccountInfo}
    (hsigned : ∀ a ∈ signers, a.isSigner = true) :
    ∃ s, countSigners keys signers = .ok s ∧
      ∀ i key, keys[i]? = some key → key ∈ signers.map AccountInfo.key → i ∈ s.matched := by
  suffices h : ∀ s, ∃ s', loop (fun s signer => loop (matchSigner signer) keys.zipIdx s) signers s =
      .ok s' ∧ s.matched ⊆ s'.matched ∧
      ∀ i key, keys[i]? = some key → key ∈ signers.map AccountInfo.key → i ∈ s'.matched by
    obtain ⟨s, hs, -, hall⟩ := h ⟨[], 0⟩
    exact ⟨s, hs, hall⟩
  induction signers with
  | nil => exact fun s => ⟨s, rfl, List.Subset.refl _, by simp⟩
  | cons a signers ih =>
    intro s
    obtain ⟨u, hu, hsub, ha⟩ := matchSigner_loop (hsigned a List.mem_cons_self) keys.zipIdx s
    obtain ⟨s', hs', hsub', hall⟩ := ih (fun b hb => hsigned b (List.mem_cons_of_mem _ hb)) u
    refine ⟨s', loop_cons_eq_ok.mpr ⟨u, hu, hs'⟩, List.Subset.trans hsub hsub', fun i key hget hmem => ?_⟩
    rw [List.map_cons] at hmem
    rcases List.mem_cons.mp hmem with rfl | hmem
    · exact hsub' (ha (a.key, i) (List.mem_zipIdx_iff_getElem?.mpr hget) rfl)
    · exact hall i key hget hmem

/-- Where a key is listed twice, fewer accounts than `m` can match `m` positions. -/
theorem exists_signers_of_not_nodup {keys : List Pubkey} {m : ℕ} (hkeys : ¬ keys.Nodup) (hm : 2 ≤ m)
    (hle : m ≤ keys.length) :
    ∃ signers s, (∀ a ∈ signers, a.isSigner = true) ∧ signers.length < m ∧
      countSigners keys signers = .ok s ∧ m ≤ s.numSigners := by
  -- `m` positions, of which two have the same key
  have hinj : ¬ Function.Injective keys.get := fun h => hkeys (List.nodup_iff_injective_get.mpr h)
  obtain ⟨i, j, hij, hne⟩ : ∃ i j, keys.get i = keys.get j ∧ i ≠ j := by
    simpa [Function.Injective] using hinj
  obtain ⟨P, hsub, -, hcard⟩ : ∃ P : Finset (Fin keys.length), {i, j} ⊆ P ∧ P ⊆ Finset.univ ∧
      P.card = m :=
    Finset.exists_subsuperset_card_eq (Finset.subset_univ _) (by rwa [Finset.card_pair hne])
      (by rwa [Finset.card_univ, Fintype.card_fin])
  have hi : i ∈ P := hsub (by simp)
  have hj : j ∈ P := hsub (by simp)
  have hlt : (P.image keys.get).card < m := by
    refine hcard ▸ lt_of_le_of_ne Finset.card_image_le fun heq => hne ?_
    exact Finset.card_image_iff.mp heq hi hj hij
  -- The accounts of their keys
  let signers := (P.image keys.get).toList.map fun key => AccountInfo.mk key true
  have hsigned : ∀ a ∈ signers, a.isSigner = true := by
    intro a ha
    obtain ⟨key, -, rfl⟩ := List.mem_map.mp ha
    rfl
  obtain ⟨s, hs, hall⟩ := countSigners_of_signed keys hsigned
  refine ⟨signers, s, hsigned, by simpa [signers] using hlt, hs, ?_⟩
  have hmatched : P.image Fin.val ⊆ s.matched.toFinset := by
    intro p hp
    obtain ⟨q, hq, rfl⟩ := Finset.mem_image.mp hp
    refine List.mem_toFinset.mpr (hall q (keys.get q) (by simp) ?_)
    simpa [signers, Function.comp_def] using ⟨q, hq, rfl⟩
  calc m = (P.image Fin.val).card := by
        rw [Finset.card_image_of_injective _ Fin.val_injective, hcard]
    _ ≤ s.matched.toFinset.card := Finset.card_le_card hmatched
    _ ≤ s.matched.length := List.toFinset_card_le _
    _ = s.numSigners := (countSigners_matching hs).count.symm

/-! ### Authorities -/

/-- The keys that a multisig lists. -/
def PodMultisig.keys (m : PodMultisig) : List Pubkey := m.signers.toList.take m.n.toNat

/-- A signature of the authority itself, or as many as the multisig there asks for,
at least one. -/
def AuthorityBacked (l : Ledger) (info : AccountInfo) (signers : List AccountInfo) : Prop :=
  info.isSigner = true ∨ ∃ m : PodMultisig, (l info.key).owner = programId ∧
    (l info.key).data = .multisig m ∧ m.Initialized ∧ 1 ≤ m.m.toNat ∧
    m.m.toNat ≤ (signers.filter AccountInfo.isSigner).length

/-- Data of a multisig's length that no instruction has initialised. -/
def UninitializedMultisig (l : Ledger) (k : Pubkey) : Prop :=
  (l k).owner = programId ∧ ∃ tlv, (l k).data = .zeroed multisigLen tlv

/-- The multisig can be satisfied, asks for several signatures, and lists a key
twice. -/
def PodMultisig.CountsTwice (m : PodMultisig) : Prop :=
  2 ≤ m.m.toNat ∧ m.m.toNat ≤ m.n.toNat ∧ ¬ m.keys.Nodup

theorem PodMultisig.Initialized.keys_length {m : PodMultisig} (h : m.Initialized) :
    m.keys.length = m.n.toNat := by
  rw [PodMultisig.keys, List.length_take, Vector.length_toList]
  exact min_eq_left h.provided.2

section Validate

variable {l : Ledger} {key : Pubkey} {info : AccountInfo} {signers : List AccountInfo}

/-- What `validate_owner` has looked at when it succeeds. -/
theorem validateOwner_cases (hl : WellFormedLedger l) (h : validateOwner l key info signers = .ok ()) :
    info.isSigner = true ∨ UninitializedMultisig l info.key ∨
      ∃ m s, (l info.key).owner = programId ∧ (l info.key).data = .multisig m ∧ m.Initialized ∧
        countSigners m.keys signers = .ok s ∧ m.m.toNat ≤ s.numSigners := by
  rw [validateOwner, ensure_bind_eq_ok] at h
  obtain ⟨-, h⟩ := h
  split at h
  case isTrue hmultisig =>
    obtain ⟨howner, hlen⟩ := hmultisig
    simp only [bind_eq_ok, exists_unit, ensure_eq_ok] at h
    obtain ⟨m, hread, -, s, hs, hle⟩ := h
    right
    cases hdata : (l info.key).data with
    | multisig m' =>
      rw [hdata] at hread
      obtain rfl := Except.ok.inj hread
      exact Or.inr ⟨m', s, howner, rfl, (hl info.key).of_multisig howner hdata, hs, hle⟩
    | zeroed len tlv =>
      rw [hdata] at hlen
      obtain rfl : len = multisigLen := hlen
      exact Or.inl ⟨howner, tlv, hdata⟩
    | _ => simp [hdata, readMultisig] at hread
  case isFalse => exact Or.inl (ensure_eq_ok.mp h)

/-- Uninitialised data asks for no signature at all. -/
theorem UninitializedMultisig.validateOwner (h : UninitializedMultisig l info.key) :
    validateOwner l info.key info [] = .ok () := by
  obtain ⟨howner, tlv, hdata⟩ := h
  rw [BarkToken.validateOwner, ensure_bind_eq_ok, if_pos ⟨howner, by rw [hdata]; rfl⟩, hdata]
  exact ⟨rfl, rfl⟩

/-- An initialised multisig is satisfied where enough of its positions match. -/
theorem validateOwner_of_multisig {m : PodMultisig} {s : MatchedSigners}
    (howner : (l info.key).owner = programId) (hdata : (l info.key).data = .multisig m)
    (hm : m.Initialized) (hs : countSigners m.keys signers = .ok s) (hle : m.m.toNat ≤ s.numSigners) :
    validateOwner l info.key info signers = .ok () := by
  rw [validateOwner, ensure_bind_eq_ok, if_pos ⟨howner, by rw [hdata]; rfl⟩]
  refine ⟨rfl, ?_⟩
  simp only [bind_eq_ok, exists_unit, ensure_eq_ok]
  exact ⟨m, by rw [hdata]; rfl, hm.provided.2, s, hs, hle⟩

end Validate

/-- Exactly which authority accounts need the signatures that they should: with
these, and in every reachable state, `validate_owner` never succeeds unless the
authority has signed, or is an initialised multisig for which at least `m` accounts
have. -/
theorem validateOwner_backed_iff {x : Externals} {l : Ledger} (hreach : Reachable x l) (key : Pubkey)
    (info : AccountInfo) :
    (∀ signers, validateOwner l key info signers = .ok () → AuthorityBacked l info signers) ↔
      (key = info.key → info.isSigner = false → ¬ UninitializedMultisig l info.key ∧
        ∀ m, (l info.key).owner = programId → (l info.key).data = .multisig m → ¬ m.CountsTwice) := by
  have hl := hreach.wellFormed
  constructor
  · rintro hbacked rfl hunsigned
    refine ⟨fun huninit => ?_, fun m howner hdata htwice => ?_⟩
    · have hok := huninit.validateOwner
      rcases hbacked [] hok with hsigned | ⟨m, -, hdata, -⟩
      · simp [hunsigned] at hsigned
      · obtain ⟨-, tlv, hzero⟩ := huninit
        exact absurd (hzero.symm.trans hdata) (by simp)
    · have hm := (hl info.key).of_multisig howner hdata
      obtain ⟨htwo, hle, hdup⟩ := htwice
      obtain ⟨signers, s, hsigned, hlt, hs, hcount⟩ :=
        exists_signers_of_not_nodup hdup htwo (hm.keys_length ▸ hle)
      have hok := validateOwner_of_multisig howner hdata hm hs hcount
      rcases hbacked signers hok with hself | ⟨m', -, hdata', -, -, henough⟩
      · simp [hunsigned] at hself
      · obtain rfl := AccountData.multisig.inj (hdata.symm.trans hdata')
        exact absurd (henough.trans (List.length_filter_le _ _)) (Nat.not_le.mpr hlt)
  · intro hgood signers hok
    by_cases hsigned : info.isSigner = true
    · exact Or.inl hsigned
    obtain ⟨huninit, htwice⟩ := hgood (validateOwner_key hok) (by simpa using hsigned)
    rcases validateOwner_cases hl hok with hself | hzero | ⟨m, s, howner, hdata, hm, hs, hle⟩
    · exact absurd hself hsigned
    · exact absurd hzero huninit
    · have hmatching := countSigners_matching hs
      have hpos := hm.required.1
      refine Or.inr ⟨m, howner, hdata, hm, hpos, ?_⟩
      by_cases hone : m.m.toNat ≤ 1
      · exact hone.trans (hmatching.signer_of_count (hpos.trans hle))
      · have hkeys : m.keys.Nodup := by
          by_contra hdup
          refine htwice m howner hdata ⟨by omega, ?_, hdup⟩
          exact hm.keys_length ▸ hle.trans hmatching.count_le_keys
        exact hle.trans (hmatching.count_le_signers hkeys)

/-! ### Signatures that are missing -/

/-- Two accounts of a multisig's length, of which one is left as it is. -/
def blankMultisigLedger : Ledger :=
  .ofList [(⟨1⟩, ⟨1, programId, .zeroed 355 []⟩), (⟨2⟩, ⟨1, programId, .zeroed 355 []⟩)]

/-- Two signatures are to be asked for, of a key listed twice. -/
def twiceListedCalls : List (Env × TokenInstruction × List AccountInfo) :=
  [(.plain 0, .initializeMultisig 2 false, [⟨⟨2⟩, false⟩, ⟨⟨7⟩, false⟩, ⟨⟨7⟩, false⟩])]

/-- No one signs for the first account, and one account for the second. -/
theorem validateOwner_backed_fails :
    Reachable .refusing (replay .refusing twiceListedCalls blankMultisigLedger) ∧
      ¬ (validateOwner (replay .refusing twiceListedCalls blankMultisigLedger) ⟨1⟩ ⟨⟨1⟩, false⟩ [] =
          .ok () →
        AuthorityBacked (replay .refusing twiceListedCalls blankMultisigLedger) ⟨⟨1⟩, false⟩ []) ∧
      validateOwner (replay .refusing twiceListedCalls blankMultisigLedger) ⟨2⟩ ⟨⟨2⟩, false⟩
        [⟨⟨7⟩, true⟩] = .ok () := by
  have hgen : Genesis blankMultisigLedger := .ofList (by decide) (by decide)
  refine ⟨hgen.reachable_replay twiceListedCalls, fun hbacked => ?_, by decide⟩
  rcases hbacked rfl with hsigned | ⟨m, -, hdata, -⟩
  · exact absurd hsigned (by decide)
  · have hzero : (replay .refusing twiceListedCalls blankMultisigLedger ⟨1⟩).data = .zeroed 355 [] := by
      decide
    exact absurd (hzero.symm.trans hdata) (by simp)

/-- Two different keys have to sign for the second account. -/
def twoOfTwoCalls : List (Env × TokenInstruction × List AccountInfo) :=
  [(.plain 0, .initializeMultisig 2 false, [⟨⟨2⟩, false⟩, ⟨⟨7⟩, false⟩, ⟨⟨8⟩, false⟩])]

def twoOfTwo : PodMultisig :=
  ⟨2, 2, true, #v[⟨7⟩, ⟨8⟩, ⟨0⟩, ⟨0⟩, ⟨0⟩, ⟨0⟩, ⟨0⟩, ⟨0⟩, ⟨0⟩, ⟨0⟩, ⟨0⟩]⟩

theorem validateOwner_backed_twoOfTwo :
    AuthorityBacked (replay .refusing twoOfTwoCalls blankMultisigLedger) ⟨⟨2⟩, false⟩
      [⟨⟨8⟩, true⟩, ⟨⟨7⟩, true⟩] := by
  have hgen : Genesis blankMultisigLedger := .ofList (by decide) (by decide)
  have hdata : (replay .refusing twoOfTwoCalls blankMultisigLedger ⟨2⟩).data = .multisig twoOfTwo := by
    decide
  refine (validateOwner_backed_iff (hgen.reachable_replay twoOfTwoCalls) ⟨2⟩ ⟨⟨2⟩, false⟩).mpr
    (fun _ _ => ⟨?_, fun m _ hm => ?_⟩) [⟨⟨8⟩, true⟩, ⟨⟨7⟩, true⟩] (by decide)
  · rintro ⟨-, tlv, hzero⟩
    exact absurd (hdata.symm.trans hzero) (by simp)
  · obtain rfl := AccountData.multisig.inj (hdata.symm.trans hm)
    exact fun htwice => htwice.2.2 (by decide)

end BarkToken
