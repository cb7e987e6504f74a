import BarkToken.Foundation.Transition
import Mathlib.Data.Set.Basic

/-!
# Custody

What one may expect of a system that keeps assets for others. Every holding has an
owner, who may allow someone else to draw on it up to a limit and name someone to close
it; every asset may have an issuer, and keys that freeze holdings, recover them, or close
the asset. A step is known by the keys that have approved it. Whatever one step can do,
those who have not approved lose nothing.
-/

namespace Custody
open Transition

variable {κ : Type}

/-- What someone has of one asset, and who else may act on it. -/
structure Holding (κ : Type) where
  asset : κ
  owner : κ
  balance : ℕ
  allowance : Option (κ × ℕ)
  closer : Option κ
  frozen : Bool

/-- The offices of an asset. -/
inductive Role where
  | issuer
  | freezer
  | recoverer
  | closer
deriving DecidableEq

structure Asset (κ : Type) where
  supply : ℕ
  holder : Role → Option κ

/-- All holdings and assets, by the address they are kept at. -/
structure Bank (κ : Type) where
  holding : κ → Option (Holding κ)
  asset : κ → Option (Asset κ)

/-- Owners whose holdings are anyone's, and assets that can be paid out in closing. -/
structure Terms (κ : Type) where
  abandoned : κ → Prop
  cash : κ → Prop

/-- Who holds the role in the asset has approved. The holdings of an asset that is gone
are not protected. -/
def Role.Approves (r : Role) (asset : Option (Asset κ)) (A : Set κ) : Prop :=
  ∀ a, asset = some a → ∃ v, a.holder r = some v ∧ v ∈ A

/-- A holding before and after a step that the keys in `A` have approved. -/
inductive Holding.Change (T : Terms κ) (asset : Option (Asset κ)) (A : Set κ) (h : Holding κ) :
    Holding κ → Prop
  | received (n : ℕ) : Change T asset A h { h with balance := h.balance + n }
  | paid {n rest : ℕ} (hby : h.owner ∈ A ∨ T.abandoned h.owner) (hfrozen : h.frozen = false)
      (hbalance : rest + n = h.balance) : Change T asset A h { h with balance := rest }
  | drawn {v : κ} {n rest left : ℕ} (hallowance : h.allowance = some (v, left + n)) (hby : v ∈ A)
      (hfrozen : h.frozen = false) (hbalance : rest + n = h.balance) :
      Change T asset A h { h with
        balance := rest
        allowance := if left = 0 then none else some (v, left) }
  | recovered {n rest : ℕ} (hby : Role.recoverer.Approves asset A) (hfrozen : h.frozen = false)
      (hbalance : rest + n = h.balance) : Change T asset A h { h with balance := rest }
  | allowed (v : κ) (n : ℕ) (hby : h.owner ∈ A) (hfrozen : h.frozen = false) :
      Change T asset A h { h with allowance := some (v, n) }
  | revoked (hby : h.owner ∈ A ∨ ∃ v n, h.allowance = some (v, n) ∧ v ∈ A)
      (hfrozen : h.frozen = false) : Change T asset A h { h with allowance := none }
  | handedOver (owner : κ) {closer : Option κ} (hby : h.owner ∈ A) (hfrozen : h.frozen = false)
      (hcloser : closer = none ∨ closer = h.closer) :
      Change T asset A h { h with owner := owner, allowance := none, closer := closer }
  | closerSet (closer : Option κ) (hby : h.closer.getD h.owner ∈ A) (hfrozen : h.frozen = false) :
      Change T asset A h { h with closer := closer }
  | toggled (frozen : Bool) (hby : Role.freezer.Approves asset A) :
      Change T asset A h { h with frozen := frozen }

/-- What becomes of an address of holdings. -/
inductive Holding.Next (T : Terms κ) (assets : κ → Option (Asset κ)) (A : Set κ) :
    Option (Holding κ) → Option (Holding κ) → Prop
  | absent : Next T assets A none none
  | opened {h : Holding κ} (hallowance : h.allowance = none) (hasset : (assets h.asset).isSome)
      (hbalance : h.balance = 0 ∨ T.cash h.asset) : Next T assets A none (some h)
  | changed {h h' : Holding κ} (hchange : h.Change T (assets h.asset) A h') :
      Next T assets A (some h) (some h')
  | closed {h : Holding κ} (hby : h.closer.getD h.owner ∈ A ∨ T.abandoned h.owner)
      (hbalance : h.balance = 0 ∨ T.cash h.asset) : Next T assets A (some h) none

/-- An asset before and after a step: offices are handed on by their holders, and only
the issuer adds to the supply. -/
structure Asset.Change (A : Set κ) (a a' : Asset κ) : Prop where
  holder : ∀ r, a'.holder r = a.holder r ∨ ∃ v, a.holder r = some v ∧ v ∈ A
  supply : a'.supply ≤ a.supply ∨ ∃ v, a.holder .issuer = some v ∧ v ∈ A

/-- What becomes of an address of assets. -/
inductive Asset.Next (A : Set κ) : Option (Asset κ) → Option (Asset κ) → Prop
  | absent : Next A none none
  | issued {a : Asset κ} (hsupply : a.supply = 0) : Next A none (some a)
  | changed {a a' : Asset κ} (hchange : a.Change A a') : Next A (some a) (some a')
  | closed {a : Asset κ} {v : κ} (hholder : a.holder .closer = some v) (hby : v ∈ A)
      (hsupply : a.supply = 0) : Next A (some a) none

/-- A step of the whole bank. -/
structure Step (T : Terms κ) (b : Bank κ) (A : Set κ) (b' : Bank κ) : Prop where
  holding : ∀ k, Holding.Next T b.asset A (b.holding k) (b'.holding k)
  asset : ∀ k, Asset.Next A (b.asset k) (b'.asset k)

/-! ### Those who have not approved -/

/-- What a holding allows others to draw. -/
def Holding.exposure (h : Holding κ) : ℕ := (h.allowance.map Prod.snd).getD 0

/-- Everyone but the delegate whose approval a change to the holding needs. -/
def guardians (h : Holding κ) (a : Asset κ) : Set κ :=
  {v | v = h.owner ∨ h.closer = some v ∨ ∃ r, r ≠ .issuer ∧ a.holder r = some v}

/-- What is left of a holding if only a delegate from `D` has drawn on it. -/
structure Holding.Remains (D : Set κ) (h h' : Holding κ) : Prop where
  asset : h'.asset = h.asset
  owner : h'.owner = h.owner
  closer : h'.closer = h.closer
  frozen : h'.frozen = h.frozen
  delegate : ∀ v n, h'.allowance = some (v, n) → ∃ m, h.allowance = some (v, m)
  allowance : h'.allowance = h.allowance ∨ ∃ v n, h.allowance = some (v, n) ∧ v ∈ D
  balance : h.balance + h'.exposure ≤ h'.balance + h.exposure

/-- The offices of an asset, other than the issuer's, are held as before. -/
def Asset.Remains (a a' : Asset κ) : Prop := ∀ r, r ≠ .issuer → a'.holder r = a.holder r

/-- None of the guardians of a holding has approved, and no delegate outside `D`. -/
structure Silent (D : Set κ) (h : Holding κ) (a : Asset κ) (A : Set κ) : Prop where
  guardians : ∀ v ∈ A, v ∉ guardians h a
  delegate : ∀ v n, h.allowance = some (v, n) → v ∈ A → v ∈ D

variable {T : Terms κ} {A D : Set κ} {a a' : Asset κ} {h h' h'' : Holding κ} {b b' : Bank κ}

theorem Holding.exposure_of_none (hnone : h.allowance = none) : h.exposure = 0 := by
  rw [Holding.exposure, hnone]
  rfl

theorem Holding.exposure_of_some {v : κ} {n : ℕ} (hsome : h.allowance = some (v, n)) :
    h.exposure = n := by
  rw [Holding.exposure, hsome]
  rfl

namespace Holding.Remains

theorem refl (D : Set κ) (h : Holding κ) : h.Remains D h :=
  ⟨rfl, rfl, rfl, rfl, fun _ n hallowance => ⟨n, hallowance⟩, Or.inl rfl, le_refl _⟩

theorem trans (hr : h.Remains D h') (hr' : h'.Remains D h'') : h.Remains D h'' where
  asset := hr'.asset.trans hr.asset
  owner := hr'.owner.trans hr.owner
  closer := hr'.closer.trans hr.closer
  frozen := hr'.frozen.trans hr.frozen
  delegate v n hallowance := by
    obtain ⟨m, hm⟩ := hr'.delegate v n hallowance
    exact hr.delegate v m hm
  allowance := by
    rcases hr'.allowance with hsame | ⟨v, n, hallowance, hv⟩
    · rw [hsame]
      exact hr.allowance
    · obtain ⟨m, hm⟩ := hr.delegate v n hallowance
      exact Or.inr ⟨v, m, hm, hv⟩
  balance := by
    have := hr.balance
    have := hr'.balance
    omega

/-- An allowance that is used up or given up. -/
theorem exhausted {v : κ} {m rest : ℕ} (hallowance : h.allowance = some (v, m)) (hv : v ∈ D)
    (hbalance : h.balance ≤ rest + m) :
    h.Remains D { h with balance := rest, allowance := none } where
  asset := rfl
  owner := rfl
  closer := rfl
  frozen := rfl
  delegate _ _ hnone := by cases hnone
  allowance := Or.inr ⟨v, m, hallowance, hv⟩
  balance := by
    rw [exposure_of_some hallowance, exposure_of_none rfl]
    exact hbalance

/-- An allowance that is used up in part. -/
theorem reduced {v : κ} {n rest left : ℕ} (hallowance : h.allowance = some (v, left + n))
    (hv : v ∈ D) (hbalance : rest + n = h.balance) :
    h.Remains D { h with balance := rest, allowance := some (v, left) } where
  asset := rfl
  owner := rfl
  closer := rfl
  frozen := rfl
  delegate w m hsome := by
    obtain ⟨rfl, rfl⟩ := Prod.mk.inj (Option.some.inj hsome)
    exact ⟨left + n, hallowance⟩
  allowance := Or.inr ⟨v, left + n, hallowance, hv⟩
  balance := by
    rw [exposure_of_some hallowance, exposure_of_some rfl]
    show h.balance + left ≤ rest + (left + n)
    omega

/-- Without delegates the allowance is as it was, and nothing is lost. -/
theorem kept (hr : h.Remains ∅ h') : h'.allowance = h.allowance ∧ h.balance ≤ h'.balance := by
  rcases hr.allowance with hsame | ⟨_, _, -, hempty⟩
  · have hbalance := hr.balance
    rw [exposure, hsame] at hbalance
    exact ⟨hsame, Nat.add_le_add_iff_right.mp hbalance⟩
  · exact absurd hempty (Set.notMem_empty _)

end Holding.Remains

/-- What is left has the same guardians, and no other delegate. -/
theorem Silent.of_remains (hsilent : Silent D h a A) (hh : h.Remains D h') (ha : a.Remains a') :
    Silent D h' a' A where
  guardians v hv := by
    have hnot := hsilent.guardians v hv
    rintro (howner | hcloser | ⟨r, hr, hholder⟩)
    · exact hnot (Or.inl (howner.trans hh.owner))
    · exact hnot (Or.inr (Or.inl (hh.closer ▸ hcloser)))
    · exact hnot (Or.inr (Or.inr ⟨r, hr, ha r hr ▸ hholder⟩))
  delegate v n hallowance := by
    obtain ⟨m, hm⟩ := hh.delegate v n hallowance
    exact hsilent.delegate v m hm

namespace Silent

theorem owner (hsilent : Silent D h a A) : h.owner ∉ A :=
  fun hA => hsilent.guardians _ hA (Or.inl rfl)

theorem closer (hsilent : Silent D h a A) : h.closer.getD h.owner ∉ A := by
  intro hA
  apply hsilent.guardians _ hA
  cases hcloser : h.closer with
  | none => exact Or.inl rfl
  | some v => exact Or.inr (Or.inl hcloser)

theorem role {r : Role} (hsilent : Silent D h a A) (hr : r ≠ .issuer) :
    ¬ ∃ v, a.holder r = some v ∧ v ∈ A := by
  rintro ⟨v, hv, hA⟩
  exact hsilent.guardians v hA (Or.inr (Or.inr ⟨r, hr, hv⟩))

theorem not_approves {r : Role} (hsilent : Silent D h a A) (hr : r ≠ .issuer) :
    ¬ r.Approves (some a) A :=
  fun happroves => hsilent.role hr (happroves a rfl)

end Silent

theorem Asset.Next.remains {o : Option (Asset κ)} (hnext : Asset.Next A (some a) o)
    (hsilent : Silent D h a A) : ∃ a', o = some a' ∧ a.Remains a' := by
  cases hnext with
  | changed hchange =>
    exact ⟨_, rfl, fun r hr => (hchange.holder r).resolve_right (hsilent.role hr)⟩
  | closed hholder hby => exact absurd ⟨_, hholder, hby⟩ (hsilent.role (by decide))

/-- Without its guardians, all that can happen to a holding is that it receives, and
that its delegate draws on it or gives the allowance up. -/
theorem Holding.Change.remains (hchange : h.Change T (some a) A h') (hsilent : Silent D h a A)
    (howner : ¬ T.abandoned h.owner) : h.Remains D h' := by
  cases hchange with
  | received n =>
    refine ⟨rfl, rfl, rfl, rfl, fun _ n hallowance => ⟨n, hallowance⟩, Or.inl rfl, ?_⟩
    show h.balance + h.exposure ≤ h.balance + n + h.exposure
    omega
  | paid hby =>
    rcases hby with hby | hby
    · exact absurd hby hsilent.owner
    · exact absurd hby howner
  | @drawn v n rest left hallowance hby hfrozen hbalance =>
    have hv := hsilent.delegate v _ hallowance hby
    split
    · exact .exhausted hallowance hv (by omega)
    · exact .reduced hallowance hv hbalance
  | recovered hby => exact absurd hby (hsilent.not_approves (by decide))
  | allowed v n hby => exact absurd hby hsilent.owner
  | revoked hby =>
    rcases hby with hby | ⟨v, n, hallowance, hby⟩
    · exact absurd hby hsilent.owner
    · exact .exhausted hallowance (hsilent.delegate v n hallowance hby) (Nat.le_add_right _ _)
  | handedOver owner hby => exact absurd hby hsilent.owner
  | closerSet closer hby => exact absurd hby hsilent.closer
  | toggled frozen hby => exact absurd hby (hsilent.not_approves (by decide))

theorem Holding.Next.remains {assets : κ → Option (Asset κ)} {o : Option (Holding κ)}
    (hnext : Holding.Next T assets A (some h) o) (hasset : assets h.asset = some a)
    (hsilent : Silent D h a A) (howner : ¬ T.abandoned h.owner) :
    ∃ h', o = some h' ∧ h.Remains D h' := by
  cases hnext with
  | changed hchange =>
    rw [hasset] at hchange
    exact ⟨_, rfl, hchange.remains hsilent howner⟩
  | closed hby =>
    rcases hby with hby | hby
    · exact absurd hby hsilent.closer
    · exact absurd hby howner

/-- As long as none of its guardians approves, a holding stays where it is and loses at
most what its delegate is allowed. -/
theorem Step.remains_of_run {labels : List (Set κ)} {k : κ} (hrun : Run (Step T) b labels b')
    (hsilent : ∀ A ∈ labels, Silent D h a A) (hh : b.holding k = some h)
    (ha : b.asset h.asset = some a) (howner : ¬ T.abandoned h.owner) :
    ∃ h', b'.holding k = some h' ∧ h.Remains D h' := by
  have hinv := Run.invariant (fun b' => ∃ h' a', b'.holding k = some h' ∧
    b'.asset h.asset = some a' ∧ h.Remains D h' ∧ a.Remains a') (fun b A b' hA hb hstep => ?_)
    hrun hsilent ⟨h, a, hh, ha, .refl D h, fun _ _ => rfl⟩
  · obtain ⟨h', -, hh', -, hremains, -⟩ := hinv
    exact ⟨h', hh', hremains⟩
  · obtain ⟨h', a', hh', ha', hremains, haremains⟩ := hb
    have hA' := hA.of_remains hremains haremains
    have hholding := hstep.holding k
    have hasset := hstep.asset h.asset
    rw [hh'] at hholding
    rw [ha'] at hasset
    obtain ⟨h'', hh'', hremains'⟩ := hholding.remains (hremains.asset ▸ ha') hA'
      (hremains.owner ▸ howner)
    obtain ⟨a'', ha'', haremains'⟩ := hasset.remains hA'
    exact ⟨h'', a'', hh'', ha'', hremains.trans hremains',
      fun r hr => (haremains' r hr).trans (haremains r hr)⟩

end Custody
