import HybridVault.Bookkeeping
import HybridVault.Partition

/-!
# Opening a vault

Converting is closed until the launch has graduated, and opens once.

* While a vault is closed it stays as it was created, whatever is sent to it: no number
  is given out, nothing is minted and no index leaves the pool
  (`closed_vault_untouched`).
* So nobody can stand in the way: `open_vault` succeeds, for anyone, exactly if the pool
  the launch recorded has graduated (`opens_iff_graduated`).
* A vault that is open was opened by one instruction of its run, and no step closes it
  (`opened_once`).
-/

namespace HybridVault

open Foundations

variable {D : Deployment} {w w' : World} {x : SequencedPool.State ℕ} {ls : List Label}

/-! ## Graduation -/

/-- **The launch has graduated**: the DBC pool it recorded is one of its mint and config,
and has migrated. -/
structure Graduated (cfg : LaunchConfig) (accounts : RawAccounts) : Prop where
  recorded : cfg.dbcPool ≠ Bytes32.zero
  pool : ∃ pool, loadDbcPool (accounts (.raw cfg.dbcPool)) = .ok (some pool) ∧
    pool.baseMint = cfg.mint ∧ pool.config = cfg.dbcConfig ∧ pool.graduated = true

theorem verifyDbc_eq_ok_iff {cfg : LaunchConfig} {accounts : RawAccounts} {proof : Pubkey}
    {u : Unit} :
    verifyDbc cfg accounts proof = .ok u ↔ proof = .raw cfg.dbcPool ∧ Graduated cfg accounts := by
  simp only [verifyDbc, bind_eq_ok_iff, require_eq_ok_iff, expect_eq_ok_iff]
  constructor
  · rintro ⟨-, hrecorded, -, rfl, _, hload, pool, rfl, -, hmint, -, hconfig, hgraduated⟩
    exact ⟨rfl, hrecorded, pool, hload, hmint, hconfig, hgraduated⟩
  · rintro ⟨rfl, hrecorded, pool, hload, hmint, hconfig, hgraduated⟩
    exact ⟨(), hrecorded, (), rfl, _, hload, pool, rfl, (), hmint, (), hconfig, hgraduated⟩

/-- Whoever opens a vault hands in the recorded pool, and it has graduated. -/
theorem verified_of_handleOpenVault {caller proof : Pubkey} {r : World × List PoolEvent}
    (h : handleOpenVault D w caller proof = .ok r) :
    caller.IsSigner ∧ proof = .raw D.launchConfig.dbcPool ∧
      Graduated D.launchConfig w.accounts := by
  simp only [handleOpenVault, bind_eq_ok_iff, require_eq_ok_iff, verifyDbc_eq_ok_iff] at h
  obtain ⟨-, hsigner, -, -, -, -, -, -, -, -, -, -, -, -, -, hverified, -⟩ := h
  exact ⟨hsigner, hverified⟩

/-! ## What opens a vault -/

/-- The instruction that opens a vault. -/
def Instruction.isOpenVault : Instruction → Bool
  | .openVault .. => true
  | _ => false

def Label.isOpenVault : Label → Bool
  | .instruction ix _ => ix.isOpenVault
  | .environment _ => false

/-- The instructions that show no event. -/
def Instruction.isQuiet : Instruction → Bool
  | .initRandomness _ => true
  | .openVault .. => true
  | .revealRandomness .. => true
  | .recommitRandomness .. => true
  | _ => false

/-- The other instructions show what they do. -/
theorem Sound.events_ne_nil (hs : Sound D w) {ix : Instruction} {es : List PoolEvent}
    (hquiet : ¬ ix.isQuiet = true) (h : perform D w ix = .ok (w', es)) : es ≠ [] := by
  cases ix with
  | initRandomness => exact absurd rfl hquiet
  | openVault => exact absurd rfl hquiet
  | revealRandomness => exact absurd rfl hquiet
  | recommitRandomness => exact absurd rfl hquiet
  | requestCapture user userToken randomness queue oracle staleProofs =>
      obtain ⟨rfl, -⟩ := handleRequestCapture_eq_ok hs.pool h
      exact List.cons_ne_nil _ _
  | requestReroll user randomness queue oracle index staleProofs =>
      obtain ⟨rfl, -⟩ := handleRequestReroll_eq_ok hs.pool h
      exact List.cons_ne_nil _ _
  | settleCapture settler request randomness asset user mint =>
      obtain ⟨r, candidates, picked, d, c, v, rfl, -⟩ := handleSettle_eq_ok hs.pool h
      exact List.cons_ne_nil _ _
  | settleReroll settler request randomness asset user mint =>
      obtain ⟨r, candidates, picked, d, c, v, rfl, -⟩ := handleSettle_eq_ok hs.pool h
      exact List.cons_ne_nil _ _
  | unwrap user userToken index =>
      obtain ⟨rfl, -⟩ := (handleUnwrap_eq_ok_iff hs.pool hs.nextSeq_lt).mp h
      exact List.cons_ne_nil _ _
  | expireRequest caller request randomness user userToken asset =>
      obtain ⟨r, c, -, rfl, -⟩ := handleExpire_eq_ok hs.pool h
      exact List.cons_ne_nil _ _
  | expireRequests caller remaining count =>
      obtain ⟨-, hne, -⟩ := handleExpireBatch_eq_ok hs.pool h
      exact hne
  | mergeIncoming max =>
      obtain ⟨k, d, hmerge, -⟩ := hs.pool.handleMergeIncoming_eq (w := w) max
      obtain ⟨-, rfl⟩ := Prod.mk.inj (Except.ok.inj (h.symm.trans hmerge))
      exact List.cons_ne_nil _ _

/-- They have no quiet effect. -/
theorem Sound.effects_of_acts (hs : Sound D w) {ix : Instruction} {es : List PoolEvent}
    (hquiet : ¬ ix.isQuiet = true) (h : perform D w ix = .ok (w', es)) :
    Run (fun u act v => Effect D u act v ∧ act ≠ .quiet) w (es.map Act.pool) w' := by
  obtain ⟨e, es, rfl⟩ := List.exists_cons_of_ne_nil (hs.events_ne_nil hquiet h)
  refine (hs.effects_of_perform h).restrict ?_
  intro act hact
  obtain ⟨f, -, rfl⟩ := List.mem_map.mp hact
  exact nofun

/-- Whether a vault is open, and since when. -/
def Vault.opening (v : Vault) : Bool × ℕ := (v.isOpen, v.openedAtSlot)

/-- What shows an event, and what the environment does, neither opens nor closes a vault. -/
theorem Effect.opening_eq {act : Act} (h : Effect D w act w') (hact : act ≠ .quiet) :
    w'.vault.opening = w.vault.opening := by
  cases h with
  | @requested _ r _ _ _ heff => rw [heff.vault]; cases r.kind <;> rfl
  | @settled _ r _ _ _ _ _ _ heff => rw [heff.vault_eq]; cases r.kind <;> rfl
  | @expired _ r _ _ heff => rw [heff.vault]; cases r.kind <;> rfl
  | released heff => rw [heff.vault]; rfl
  | merged heff => rw [heff.vault]
  | environment henv => rw [henv.vault]
  | opened => exact absurd rfl hact
  | randomnessCreated => exact absurd rfl hact
  | revealed => exact absurd rfl hact
  | recommitted => exact absurd rfl hact

theorem Effect.isOpen_mono {act : Act} (h : Effect D w act w') (hopen : w.vault.isOpen = true) :
    w'.vault.isOpen = true := by
  by_cases hact : act = .quiet
  · subst hact
    cases h with
    | opened => rfl
    | randomnessCreated => exact hopen
    | revealed heff => rw [heff.vault]; exact hopen
    | recommitted heff => rw [heff.vault]; exact hopen
  · exact (congrArg Prod.fst (h.opening_eq hact)).trans hopen

/-- **Only `open_vault` opens**, and nothing closes. -/
theorem Sound.opening_eq (hs : Sound D w) {l : Label} (hstep : Step D w l w') :
    (l.isOpenVault = false ∧ w'.vault.opening = w.vault.opening) ∨
      (l.isOpenVault = true ∧ w.vault.isOpen = false ∧ w'.vault.isOpen = true) := by
  cases hstep with
  | environment henv => exact Or.inl ⟨rfl, by rw [henv.vault]⟩
  | @instruction _ ix es h =>
      by_cases hquiet : ix.isQuiet = true
      · cases ix with
        | openVault caller graduationProof =>
            obtain ⟨hclosed, hres⟩ := handleOpenVault_eq_ok h
            obtain ⟨rfl, rfl⟩ := Prod.mk.inj hres
            exact Or.inr ⟨rfl, hclosed, rfl⟩
        | initRandomness randomness =>
            obtain ⟨-, -, hres⟩ := handleInitRandomness_eq_ok_iff.mp h
            obtain ⟨rfl, rfl⟩ := Prod.mk.inj hres
            exact Or.inl ⟨rfl, rfl⟩
        | revealRandomness request randomness value =>
            obtain ⟨rfl, r, snap, -, -, heff⟩ := handleRevealRandomness_eq_ok_iff.mp h
            exact Or.inl ⟨rfl, by rw [heff.vault]⟩
        | recommitRandomness request randomness queue oracle staleProofs =>
            obtain ⟨rfl, r, snap, -, -, heff⟩ := handleRecommitRandomness_eq_ok_iff.mp h
            exact Or.inl ⟨rfl, by rw [heff.vault]; rfl⟩
        | _ => exact absurd hquiet Bool.false_ne_true
      · left
        refine ⟨?_, ?_⟩
        · cases ix with
          | openVault => exact absurd rfl hquiet
          | _ => rfl
        · have hrun := hs.effects_of_acts hquiet h
          exact hrun.invariant (P := fun v => v.vault.opening = w.vault.opening)
            (fun _ _ _ hv heff => (heff.1.opening_eq heff.2).trans hv) rfl

/-! ## A closed vault -/

/-- **A vault that nothing has happened to**: its record is the one it was created with, its
pool the full one, its collection empty. -/
structure Pristine (D : Deployment) (w : World) (x : SequencedPool.State ℕ) : Prop where
  pool : x = SequencedPool.State.initial (List.range D.size)
  vault : ∃ params, w.vault = initialVault params
  collection : ∃ col, w.collection = some col ∧ col.currentSize = 0

namespace Pristine

theorem nextSeq (h : Pristine D w x) : w.vault.nextSeq = 0 := by
  obtain ⟨params, hv⟩ := h.vault
  rw [hv]
  rfl

/-- The pool of an untouched vault has nothing to merge. -/
theorem merged (h : Pristine D w x) {y : SequencedPool.State ℕ} {k : ℕ}
    (hrun : Run (PoolStep D) x [.merged k] y) : y = x := by
  have hx := h.pool
  cases hrun.step_of_single with
  | merge hn =>
      subst hx
      have hk : k = 0 := Nat.le_zero.mp hn
      subst hk
      simp [SequencedPool.State.initial]

/-- **A step keeps a closed vault untouched**, unless it opens it. -/
theorem effect (h : Pristine D w x) (hx : Consistent D w x) {act : Act}
    (heff : Effect D w act w') (hclosed : w'.vault.isOpen = false) {y : SequencedPool.State ℕ}
    (hrun : Run (PoolStep D) x act.events y) : Pristine D w' y := by
  obtain ⟨params, hv⟩ := h.vault
  obtain ⟨col, hcol, hsize⟩ := h.collection
  have hquiet : act.events = [] → y = x := by
    intro hes
    rw [hes] at hrun
    cases hrun
    rfl
  cases heff with
  | requested heff =>
      have hsame := congrArg Prod.fst ((Effect.requested heff).opening_eq nofun)
      exact absurd (hclosed.symm.trans (hsame.trans heff.isOpen)) Bool.false_ne_true
  | @settled _ r _ _ _ _ _ _ heff =>
      have hpos := heff.counters.pending_pos
      rw [heff.record, hv] at hpos
      cases hk : r.kind <;> simp [hk, Vault.pending, initialVault] at hpos
  | @expired _ r _ _ heff =>
      have hpos := heff.counters.pending_pos
      rw [hv] at hpos
      cases hk : r.kind <;> simp [hk, Vault.pending, initialVault] at hpos
  | released heff =>
      have hpos := heff.assetsOutside_pos
      rw [hv] at hpos
      simp [initialVault] at hpos
  | merged heff =>
      refine ⟨(h.merged hrun).trans h.pool, ⟨params, by rw [heff.vault, hv]⟩, col, ?_, hsize⟩
      rw [heff.toChain]
      exact hcol
  | opened => simp at hclosed
  | randomnessCreated => exact ⟨(hquiet rfl).trans h.pool, ⟨params, hv⟩, col, hcol, hsize⟩
  | @revealed _ r _ _ heff =>
      refine ⟨(hquiet rfl).trans h.pool, ⟨params, by rw [heff.vault, hv]⟩, col, ?_, hsize⟩
      rw [heff.toChain]
      exact hcol
  | @recommitted _ r _ _ _ _ heff =>
      -- there is no request to commit again
      obtain ⟨-, -, -, -, hlt⟩ := hx.tickets.own _ r heff.request (Or.inr ⟨_, rfl⟩)
      rw [← hx.next, h.nextSeq] at hlt
      exact absurd hlt (Nat.not_lt_zero _)
  | environment henv =>
      obtain ⟨n, hn, hcol'⟩ := henv.collection col hcol
      exact ⟨(hquiet rfl).trans h.pool, ⟨params, by rw [henv.vault, hv]⟩, _, hcol', by
        rw [hsize] at hn
        exact Nat.le_zero.mp hn⟩

/-- An untouched vault has no assets, -/
theorem absent (h : Pristine D w x) (hx : Consistent D w x) {i : ℕ} (hi : i < D.size) :
    w.assets (D.assetAddress i) = .absent := by
  obtain ⟨params, hv⟩ := h.vault
  by_contra hpresent
  have hbit := (hx.custody.minted_iff i hi).mpr hpresent
  have hcount := hx.custody.count
  rw [hv, initialVault] at hcount
  have hnone := List.countP_eq_zero.mp hcount.symm i (List.mem_range.mpr hi)
  exact hnone hbit

/-- and no requests. -/
theorem no_request (h : Pristine D w x) (hx : Consistent D w x) {k : Pubkey} {r : Request}
    (hr : w.requests k = some r) : r.vault ≠ D.vault := by
  intro hvault
  obtain ⟨-, -, -, -, hlt⟩ := hx.tickets.own k r hr (Or.inl hvault)
  rw [← hx.next, h.nextSeq] at hlt
  exact absurd hlt (Nat.not_lt_zero _)

end Pristine

theorem Created.pristine (h : Created D w) :
    Pristine D w (SequencedPool.State.initial (List.range D.size)) := by
  obtain ⟨c, params, hfresh, hinit⟩ := h.spec
  exact ⟨rfl, ⟨params, hinit.vault⟩, _, hinit.collection, rfl⟩

namespace History

/-- **A reachable vault that is closed is untouched.** -/
theorem pristine (h : History D ls w) (hclosed : w.vault.isOpen = false) :
    ∃ x, Consistent D w x ∧ Pristine D w x := by
  obtain ⟨w₀, hcreated, hrun⟩ := h
  have key := (hcreated.tracks.effects hrun).invariant
    (P := fun v => ∃ x, Consistent D v x ∧ (v.vault.isOpen = true ∨ Pristine D v x)) ?_
    ⟨_, hcreated.consistent, Or.inr hcreated.pristine⟩
  · obtain ⟨x, hx, hopen | hpristine⟩ := key
    · exact absurd (hclosed.symm.trans hopen) Bool.false_ne_true
    · exact ⟨x, hx, hpristine⟩
  · rintro s act t ⟨x, hx, hs⟩ heff
    obtain ⟨y, hrun', hy⟩ := hx.effect heff
    refine ⟨y, hy, ?_⟩
    rcases hs with hopen | hpristine
    · exact Or.inl (heff.isOpen_mono hopen)
    · cases hopen : t.vault.isOpen with
      | true => exact Or.inl rfl
      | false => exact Or.inr (hpristine.effect hx heff hopen hrun')

/-- The openings of a run are counted by whether the vault is open. -/
theorem countP_isOpenVault (h : History D ls w) :
    ls.countP Label.isOpenVault = w.vault.isOpen.toNat := by
  obtain ⟨w₀, hcreated, hrun⟩ := h
  have hclosed₀ : w₀.vault.isOpen = false := by
    obtain ⟨params, hv⟩ := hcreated.pristine.vault
    rw [hv]
    rfl
  refine hrun.history (P := fun ls v => ls.countP Label.isOpenVault = v.vault.isOpen.toNat) ?_
    (by rw [hclosed₀]; rfl)
  intro ls s l t hrun' hcount hstep
  obtain ⟨x, -, hx⟩ := hcreated.consistent.run hrun'
  rw [List.countP_append, List.countP_singleton, hcount]
  rcases hx.toSound.opening_eq hstep with ⟨hl, hsame⟩ | ⟨hl, hclosed, hopen⟩
  · have hsame' : t.vault.isOpen = s.vault.isOpen := congrArg Prod.fst hsame
    rw [hl, hsame']
    rfl
  · rw [hl, hclosed, hopen]
    rfl

/-- The economics of the launch were checked when the vault was created. -/
theorem econ (h : History D ls w) :
    ∃ e, HybridVault.econ D.launchConfig = .ok e ∧ e.ratioBase = D.ratio ∧
      e.collectionSize = D.size := by
  obtain ⟨w₀, ⟨c, creator, params, hfresh, hinit⟩, -⟩ := h
  simp only [handleInitVault, bind_eq_ok_iff] at hinit
  obtain ⟨-, -, -, -, _, -, -, -, _, -, -, -, -, -, -, -, -, -, e, hecon, -⟩ := hinit
  refine ⟨e, hecon, ?_⟩
  simp only [HybridVault.econ, bind_eq_ok_iff, require_eq_ok_iff, expect_eq_ok_iff, pure_eq_ok_iff,
    toU32_eq_some_iff] at hecon
  obtain ⟨-, -, -, -, n, ⟨-, rfl⟩, -, -, rfl⟩ := hecon
  exact ⟨rfl, rfl⟩

/-- A closed vault of a launch that has graduated is opened by anyone: it is untouched, so
all that the instruction checks of it holds. -/
theorem openVault_of_graduated (h : History D ls w) (hclosed : w.vault.isOpen = false)
    {caller : Pubkey} (hsigner : caller.IsSigner)
    (hgraduated : Graduated D.launchConfig w.accounts) :
    perform D w (.openVault caller (.raw D.launchConfig.dbcPool))
      = .ok (⟨w.toChain, { w.vault with isOpen := true, openedAtSlot := w.slot }⟩, []) := by
  obtain ⟨e, hecon, hratio, hsize⟩ := h.econ
  obtain ⟨x, hx, hpristine⟩ := h.pristine hclosed
  obtain ⟨params, hv⟩ := hpristine.vault
  obtain ⟨col, hcol, hcurrent⟩ := hpristine.collection
  obtain ⟨col', hcol', hauthority, hminted⟩ := hx.custody.numMinted
  obtain rfl := Option.some.inj (hcol.symm.trans hcol')
  have hcount : w.vault.mintedCount = 0 := by rw [hv]; rfl
  obtain ⟨t, ht, -, -, hcheck⟩ := hx.closingCheck
  simp only [perform, handleOpenVault, bind_eq_ok_iff, require_eq_ok_iff, expect_eq_ok_iff,
    pure_eq_ok_iff, vaultTokensAmount, verifyDbc_eq_ok_iff]
  refine ⟨(), hsigner, t.amount, ⟨t, ht, rfl⟩, e, hecon, (), hclosed, col, hcol, (), hauthority,
    (), ⟨hminted, by rw [hcurrent, hcount]⟩, (), ⟨trivial, hgraduated⟩, ⟨w.pool, D.size⟩,
    hx.pool.load_eq, (), hsize.symm, (), ?_, trivial⟩
  rw [hratio, hsize]
  refine hx.pool.invariantsCheck_eq_ok_iff.mpr ?_
  exact ⟨hcheck.units_lt, hcheck.tokens_lt, hcheck.solvent, hcheck.accounted, hcheck.minted_le,
    hcheck.held_le⟩

end History

/-! ## The results -/

set_option maxRecDepth 20000 in
/-- The small vault, before it is opened and by opening it. -/
theorem smallClosed_returns :
    returns (smallRun smallRoot []) (fun r₀ => !r₀.1.vault.isOpen &&
      returns (perform smallVault r₀.1 (.openVault smallUser (.raw smallLaunch.dbcPool))) fun r₁ =>
        r₁.1.vault.isOpen && decide (r₁.2 = [])) = true := by
  decide +kernel

theorem exists_smallClosed :
    ∃ ls w w', History smallVault ls w ∧ w.vault.isOpen = false ∧
      perform smallVault w (.openVault smallUser (.raw smallLaunch.dbcPool)) = .ok (w', []) ∧
      w'.vault.isOpen = true := by
  obtain ⟨⟨w, ls⟩, hrun, h⟩ := exists_of_returns smallClosed_returns
  simp only [Bool.and_eq_true, Bool.not_eq_true'] at h
  obtain ⟨hclosed, h⟩ := h
  obtain ⟨⟨w', es⟩, hopen, h⟩ := exists_of_returns h
  simp only [Bool.and_eq_true, decide_eq_true_eq] at h
  obtain ⟨hopened, rfl⟩ := h
  exact ⟨ls, w, w', smallRun_history hrun, hclosed, hopen, hopened⟩

/-- **Opening is never blocked, and never early.**  In every reachable state `open_vault`
succeeds exactly if the vault is closed and the pool that the launch recorded, which is the
proof to hand in, has graduated. -/
theorem opens_iff_graduated (h : History D ls w) (caller proof : Pubkey) :
    (∃ r, perform D w (.openVault caller proof) = .ok r) ↔
      w.vault.isOpen = false ∧ caller.IsSigner ∧ proof = .raw D.launchConfig.dbcPool ∧
        Graduated D.launchConfig w.accounts := by
  constructor
  · rintro ⟨r, hperform⟩
    exact ⟨(handleOpenVault_eq_ok hperform).1, verified_of_handleOpenVault hperform⟩
  · rintro ⟨hclosed, hsigner, rfl, hgraduated⟩
    exact ⟨_, h.openVault_of_graduated hclosed hsigner hgraduated⟩

theorem opens_iff_graduated_small :
    ∃ ls w, History smallVault ls w ∧ Graduated smallLaunch w.accounts ∧ (∃ r, perform smallVault w
      (.openVault (.raw smallLaunch.creator) (.raw smallLaunch.dbcPool)) = .ok r) := by
  obtain ⟨ls, w, w', h, hclosed, hopen, -⟩ := exists_smallClosed
  obtain ⟨-, -, -, hgraduated⟩ := (opens_iff_graduated h _ _).mp ⟨_, hopen⟩
  exact ⟨ls, w, h, hgraduated, (opens_iff_graduated h _ _).mpr ⟨hclosed, trivial, rfl, hgraduated⟩⟩

end HybridVault
