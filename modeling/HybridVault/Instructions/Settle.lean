import HybridVault.Instructions.Request
import HybridVault.Selection

/-!
# Settling

`settle_capture` and `settle_reroll`: merge what may be drawn, pick, and give the
picked asset to the user, minting it if it never was.  Anyone may settle, only the
head of the queue can be settled, and only with the value its reveal recorded.

The observation a settle leaves is the list it drew from and what it picked.
-/

namespace HybridVault

open Foundations

/-- `MAX_MERGE_PER_IX`. -/
def maxMergePerIx : ℕ := 32

/-- After the merge, everything left in the ring must be for later requests. -/
def checkBacklog (p : PoolView) (seq : ℕ) : Res Unit := do
  match ← p.incomingFrontTag with
  | some t => check (seq < t) .MergeBacklog
  | none => return ()

/-- A re-roll's hand-in becomes drawable, for later requests. -/
def returnHandIn (p : PoolView) (handIn : Option ℕ) : Res PoolView :=
  match handIn with
  | some i => p.poolPush i
  | none => return p

/-- The selection block of `handle_settle`: the list drawn from, the index picked,
and the pool after. -/
def selectAsset (D : Deployment) (p : PoolView) (req : Request) :
    Res (List ℕ × ℕ × PoolView) := do
  let (_, p) ← p.merge req.seq maxMergePerIx
  checkBacklog p req.seq
  let n ← p.poolLen
  check (0 < n) .NoAssetAvailable
  let pos ← uniformBelow D (requestRandomness D req.value req.seq) n
  let (picked, after) ← p.poolSwapRemove pos
  let after ← returnHandIn after req.handIn
  return (drawableOf p.d, picked, after)

/-- Deliver the picked asset, or mint it. -/
def giveAsset (D : Deployment) (c : Chain) (v : Vault) (collectionSize seq picked : ℕ)
    (asset user : Pubkey) (mint : Option MintArgs) : Res (Chain × Vault) := do
  let p ← loadPool D c
  let alreadyMinted ← p.isMinted picked
  if alreadyMinted then do
    let c ← deliver D c asset user
    return (c, v)
  else do
    let m ← expect mint (.vault .MintArgsMissing)
    checkLeaf D v.traitRoot v.traitSchemaHash collectionSize picked m.leaf m.proof
    let c ← mintToUser D c asset (D.mintEscrowAddress seq) user picked (assetName picked) m.leaf.uri
    let p ← loadPool D c
    let p ← p.markMinted picked
    let mintedCount ← expect (checkedAdd32 v.mintedCount 1) (.vault .MathOverflow)
    return (c.setPool p.d, { v with mintedCount := mintedCount })

/-- The counters after a settle. -/
def settleCounters (v : Vault) (kind : RequestKind) (seq : ℕ) : Res Vault := do
  let nextSettleSeq ← expect (checkedAdd seq 1) (.vault .MathOverflow)
  let assetsOutside ← expect (checkedAdd v.assetsOutside 1) (.vault .MathOverflow)
  let v := { v with nextSettleSeq := nextSettleSeq, assetsOutside := assetsOutside }
  match kind with
  | .capture => do
      let pendingCaptures ← expect (checkedSub v.pendingCaptures 1) (.vault .MathOverflow)
      let totalCaptures ← expect (checkedAdd v.totalCaptures 1) (.vault .MathOverflow)
      return { v with pendingCaptures := pendingCaptures, totalCaptures := totalCaptures }
  | .reroll => do
      let pendingRerolls ← expect (checkedSub v.pendingRerolls 1) (.vault .MathOverflow)
      let totalRerolls ← expect (checkedAdd v.totalRerolls 1) (.vault .MathOverflow)
      return { v with pendingRerolls := pendingRerolls, totalRerolls := totalRerolls }

/-- Close a request and its lock to the user. -/
def closeRequest (c : Chain) (request lock user : Pubkey) : Chain :=
  let c := closeAccount (c.setRequests (Function.update c.requests request none)) request user
  closeAccount (c.setRandLocks (Function.update c.randLocks lock none)) lock user

/-- `settle_capture` and `settle_reroll`, whatever the account of the launch
configuration holds. -/
def handleSettleWith (D : Deployment) (launchConfig : RawAccount) (w : World)
    (settler request randomness asset user : Pubkey) (expectedKind : RequestKind)
    (mint : Option MintArgs) : Res (World × List PoolEvent) := do
  constraint settler.IsSigner .NotSigner
  let req ← loadRequest D w.toChain request randomness
  constraint (req.user = user) .ConstraintHasOne
  let lock ← loadRandLock w.toChain randomness
  let _ ← vaultTokensAmount D w.toChain
  check (req.kind = expectedKind) .WrongRequestKind
  check (req.seq = w.vault.nextSettleSeq) .OutOfOrder
  check (lock.seq = req.seq ∧ lock.vault = D.vault) .RandomnessMismatch
  check (req.revealed = true) .RandomnessNotRevealed
  let e ← exitView launchConfig
  let p ← loadPool D w.toChain
  let (candidates, picked, p) ← selectAsset D p req
  let c := w.toChain.setPool p.d
  check (asset = D.assetAddress picked) .WrongAsset
  let (c, v) ← giveAsset D c w.vault e.collectionSize req.seq picked asset user mint
  let c ← refundEscrow c (D.mintEscrowAddress req.seq) user
  let v ← settleCounters v expectedKind req.seq
  closingCheck D c v e.ratioBase e.collectionSize
  return ({ toChain := closeRequest c request (.randLock randomness) user, vault := v },
    [.settled req.seq req.value candidates picked])

/-- `settle_capture` and `settle_reroll`. -/
def handleSettle (D : Deployment) (w : World) (settler request randomness asset user : Pubkey)
    (expectedKind : RequestKind) (mint : Option MintArgs) : Res (World × List PoolEvent) :=
  handleSettleWith D D.launchConfigAccount w settler request randomness asset user expectedKind mint

/-! ## Selection -/

variable {D : Deployment}

/-- The indices a request may draw, when its turn comes. -/
def candidatesOf (cap : ℕ) (d : Bytes) (seq : ℕ) : List ℕ :=
  drawableOf d ++ ((incomingOf cap d).takeWhile fun e => e.2 ≤ seq).map Prod.fst

section Selection

variable {cap : ℕ} {d : Bytes} {req : Request}

theorem WellFormed.checkBacklog_eq_ok_iff (h : WellFormed D.vaultKey cap d) {seq : ℕ} {u : Unit} :
    checkBacklog ⟨d, cap⟩ seq = .ok u ↔
      ((incomingOf cap d).takeWhile fun e => e.2 ≤ seq) = [] := by
  simp only [checkBacklog, bind_eq_ok_iff, h.incomingFrontTag_eq, Except.ok.injEq,
    exists_eq_left']
  cases hinc : incomingOf cap d with
  | nil => simp
  | cons e rest => simp

/-- What a returned hand-in needs and does. -/
theorem WellFormed.returnHandIn_spec (h : WellFormed D.vaultKey cap d) {o : Option ℕ}
    (ho : ∀ i ∈ o, i < cap) (hroom : (drawableOf d).length + (incomingOf cap d).length < cap) :
    ∃ d', returnHandIn ⟨d, cap⟩ o = .ok ⟨d', cap⟩ ∧ WellFormed D.vaultKey cap d' ∧
      poolAbs cap d' = { poolAbs cap d with drawable := drawableOf d ++ o.toList } := by
  cases o with
  | none => exact ⟨d, rfl, h, by simp [poolAbs]⟩
  | some i => exact h.poolPush_spec (ho i rfl) hroom

theorem returnHandIn_lt {p p' : PoolView} {o : Option ℕ} (h : returnHandIn p o = .ok p') :
    ∀ i ∈ o, i < p.cap := by
  rintro i rfl
  simp only [returnHandIn, PoolView.poolPush, bind_eq_ok_iff, require_eq_ok_iff] at h
  obtain ⟨_, -, -, -, -, hi, -⟩ := h
  exact hi

/-- **Selection**, where the backlog fits one merge and the hand-in fits the
collection. -/
theorem WellFormed.selectAsset_spec (h : WellFormed D.vaultKey cap d) {pos : ℕ}
    (hready : ((incomingOf cap d).takeWhile fun e => e.2 ≤ req.seq).length ≤ maxMergePerIx)
    (hpos : uniformBelow D (requestRandomness D req.value req.seq)
      (candidatesOf cap d req.seq).length = .ok pos)
    (hhand : ∀ i ∈ req.handIn, i < cap) :
    ∃ picked d', selectAsset D ⟨d, cap⟩ req
        = .ok (candidatesOf cap d req.seq, picked, ⟨d', cap⟩) ∧
      (candidatesOf cap d req.seq)[pos]? = some picked ∧ WellFormed D.vaultKey cap d' ∧
      poolAbs cap d' = { poolAbs cap d with
        drawable := swapRemove (candidatesOf cap d req.seq) pos ++ req.handIn.toList
        incoming := (incomingOf cap d).dropWhile fun e => e.2 ≤ req.seq } := by
  have hlt := uniformBelow_lt hpos
  obtain ⟨k, d₁, hmerge, hwf₁, hk, habs₁⟩ := h.merge_spec req.seq maxMergePerIx
  obtain rfl : k = ((incomingOf cap d).takeWhile fun e => e.2 ≤ req.seq).length := by omega
  have hdrawable₁ : drawableOf d₁ = candidatesOf cap d req.seq := by
    have := congrArg PoolAbs.drawable habs₁
    rwa [take_length_takeWhile] at this
  have hincoming₁ : incomingOf cap d₁ = (incomingOf cap d).dropWhile fun e => e.2 ≤ req.seq := by
    have := congrArg PoolAbs.incoming habs₁
    rwa [drop_length_takeWhile] at this
  have hminted₁ : mintedOf cap d₁ = mintedOf cap d := congrArg PoolAbs.minted habs₁
  have hbacklog : checkBacklog ⟨d₁, cap⟩ req.seq = .ok () := by
    rw [hwf₁.checkBacklog_eq_ok_iff, hincoming₁, ← drop_length_takeWhile, takeWhile_drop le_rfl,
      List.drop_length]
  have hlen : readLE d₁ 44 4 = (candidatesOf cap d req.seq).length := by
    rw [← hdrawable₁, length_drawableOf]
  have hlt₁ : pos < (drawableOf d₁).length := by rwa [hdrawable₁]
  obtain ⟨d₂, hremove, hwf₂, habs₂⟩ := hwf₁.poolSwapRemove_spec hlt₁
  have hpicked : (candidatesOf cap d req.seq)[pos]? = some (drawableOf d₁)[pos] := by
    rw [← hdrawable₁, List.getElem?_eq_getElem hlt₁]
  have hroom : (drawableOf d₂).length + (incomingOf cap d₂).length < cap := by
    have hdr := congrArg (fun P => P.drawable.length) habs₂
    have hin := congrArg (fun P => P.incoming.length) habs₂
    have hle := hwf₁.valid.room
    simp only [poolAbs, hdrawable₁, length_swapRemove] at hdr hin hle
    omega
  obtain ⟨d₃, hpush, hwf₃, habs₃⟩ := hwf₂.returnHandIn_spec hhand hroom
  refine ⟨_, d₃, ?_, hpicked, hwf₃, ?_⟩
  · simp only [selectAsset, bind_eq_ok_iff, require_eq_ok_iff, pure_eq_ok_iff]
    refine ⟨_, hmerge, _, hbacklog, _, hwf₁.poolLen_eq, (), by rw [hlen]; omega, pos,
      by rw [hlen, hpos], _, hremove, _, hpush, ?_⟩
    exact congrArg (fun l => (l, (drawableOf d₁)[pos], PoolView.mk d₃ cap)) hdrawable₁
  · have hdr : drawableOf d₂ = swapRemove (candidatesOf cap d req.seq) pos := by
      rw [← hdrawable₁]
      exact congrArg PoolAbs.drawable habs₂
    rw [habs₃, habs₂, hdr]
    simp only [poolAbs, hincoming₁, hminted₁]

/-- A merge that the backlog check passes has moved all that may be drawn. -/
theorem WellFormed.of_checkBacklog {d₁ : Bytes} (hwf₁ : WellFormed D.vaultKey cap d₁) {k : ℕ}
    {u : Unit}
    (hk : k = min maxMergePerIx ((incomingOf cap d).takeWhile fun e => e.2 ≤ req.seq).length)
    (habs₁ : poolAbs cap d₁ = { poolAbs cap d with
      drawable := drawableOf d ++ ((incomingOf cap d).take k).map Prod.fst
      incoming := (incomingOf cap d).drop k })
    (hbacklog : checkBacklog ⟨d₁, cap⟩ req.seq = .ok u) :
    ((incomingOf cap d).takeWhile fun e => e.2 ≤ req.seq).length ≤ maxMergePerIx ∧
      drawableOf d₁ = candidatesOf cap d req.seq := by
  have hready : ((incomingOf cap d).takeWhile fun e => e.2 ≤ req.seq).length ≤ maxMergePerIx := by
    have hnil := hwf₁.checkBacklog_eq_ok_iff.mp hbacklog
    rw [show incomingOf cap d₁ = (incomingOf cap d).drop k from congrArg PoolAbs.incoming habs₁,
      takeWhile_drop (by omega), List.drop_eq_nil_iff] at hnil
    omega
  obtain rfl : k = ((incomingOf cap d).takeWhile fun e => e.2 ≤ req.seq).length := by omega
  have hdrawable := congrArg PoolAbs.drawable habs₁
  exact ⟨hready, by rwa [take_length_takeWhile] at hdrawable⟩

/-- What a selection that returned has checked. -/
theorem WellFormed.selectAsset_eq_ok (h : WellFormed D.vaultKey cap d)
    {r : List ℕ × ℕ × PoolView} (hsel : selectAsset D ⟨d, cap⟩ req = .ok r) :
    ((incomingOf cap d).takeWhile fun e => e.2 ≤ req.seq).length ≤ maxMergePerIx ∧
      (∀ i ∈ req.handIn, i < cap) ∧
      ∃ pos, uniformBelow D (requestRandomness D req.value req.seq)
        (candidatesOf cap d req.seq).length = .ok pos := by
  obtain ⟨k, d₁, hmerge, hwf₁, hk, habs₁⟩ := h.merge_spec req.seq maxMergePerIx
  simp only [selectAsset, hmerge, bind_eq_ok_iff, require_eq_ok_iff, pure_eq_ok_iff,
    Except.ok.injEq, exists_eq_left', hwf₁.poolLen_eq] at hsel
  obtain ⟨_, hbacklog, -, -, pos, hpos, ⟨picked, p₂⟩, hremove, p₃, hpush, -⟩ := hsel
  obtain ⟨hready, hdrawable₁⟩ := hwf₁.of_checkBacklog hk habs₁ hbacklog
  refine ⟨hready, ?_, pos, by rw [← hpos, ← hdrawable₁, length_drawableOf]⟩
  obtain ⟨d₂, hremove', -⟩ := hwf₁.poolSwapRemove_spec (i := pos) (by
    rw [length_drawableOf]
    exact uniformBelow_lt hpos)
  obtain ⟨-, rfl⟩ := Prod.mk.inj (Except.ok.inj (hremove.symm.trans hremove'))
  exact returnHandIn_lt hpush

/-- What a selection that returned has done. -/
theorem WellFormed.selectAsset_result (h : WellFormed D.vaultKey cap d) {candidates : List ℕ}
    {picked : ℕ} {p : PoolView} (hsel : selectAsset D ⟨d, cap⟩ req = .ok (candidates, picked, p)) :
    candidates = candidatesOf cap d req.seq ∧ ∃ pos d', p = ⟨d', cap⟩ ∧
      uniformBelow D (requestRandomness D req.value req.seq)
        (candidatesOf cap d req.seq).length = .ok pos ∧
      (candidatesOf cap d req.seq)[pos]? = some picked ∧ WellFormed D.vaultKey cap d' ∧
      poolAbs cap d' = { poolAbs cap d with
        drawable := swapRemove (candidatesOf cap d req.seq) pos ++ req.handIn.toList
        incoming := (incomingOf cap d).dropWhile fun e => e.2 ≤ req.seq } := by
  obtain ⟨hready, hhand, pos, hpos⟩ := h.selectAsset_eq_ok hsel
  obtain ⟨picked', d', hsel', hpick, hwf', habs⟩ := h.selectAsset_spec hready hpos hhand
  obtain ⟨rfl, hrest⟩ := Prod.mk.inj (Except.ok.inj (hsel.symm.trans hsel'))
  obtain ⟨rfl, rfl⟩ := Prod.mk.inj hrest
  exact ⟨rfl, pos, d', rfl, hpos, hpick, hwf', habs⟩

theorem WellFormed.candidatesOf_lt (h : WellFormed D.vaultKey cap d) {seq : ℕ} :
    ∀ i ∈ candidatesOf cap d seq, i < cap := by
  intro i hi
  rcases List.mem_append.mp hi with hi | hi
  · exact h.valid.drawable_lt i hi
  · obtain ⟨e, he, rfl⟩ := List.mem_map.mp hi
    exact h.valid.incoming_lt e ((List.takeWhile_sublist _).subset he)

end Selection

/-! ## Handing over -/

/-- **How the picked asset reaches the user**: one that exists is transferred, one
that does not is minted from its committed leaf. -/
inductive Handover (D : Deployment) (c : Chain) (v : Vault) (seq picked : ℕ) (user : Pubkey)
    (mint : Option MintArgs) : Chain → Vault → Prop
  | delivered {a : BaseAsset} (hbit : mintedOf D.size c.pool picked = true)
      (ha : c.assets (D.assetAddress picked) = .live a) (howner : a.owner = D.vaultAuthority)
      (hcol : a.updateAuthority = .collection D.collection) :
      Handover D c v seq picked user mint
        (c.setAssets (Function.update c.assets (D.assetAddress picked)
          (.live { a with owner := user }))) v
  | minted {m : MintArgs} {col : BaseCollection} {d : Bytes}
      (hbit : mintedOf D.size c.pool picked = false) (hm : mint = some m)
      (hleaf : checkLeaf D v.traitRoot v.traitSchemaHash D.size picked m.leaf m.proof = .ok ())
      (hneed : mintNeed D ≤ c.lamports (D.mintEscrowAddress seq))
      (hasset : c.Dataless (D.assetAddress picked))
      (hescrow : c.Dataless (D.mintEscrowAddress seq))
      (hcost : D.coreCreateCost (assetName picked) m.leaf.uri
        ≤ c.lamports (D.mintEscrowAddress seq) + c.lamports (D.assetAddress picked))
      (hcol : c.collection = some col) (hauth : col.updateAuthority = D.vaultAuthority)
      (hmark : PoolView.markMinted ⟨c.pool, D.size⟩ picked = .ok ⟨d, D.size⟩)
      (hcount : v.mintedCount + 1 < u32Size) :
      Handover D c v seq picked user mint
        ((HybridVault.minted D c col (D.assetAddress picked) (D.mintEscrowAddress seq) user
          (assetName picked) m.leaf.uri).setPool d)
        { v with mintedCount := v.mintedCount + 1 }

theorem WellFormed.giveAsset_eq_ok_iff {c c' : Chain} {v v' : Vault} {seq picked : ℕ}
    {user : Pubkey} {mint : Option MintArgs} (h : WellFormed D.vaultKey D.size c.pool)
    (hp : picked < D.size) :
    giveAsset D c v D.size seq picked (D.assetAddress picked) user mint = .ok (c', v') ↔
      Handover D c v seq picked user mint c' v' := by
  have hne : D.assetAddress picked ≠ D.mintEscrowAddress seq := by
    simp [Deployment.assetAddress, Deployment.mintEscrowAddress]
  cases hbit : mintedOf D.size c.pool picked with
  | true =>
      simp only [giveAsset, loadPool, h.load_eq, h.isMinted_eq, hbit, ok_bind, if_true,
        bind_eq_ok_iff, deliver_eq_ok_iff, pure_eq_ok_iff, Prod.mk.injEq]
      constructor
      · rintro ⟨_, ⟨a, ha, howner, hcol, rfl⟩, rfl, rfl⟩
        exact .delivered hbit ha howner hcol
      · intro hgive
        cases hgive with
        | delivered _ ha howner hcol => exact ⟨_, ⟨_, ha, howner, hcol, rfl⟩, rfl, rfl⟩
        | minted hbit' => simp [hbit] at hbit'
  | false =>
      obtain ⟨d', hmark, -, -⟩ := h.markMinted_spec hp hbit
      simp only [giveAsset, loadPool, h.load_eq, h.isMinted_eq, hbit, ok_bind,
        Bool.false_eq_true, if_false, bind_eq_ok_iff, expect_eq_ok_iff, mintToUser_eq_ok_iff hne,
        pure_eq_ok_iff, Prod.mk.injEq, checkedAdd32_eq_some_iff]
      constructor
      · rintro ⟨m, hm, _, hleaf, _, ⟨-, hneed, hasset, hescrow, hcost, col, hcol, hauth, rfl⟩,
          p, hp', q, hq, _, ⟨hcount, rfl⟩, rfl, rfl⟩
        obtain rfl : (⟨c.pool, D.size⟩ : PoolView) = p := by
          simpa [HybridVault.minted, h.load_eq] using hp'
        obtain rfl : (⟨d', D.size⟩ : PoolView) = q := by simpa [hmark] using hq
        exact .minted hbit hm hleaf hneed hasset hescrow hcost hcol hauth hmark hcount
      · intro hgive
        cases hgive with
        | delivered hbit' => simp [hbit] at hbit'
        | minted _ hm hleaf hneed hasset hescrow hcost hcol hauth hmark' hcount =>
            refine ⟨_, hm, (), hleaf, _,
              ⟨trivial, hneed, hasset, hescrow, hcost, _, hcol, hauth, rfl⟩, _, ?_, _, hmark', _,
              ⟨hcount, rfl⟩, rfl, rfl⟩
            simpa [HybridVault.minted] using h.load_eq

/-! ## The effect of a settle -/

/-- The vault record after a settle of `kind`. -/
def Vault.settled (v : Vault) (kind : RequestKind) : Vault :=
  match kind with
  | .capture => { v with
      nextSettleSeq := v.nextSettleSeq + 1
      assetsOutside := v.assetsOutside + 1
      pendingCaptures := v.pendingCaptures - 1
      totalCaptures := v.totalCaptures + 1 }
  | .reroll => { v with
      nextSettleSeq := v.nextSettleSeq + 1
      assetsOutside := v.assetsOutside + 1
      pendingRerolls := v.pendingRerolls - 1
      totalRerolls := v.totalRerolls + 1 }

@[simp] theorem Vault.settled_nextSeq (v : Vault) (kind : RequestKind) :
    (v.settled kind).nextSeq = v.nextSeq := by
  cases kind <;> rfl

@[simp] theorem Vault.settled_nextSettleSeq (v : Vault) (kind : RequestKind) :
    (v.settled kind).nextSettleSeq = v.nextSettleSeq + 1 := by
  cases kind <;> rfl

/-- The number of pending requests of a kind. -/
def Vault.pending (v : Vault) : RequestKind → ℕ
  | .capture => v.pendingCaptures
  | .reroll => v.pendingRerolls

/-- The number of settled requests of a kind. -/
def Vault.total (v : Vault) : RequestKind → ℕ
  | .capture => v.totalCaptures
  | .reroll => v.totalRerolls

/-- The counters a settle moves have room. -/
structure SettleCounters (v : Vault) (kind : RequestKind) : Prop where
  nextSettleSeq_lt : v.nextSettleSeq + 1 < u64Size
  assetsOutside_lt : v.assetsOutside + 1 < u64Size
  pending_pos : 1 ≤ v.pending kind
  total_lt : v.total kind + 1 < u64Size

theorem settleCounters_eq_ok_iff {v v' : Vault} {kind : RequestKind} {seq : ℕ}
    (hseq : seq = v.nextSettleSeq) :
    settleCounters v kind seq = .ok v' ↔ SettleCounters v kind ∧ v.settled kind = v' := by
  subst hseq
  cases kind with
  | capture =>
      simp only [settleCounters, bind_eq_ok_iff, expect_eq_ok_iff, checkedAdd_eq_some_iff,
        checkedSub_eq_some_iff, pure_eq_ok_iff]
      constructor
      · rintro ⟨_, ⟨hnext, rfl⟩, _, ⟨hout, rfl⟩, _, ⟨hpend, rfl⟩, _, ⟨htotal, rfl⟩, rfl⟩
        exact ⟨⟨hnext, hout, hpend, htotal⟩, rfl⟩
      · rintro ⟨⟨hnext, hout, hpend, htotal⟩, rfl⟩
        exact ⟨_, ⟨hnext, rfl⟩, _, ⟨hout, rfl⟩, _, ⟨hpend, rfl⟩, _, ⟨htotal, rfl⟩, rfl⟩
  | reroll =>
      simp only [settleCounters, bind_eq_ok_iff, expect_eq_ok_iff, checkedAdd_eq_some_iff,
        checkedSub_eq_some_iff, pure_eq_ok_iff]
      constructor
      · rintro ⟨_, ⟨hnext, rfl⟩, _, ⟨hout, rfl⟩, _, ⟨hpend, rfl⟩, _, ⟨htotal, rfl⟩, rfl⟩
        exact ⟨⟨hnext, hout, hpend, htotal⟩, rfl⟩
      · rintro ⟨⟨hnext, hout, hpend, htotal⟩, rfl⟩
        exact ⟨_, ⟨hnext, rfl⟩, _, ⟨hout, rfl⟩, _, ⟨hpend, rfl⟩, _, ⟨htotal, rfl⟩, rfl⟩

/-- **What a settle requires and does.**  `r` is the request, `d` the pool after the
selection; `c` and `v` are the chain and the vault record after the handover. -/
structure SettleEffect (D : Deployment) (w w' : World) (r : Request) (mint : Option MintArgs)
    (candidates : List ℕ) (picked : ℕ) (d : Bytes) (c : Chain) (v : Vault) : Prop where
  request : w.requests (D.requestAddress r.seq) = some r
  request_vault : r.vault = D.vault
  lock : w.randLocks (.randLock r.randomness) = some { vault := D.vault, seq := r.seq }
  seq : r.seq = w.vault.nextSettleSeq
  revealed : r.revealed = true
  economics : 0 < D.ratio ∧ 0 < D.size ∧ D.size < u32Size
  selected : selectAsset D ⟨w.pool, D.size⟩ r = .ok (candidates, picked, ⟨d, D.size⟩)
  handover : Handover D (w.toChain.setPool d) w.vault r.seq picked r.user mint c v
  refund : c.lamports (D.mintEscrowAddress r.seq) = 0 ∨ c.Dataless (D.mintEscrowAddress r.seq)
  counters : SettleCounters v r.kind
  closing : ∃ t, w.tokens D.vaultTokens = some t ∧
    ClosingCheck (v.settled r.kind) D.ratio D.size c.pool t.amount
  vault : w'.vault = v.settled r.kind
  toChain : w'.toChain = closeRequest (c.setLamports (moveAmount c.lamports
    (D.mintEscrowAddress r.seq) r.user (c.lamports (D.mintEscrowAddress r.seq))))
      (D.requestAddress r.seq) (.randLock r.randomness) r.user

/-- A handover moves no tokens, keeps the pool well formed, and counts what it
mints. -/
theorem Handover.spec {c c' : Chain} {v v' : Vault} {seq picked : ℕ} {user : Pubkey}
    {mint : Option MintArgs} (h : Handover D c v seq picked user mint c' v')
    (hwf : WellFormed D.vaultKey D.size c.pool) (hp : picked < D.size) :
    WellFormed D.vaultKey D.size c'.pool ∧ c'.tokens = c.tokens ∧
      v' = { v with mintedCount := v'.mintedCount } ∧
      poolAbs D.size c'.pool = { poolAbs D.size c.pool with
        minted := fun j => mintedOf D.size c.pool j || decide (j = picked) } := by
  cases h with
  | delivered hbit =>
      refine ⟨hwf, rfl, rfl, ?_⟩
      simp only [Chain.setAssets_pool, poolAbs, PoolAbs.mk.injEq, true_and]
      funext j
      by_cases hj : j = picked <;> simp [hj, hbit]
  | minted hbit _ _ _ _ _ _ _ _ hmark =>
      obtain ⟨d, hmark', hwf', habs⟩ := hwf.markMinted_spec hp hbit
      obtain ⟨rfl, -⟩ := PoolView.mk.inj (Except.ok.inj (hmark.symm.trans hmark'))
      exact ⟨hwf', rfl, rfl, habs⟩

/-- What a handover counts. -/
theorem Handover.counts {c c' : Chain} {v v' : Vault} {seq picked : ℕ} {user : Pubkey}
    {mint : Option MintArgs} (h : Handover D c v seq picked user mint c' v') :
    (mintedOf D.size c.pool picked = true ∧ v' = v) ∨
      (mintedOf D.size c.pool picked = false ∧
        v' = { v with mintedCount := v.mintedCount + 1 }) := by
  cases h with
  | delivered hbit => exact Or.inl ⟨hbit, rfl⟩
  | minted hbit => exact Or.inr ⟨hbit, rfl⟩

/-- **A settle by a handler**: of the request its accounts name, with the asset it picked. -/
theorem handleSettle_eq_ok {w : World} (hwf : WellFormed D.vaultKey D.size w.pool)
    {settler request randomness asset user : Pubkey} {kind : RequestKind} {mint : Option MintArgs}
    {res : World × List PoolEvent}
    (h : handleSettle D w settler request randomness asset user kind mint = .ok res) :
    ∃ r candidates picked d c v, res.2 = [.settled r.seq r.value candidates picked] ∧
      r.kind = kind ∧ (request = D.requestAddress r.seq ∧ randomness = r.randomness ∧
        asset = D.assetAddress picked ∧ user = r.user) ∧
      SettleEffect D w res.1 r mint candidates picked d c v := by
  simp only [handleSettle, handleSettleWith, exitView_launchConfigAccount, bind_eq_ok_iff,
    require_eq_ok_iff, pure_eq_ok_iff, loadRequest_eq_ok_iff, loadRandLock_eq_ok_iff,
    vaultTokensAmount, expect_eq_ok_iff] at h
  obtain ⟨-, -, r, ⟨hreq, rfl, hvault, rfl⟩, -, rfl, lock, hlock, -, -, -, rfl, -, hseq, -,
    ⟨hlockseq, hlockvault⟩, -, hrevealed, e, hview, p, hload, ⟨candidates, picked, p'⟩, hsel, -,
    rfl, ⟨c, v⟩, hgive, c', hrefund, v', hcounters, _, hclosing, rfl⟩ := h
  obtain rfl := LaunchConfig.exitViewIn_eq_ok hview
  obtain rfl : (⟨w.pool, D.size⟩ : PoolView) = p := by
    simpa [loadPool, hwf.load_eq] using hload
  obtain ⟨-, pos, d, rfl, -, hpick, hwf', -⟩ := hwf.selectAsset_result hsel
  have hp : picked < D.size := hwf.candidatesOf_lt _ (List.mem_of_getElem? hpick)
  have hhand := (WellFormed.giveAsset_eq_ok_iff (c := w.toChain.setPool d) hwf' hp).mp hgive
  obtain ⟨hwfc, htokens, hv, -⟩ := hhand.spec hwf' hp
  have hnext : r.seq = v.nextSettleSeq := by rw [hv]; exact hseq
  obtain ⟨hcount, rfl⟩ := (settleCounters_eq_ok_iff hnext).mp hcounters
  obtain ⟨hback, rfl⟩ := drainPrefundedPda_eq_ok_iff.mp hrefund
  obtain ⟨t, ht, hcheck⟩ := hwfc.closingCheck_eq_ok hclosing rfl
  refine ⟨r, candidates, picked, d, c, v, rfl, rfl, ⟨rfl, rfl, rfl, rfl⟩, ?_⟩
  exact {
    request := hreq
    request_vault := hvault
    lock := by rw [hlock, ← hlockseq, ← hlockvault]
    seq := hseq
    revealed := hrevealed
    economics := LaunchConfig.exitViewIn_economics hview
    selected := hsel
    handover := hhand
    refund := hback
    counters := hcount
    closing := ⟨t, by simpa [htokens] using ht, hcheck⟩
    vault := rfl
    toChain := rfl }

/-- **A settle that has what it requires returns.** -/
theorem SettleEffect.handleSettle_eq {w w' : World} {r : Request} {mint : Option MintArgs}
    {candidates : List ℕ} {picked : ℕ} {d : Bytes} {c : Chain} {v : Vault}
    (h : SettleEffect D w w' r mint candidates picked d c v)
    (hwf : WellFormed D.vaultKey D.size w.pool) {settler : Pubkey} (hsettler : settler.IsSigner) :
    handleSettle D w settler (D.requestAddress r.seq) r.randomness (D.assetAddress picked) r.user
      r.kind mint = .ok (w', [.settled r.seq r.value candidates picked]) := by
  obtain ⟨-, pos, d', hd, -, hpick, hwf', -⟩ := hwf.selectAsset_result h.selected
  obtain ⟨rfl, -⟩ := PoolView.mk.inj hd
  have hp : picked < D.size := hwf.candidatesOf_lt _ (List.mem_of_getElem? hpick)
  obtain ⟨hwfc, htokens, hv, -⟩ := h.handover.spec hwf' hp
  have hnext : r.seq = v.nextSettleSeq := by rw [hv]; exact h.seq
  obtain ⟨t, ht, hcheck⟩ := h.closing
  simp only [handleSettle, handleSettleWith, exitView_launchConfigAccount, bind_eq_ok_iff,
    require_eq_ok_iff, pure_eq_ok_iff, loadRequest_eq_ok_iff, loadRandLock_eq_ok_iff,
    vaultTokensAmount, expect_eq_ok_iff]
  refine ⟨(), hsettler, r, ⟨h.request, rfl, h.request_vault, rfl⟩, (), rfl, _, h.lock, t.amount,
    ⟨t, ht, rfl⟩, (), rfl, (), h.seq, (), ⟨rfl, rfl⟩, (), h.revealed, ⟨D.ratio, D.size⟩,
    LaunchConfig.exitViewIn_accountData h.economics.1 h.economics.2.1 h.economics.2.2, _,
    hwf.load_eq, _, h.selected, (), rfl, _,
    (WellFormed.giveAsset_eq_ok_iff (c := w.toChain.setPool d) hwf' hp).mpr h.handover, _,
    drainPrefundedPda_eq_ok_iff.mpr ⟨h.refund, rfl⟩, _,
    (settleCounters_eq_ok_iff hnext).mpr ⟨h.counters, rfl⟩, (),
    hwfc.closingCheck_ok rfl (by simpa [htokens] using ht) hcheck, ?_⟩
  rw [← h.toChain, ← h.vault]

/-! ## What a settle changes -/

/-- Closing a request removes the two accounts and moves lamports. -/
theorem closeRequest_frame (c : Chain) (request lock user : Pubkey) :
    (closeRequest c request lock user).slot = c.slot ∧
      (closeRequest c request lock user).tokens = c.tokens ∧
      (closeRequest c request lock user).randomness = c.randomness ∧
      (closeRequest c request lock user).accounts = c.accounts ∧
      (closeRequest c request lock user).collection = c.collection ∧
      (closeRequest c request lock user).requests = Function.update c.requests request none ∧
      (closeRequest c request lock user).randLocks = Function.update c.randLocks lock none :=
  ⟨rfl, rfl, rfl, rfl, rfl, rfl, rfl⟩

/-- Closing a request leaves the escrows alone. -/
theorem closeRequest_escrow {c : Chain} {seq seq' : ℕ} {randomness user : Pubkey}
    (huser : user.IsSigner) :
    (closeRequest c (D.requestAddress seq) (.randLock randomness) user).lamports
      (D.mintEscrowAddress seq') = c.lamports (D.mintEscrowAddress seq') := by
  have hrequest : D.mintEscrowAddress seq' ≠ D.requestAddress seq := by
    simp [Deployment.mintEscrowAddress, Deployment.requestAddress]
  have hlock : D.mintEscrowAddress seq' ≠ .randLock randomness := by
    simp [Deployment.mintEscrowAddress]
  have hu : D.mintEscrowAddress seq' ≠ user := mintEscrowAddress_ne huser
  simp only [closeRequest, closeAccount, Chain.setLamports_lamports, Chain.setRandLocks_lamports,
    Chain.setRequests_lamports]
  rw [moveAmount_of_ne hlock hu, moveAmount_of_ne hrequest hu]

/-- **The draw of a settle**, in terms of the pools before and after. -/
structure Drawn (D : Deployment) (w w' : World) (r : Request) (candidates : List ℕ)
    (picked pos : ℕ) : Prop where
  candidates_eq : candidates = candidatesOf D.size w.pool r.seq
  position : uniformBelow D (requestRandomness D r.value r.seq) candidates.length = .ok pos
  pick : candidates[pos]? = some picked
  picked_lt : picked < D.size
  pool : WellFormed D.vaultKey D.size w'.pool
  drawable : drawableOf w'.pool = swapRemove candidates pos ++ r.handIn.toList
  incoming : incomingOf D.size w'.pool
    = (incomingOf D.size w.pool).dropWhile fun e => e.2 ≤ r.seq
  minted : mintedOf D.size w'.pool = fun j => mintedOf D.size w.pool j || decide (j = picked)

section SettleEffect

variable {w w' : World} {r : Request} {mint : Option MintArgs} {candidates : List ℕ}
  {picked : ℕ} {d : Bytes} {c : Chain} {v : Vault}

theorem SettleEffect.drawn (h : SettleEffect D w w' r mint candidates picked d c v)
    (hwf : WellFormed D.vaultKey D.size w.pool) : ∃ pos, Drawn D w w' r candidates picked pos := by
  obtain ⟨rfl, pos, d', hd, hpos, hpick, hwf', habs⟩ := hwf.selectAsset_result h.selected
  obtain ⟨rfl, -⟩ := PoolView.mk.inj hd
  have hp : picked < D.size := hwf.candidatesOf_lt _ (List.mem_of_getElem? hpick)
  obtain ⟨hwfc, -, -, habsc⟩ := h.handover.spec hwf' hp
  have hpool : w'.pool = c.pool := by
    rw [h.toChain]
    rfl
  have hdrawable := congrArg PoolAbs.drawable (habsc.trans (by rw [Chain.setPool_pool, habs]))
  have hincoming := congrArg PoolAbs.incoming (habsc.trans (by rw [Chain.setPool_pool, habs]))
  have hminted := congrArg PoolAbs.minted habsc
  have hminted' := congrArg PoolAbs.minted habs
  simp only [poolAbs, Chain.setPool_pool] at hdrawable hincoming hminted hminted'
  rw [← hpool] at hwfc hdrawable hincoming hminted
  exact ⟨pos, rfl, hpos, hpick, hp, hwfc, hdrawable, hincoming, by rw [hminted, hminted']⟩

/-- A handover counts what it mints, and nothing else. -/
theorem SettleEffect.record (h : SettleEffect D w w' r mint candidates picked d c v) :
    v = { w.vault with mintedCount := v.mintedCount } := by
  cases h.handover <;> rfl

/-- The vault record after the settle. -/
theorem SettleEffect.vault_eq (h : SettleEffect D w w' r mint candidates picked d c v) :
    w'.vault = ({ w.vault with mintedCount := v.mintedCount } : Vault).settled r.kind := by
  rw [← h.record]
  exact h.vault

/-- The picked asset, after the settle. -/
theorem SettleEffect.assets_eq (h : SettleEffect D w w' r mint candidates picked d c v) :
    ∃ a, a.owner = r.user ∧ a.updateAuthority = .collection D.collection ∧
      w'.assets = Function.update w.assets (D.assetAddress picked) (.live a) := by
  have hassets : w'.assets = c.assets := by rw [h.toChain]; rfl
  rw [hassets]
  cases h.handover with
  | @delivered a _ _ _ hcol => exact ⟨{ a with owner := r.user }, rfl, hcol, rfl⟩
  | minted => exact ⟨_, rfl, rfl, rfl⟩

/-- What a settle does to the accounts it does not hand over. -/
theorem SettleEffect.frame (h : SettleEffect D w w' r mint candidates picked d c v) :
    w'.slot = w.slot ∧ w'.tokens = w.tokens ∧ w'.randomness = w.randomness ∧
      w'.accounts = w.accounts ∧
      w'.requests = Function.update w.requests (D.requestAddress r.seq) none ∧
      w'.randLocks = Function.update w.randLocks (.randLock r.randomness) none := by
  rw [h.toChain]
  cases h.handover <;> simp [HybridVault.minted, closeRequest_frame]

/-- A settle touches no escrow but its own. -/
theorem SettleEffect.escrow (h : SettleEffect D w w' r mint candidates picked d c v)
    (huser : r.user.IsSigner) {seq : ℕ} (hseq : seq ≠ r.seq) :
    w'.lamports (D.mintEscrowAddress seq) = w.lamports (D.mintEscrowAddress seq) := by
  have hne : D.mintEscrowAddress seq ≠ D.mintEscrowAddress r.seq := by
    simpa [Deployment.mintEscrowAddress] using hseq
  have hasset : D.mintEscrowAddress seq ≠ D.assetAddress picked := by
    simp [Deployment.mintEscrowAddress, Deployment.assetAddress]
  rw [h.toChain, closeRequest_escrow huser, Chain.setLamports_lamports,
    moveAmount_of_ne hne (mintEscrowAddress_ne huser)]
  cases h.handover with
  | delivered => rfl
  | minted =>
      simp only [HybridVault.minted, mintLamports, Chain.setPool_lamports,
        Chain.setLamports_lamports]
      rw [moveAmount_of_ne hne hasset, moveAmount_of_ne hasset hne]

/-- What a settle counts as minted, and the collection it leaves. -/
theorem SettleEffect.mint_counts (h : SettleEffect D w w' r mint candidates picked d c v)
    (hwf : WellFormed D.vaultKey D.size w.pool) :
    (mintedOf D.size w.pool picked = true ∧ v = w.vault ∧ w'.collection = w.collection) ∨
      (mintedOf D.size w.pool picked = false ∧
        v = { w.vault with mintedCount := w.vault.mintedCount + 1 } ∧
        ∃ col, w.collection = some col ∧ w'.collection = some { col with
          numMinted := col.numMinted + 1
          currentSize := col.currentSize + 1 }) := by
  obtain ⟨-, pos, d', hd, -, -, -, habs⟩ := hwf.selectAsset_result h.selected
  obtain ⟨rfl, -⟩ := PoolView.mk.inj hd
  have hminted : mintedOf D.size d = mintedOf D.size w.pool := congrArg PoolAbs.minted habs
  have hcollection : w'.collection = c.collection := by rw [h.toChain]; rfl
  rw [hcollection]
  cases h.handover with
  | delivered hbit => exact Or.inl ⟨hminted ▸ hbit, rfl, rfl⟩
  | minted hbit _ _ _ _ _ _ hcol => exact Or.inr ⟨hminted ▸ hbit, rfl, _, hcol, rfl⟩

end SettleEffect

end HybridVault
