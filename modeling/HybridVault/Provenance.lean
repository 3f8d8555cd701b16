import HybridVault.Bookkeeping
import HybridVault.Partition
import HybridVault.PoolRefinement

/-!
# Where minted assets come from

Each index is minted at most once, by the settle that first picks it, from the art its
leaf commits to.  The bit in the pool account, the counter in the vault account and the
asset itself are three records of this on three accounts, written at different points of
one instruction.

* `Padded` — the spare bits of the bitmap stay clear, so its population count is the
  number of minted indices.
* `AssetStep` — all that an act can do to the asset of an index: only a settle creates it,
  and nothing makes it new again.
* `RingMinted`, `ArtCommitted` — what waits in the ring exists, and what exists has the
  name and the URI it was committed to have.
-/

namespace HybridVault

open Foundations

/-! ## The bitmap -/

section Bitmap

variable {vault : Bytes32} {cap : ℕ} {d d' : Bytes} {p : PoolView}

/-- Bit `j` of the bitmap. -/
def bitAt (cap : ℕ) (d : Bytes) (j : ℕ) : Bool :=
  (readLE d (poolHeader + 16 * cap + j / 8) 1).testBit (j % 8)

/-- The bits of the last byte that stand for no index are clear. -/
def Padded (cap : ℕ) (d : Bytes) : Prop :=
  ∀ j, cap ≤ j → j < 8 * ((cap + 7) / 8) → bitAt cap d j = false

theorem Padded.keepsBitmap (h : Padded cap d) (hkeep : KeepsBitmap cap d d') : Padded cap d' := by
  intro j hge hlt
  have hbyte : readLE d' (poolHeader + 16 * cap + j / 8) 1
      = readLE d (poolHeader + 16 * cap + j / 8) 1 := by
    rw [readLE, readLE, hkeep _ _ (by simp only [poolHeader]; omega)]
  rw [bitAt, hbyte]
  exact h j hge hlt

/-- Minting sets the bit of an index. -/
theorem Padded.markMinted (h : Padded cap d) {i : ℕ}
    (hok : PoolView.markMinted ⟨d, cap⟩ i = .ok p) : Padded cap p.d := by
  simp only [PoolView.markMinted, rdByte, wrByte_eq_ok_iff, bind_eq_ok_iff, require_eq_ok_iff,
    pure_eq_ok_iff] at hok
  obtain ⟨-, hi, _, -, -, -, _, ⟨-, -, rfl⟩, _, ⟨hbyte, rfl⟩, rfl⟩ := hok
  simp only [PoolView.bitmapOff] at hbyte ⊢
  intro j hge hlt
  have hold := h j hge hlt
  rw [bitAt] at hold ⊢
  by_cases hsame : j / 8 = i / 8
  · have hmask : readLE d (poolHeader + 16 * cap + i / 8) 1 ||| (1 <<< (i % 8)) < 256 ^ 1 :=
      or_shiftLeft_lt (readLE_lt d _ 1) (Nat.mod_lt _ (by omega))
    have hne : i % 8 ≠ j % 8 := by omega
    rw [hsame] at hold ⊢
    rw [readLE_writeLE_same (by omega) hmask, testBit_or_shiftLeft, hold]
    simp [hne]
  · rw [readLE_writeLE_of_disjoint (by omega) (by omega)]
    exact hold

theorem padded_of_init {z : Bytes} (hpos : 0 < cap) (hle : cap ≤ maxCapacity)
    (hz : z = List.replicate (poolAccountSize cap) 0) (hinit : poolInit z vault cap = .ok d) :
    Padded cap d := by
  obtain ⟨d₁, hinit₁, -, -, -, -, hzero⟩ := poolInit_spec vault hpos hle
  rw [hz] at hinit
  obtain rfl := Except.ok.inj (hinit.symm.trans hinit₁)
  intro j _ _
  rw [bitAt, hzero _ _ (by omega)]
  exact Nat.zero_testBit _

/-- **The population count of the bitmap is the number of minted indices.** -/
theorem WellFormed.mintedPopcount_eq (h : WellFormed vault cap d) (hpad : Padded cap d) :
    PoolView.mintedPopcount ⟨d, cap⟩ = .ok ((List.range cap).countP (mintedOf cap d)) := by
  have hsize := h.size_eq
  have hroom : poolHeader + 16 * cap + (cap + 7) / 8 ≤ d.length := by
    simp only [poolHeader]
    omega
  obtain ⟨n, hn⟩ : ∃ n, 8 * ((cap + 7) / 8) = cap + n := ⟨8 * ((cap + 7) / 8) - cap, by omega⟩
  -- the bits of the indices, and then the spare ones
  have hindices : (List.range cap).countP (bitAt cap d)
      = (List.range cap).countP (mintedOf cap d) := by
    apply List.countP_congr
    intro j hj
    simp [mintedOf, bitAt, List.mem_range.mp hj]
  have hspare : ((List.range n).map (cap + ·)).countP (bitAt cap d) = 0 := by
    rw [List.countP_eq_zero]
    intro j hj
    obtain ⟨k, hk, rfl⟩ := List.mem_map.mp hj
    have hk : k < n := List.mem_range.mp hk
    simp [hpad (cap + k) (by omega) (by omega)]
  simp only [PoolView.mintedPopcount, bind_eq_ok_iff, require_eq_ok_iff, pure_eq_ok_iff]
  refine ⟨(), hroom, ?_⟩
  rw [PoolView.bitmapOff, sum_countOnes_slice hroom, hn]
  change (List.range (cap + n)).countP (bitAt cap d) = _
  rw [List.range_add, List.countP_append, hindices, hspare, Nat.add_zero]

/-- A returned hand-in leaves the bitmap alone. -/
theorem returnHandIn_keeps {o : Option ℕ} (hok : returnHandIn ⟨d, cap⟩ o = .ok p) :
    KeepsBitmap cap d p.d := by
  cases o with
  | none =>
      obtain rfl := Except.ok.inj hok
      exact KeepsBitmap.refl cap d
  | some i => exact poolPush_keeps hok

/-- A selection leaves the bitmap alone. -/
theorem WellFormed.selectAsset_keeps {D : Deployment} (h : WellFormed D.vaultKey cap d)
    {req : Request} {candidates : List ℕ} {picked : ℕ}
    (hsel : selectAsset D ⟨d, cap⟩ req = .ok (candidates, picked, p)) : KeepsBitmap cap d p.d := by
  obtain ⟨k, d₁, hmerge, hwf₁, -⟩ := h.merge_spec req.seq maxMergePerIx
  simp only [selectAsset, hmerge, bind_eq_ok_iff, pure_eq_ok_iff, Except.ok.injEq, exists_eq_left',
    Prod.mk.injEq] at hsel
  obtain ⟨-, -, _, hlen, -, -, pos, hpos, ⟨picked', p₂⟩, hremove, p₃, hreturn, -, -, rfl⟩ := hsel
  have hlt : pos < (drawableOf d₁).length := by
    rw [hwf₁.poolLen_eq] at hlen
    obtain rfl := Except.ok.inj hlen
    rw [length_drawableOf]
    exact uniformBelow_lt hpos
  obtain ⟨d₂, hremove', -⟩ := hwf₁.poolSwapRemove_spec hlt
  obtain ⟨-, rfl⟩ := Prod.mk.inj (Except.ok.inj (hremove.symm.trans hremove'))
  exact ((h.merge_keeps hmerge).trans (hwf₁.poolSwapRemove_keeps hremove)).trans
    (returnHandIn_keeps hreturn)

end Bitmap

variable {D : Deployment} {w w' : World} {x : SequencedPool.State ℕ} {ls : List Label}
  {r : Request} {i : ℕ}

/-- **No effect touches a spare bit.** -/
theorem Padded.effect (h : Padded D.size w.pool) (hs : Sound D w) {act : Act}
    (heff : Effect D w act w') : Padded D.size w'.pool := by
  cases heff with
  | requested heff => rw [heff.pool_eq]; exact h
  | @settled _ r _ _ _ d c _ heff =>
      have hselected : Padded D.size d := h.keepsBitmap (hs.pool.selectAsset_keeps heff.selected)
      have hpool : w'.pool = c.pool := by rw [heff.toChain]; rfl
      rw [hpool]
      cases heff.handover with
      | delivered => exact hselected
      | minted _ _ _ _ _ _ _ _ _ hmark => exact hselected.markMinted hmark
  | expired heff => rw [heff.pool_eq]; exact h
  | released heff =>
      rw [heff.toChain]
      exact h.keepsBitmap (incomingPush_keeps hs.pool.cap_pos heff.push)
  | merged heff =>
      obtain ⟨max, hmerge⟩ := heff.merge
      rw [heff.toChain]
      exact h.keepsBitmap (hs.pool.merge_keeps hmerge)
  | opened => exact h
  | randomnessCreated => exact h
  | revealed heff => rw [heff.toChain]; exact h
  | recommitted heff => rw [heff.toChain]; exact h
  | environment henv => rw [henv.pool]; exact h

/-! ## The ring -/

/-- What waits in the ring has been minted. -/
def RingMinted (D : Deployment) (w : World) : Prop :=
  ∀ e ∈ incomingOf D.size w.pool, mintedOf D.size w.pool e.1 = true

/-- Only what a user gave back enters the ring, and that exists. -/
theorem RingMinted.effect (h : RingMinted D w) (ht : Tracks D w x) {act : Act}
    (heff : Effect D w act w') : RingMinted D w' := by
  cases heff with
  | requested heff => rw [RingMinted, heff.pool_eq]; exact h
  | @settled _ r _ _ picked _ _ _ heff =>
      obtain ⟨pos, hdraw⟩ := heff.drawn ht.pool
      intro e he
      rw [hdraw.incoming] at he
      simp [hdraw.minted, h e ((List.dropWhile_sublist _).subset he)]
  | expired heff => rw [RingMinted, heff.pool_eq]; exact h
  | @released _ _ _ index _ _ _ d heff =>
      have hout : index ∈ x.outside := ht.custody.mem_outside heff.index_lt heff.asset
        (heff.asset_owner ▸ ne_vaultAuthority_of_isSigner heff.signer)
      obtain ⟨d', hd, -, habs⟩ := ht.pool.incomingPush_eq_ok heff.index_lt ht.nextSeq_lt heff.push
      obtain ⟨rfl, -⟩ := PoolView.mk.inj hd
      have hpool : w'.pool = d := by rw [heff.toChain]; rfl
      have hincoming :
          incomingOf D.size d = incomingOf D.size w.pool ++ [(index, w.vault.nextSeq)] :=
        congrArg PoolAbs.incoming habs
      have hminted : mintedOf D.size d = mintedOf D.size w.pool := congrArg PoolAbs.minted habs
      intro e he
      rw [hpool, hincoming] at he
      rw [hpool, hminted]
      rcases List.mem_append.mp he with he | he
      · exact h e he
      · -- a user had it, so it exists
        obtain rfl := List.mem_singleton.mp he
        exact ht.custody.outside_minted _ hout
  | @merged _ k d heff =>
      have hpool : w'.pool = d := by rw [heff.toChain]; rfl
      have hincoming : incomingOf D.size d = (incomingOf D.size w.pool).drop k :=
        congrArg PoolAbs.incoming heff.poolAbs
      have hminted : mintedOf D.size d = mintedOf D.size w.pool :=
        congrArg PoolAbs.minted heff.poolAbs
      intro e he
      rw [hpool, hincoming] at he
      rw [hpool, hminted]
      exact h e (List.mem_of_mem_drop he)
  | opened => exact h
  | randomnessCreated => exact h
  | revealed heff => rw [RingMinted, heff.toChain]; exact h
  | recommitted heff => rw [RingMinted, heff.toChain]; exact h
  | environment henv => rw [RingMinted, henv.pool]; exact h

/-! ## What can become of an asset -/

/-- **What an act may make of what is at the address of index `i`**: its owner changes, it
is burned, or a settle that picked `i` creates it from an accepted leaf. -/
inductive AssetStep (D : Deployment) (w : World) (act : Act) (i : ℕ) :
    AssetAccount → AssetAccount → Prop
  | keep (s : AssetAccount) : AssetStep D w act i s s
  | transfer (a : BaseAsset) (newOwner : Pubkey) :
      AssetStep D w act i (.live a) (.live { a with owner := newOwner })
  | burn (a : BaseAsset) : AssetStep D w act i (.live a) .burned
  | mint {seq : ℕ} {value : Bytes32} {candidates : List ℕ} {r : Request} {m : MintArgs}
      (hact : act = .pool (.settled seq value candidates i))
      (hr : w.requests (D.requestAddress seq) = some r)
      (hleaf : checkLeaf D w.vault.traitRoot w.vault.traitSchemaHash D.size i m.leaf m.proof
        = .ok ()) :
      AssetStep D w act i .absent (.live {
        owner := r.user
        updateAuthority := .collection D.collection
        name := assetName i
        uri := m.leaf.uri })

/-- The asset of some index is passed on. -/
theorem AssetStep.of_transfer {act : Act} {j : ℕ} {a : BaseAsset} {newOwner : Pubkey}
    (ha : w.assets (D.assetAddress j) = .live a)
    (hassets : w'.assets
      = Function.update w.assets (D.assetAddress j) (.live { a with owner := newOwner })) :
    AssetStep D w act i (w.assets (D.assetAddress i)) (w'.assets (D.assetAddress i)) := by
  rw [hassets]
  by_cases hij : i = j
  · subst hij
    rw [Function.update_self, ha]
    exact .transfer a newOwner
  · rw [Function.update_of_ne (by simpa using hij)]
    exact .keep _

theorem Effect.assetStep {act : Act} (heff : Effect D w act w') (i : ℕ) :
    AssetStep D w act i (w.assets (D.assetAddress i)) (w'.assets (D.assetAddress i)) := by
  cases heff with
  | @requested _ r _ _ _ heff =>
      have hpay := heff.payment
      cases hk : r.kind with
      | capture =>
          simp only [Payment, hk] at hpay
          rw [hpay.1]
          exact .keep _
      | reroll =>
          simp only [Payment, hk] at hpay
          obtain ⟨-, -, -, a, ha, -, -, hassets⟩ := hpay
          exact .of_transfer ha hassets
  | @settled _ r _ _ picked _ c _ heff =>
      have hassets : w'.assets = c.assets := by rw [heff.toChain]; rfl
      cases heff.handover with
      | delivered _ ha => exact .of_transfer ha hassets
      | @minted m _ _ _ _ hleaf _ hasset =>
          rw [hassets]
          by_cases hi : i = picked
          · -- the asset created is that of the pick
            subst hi
            have hnone : w.assets (D.assetAddress i) = .absent := hasset.2
            rw [hnone]
            simp only [Chain.setPool_assets, minted, Chain.setLamports_assets,
              Chain.setCollection_assets, Chain.setAssets_assets, Function.update_self]
            exact .mint rfl heff.request hleaf
          · simp only [Chain.setPool_assets, minted, Chain.setLamports_assets,
              Chain.setCollection_assets, Chain.setAssets_assets]
            rw [Function.update_of_ne (by simpa using hi)]
            exact .keep _
  | @expired _ r _ _ heff =>
      cases hk : r.kind with
      | capture => rw [heff.capture_assets hk]; exact .keep _
      | reroll =>
          obtain ⟨-, a, ha, -, -, hassets⟩ := heff.reroll hk
          exact .of_transfer ha hassets
  | released heff => exact .of_transfer heff.asset (by rw [heff.toChain]; rfl)
  | merged heff => rw [heff.toChain]; exact .keep _
  | opened => exact .keep _
  | randomnessCreated => exact .keep _
  | revealed heff => rw [heff.toChain]; exact .keep _
  | recommitted heff => rw [heff.toChain]; exact .keep _
  | environment henv =>
      have hmove := henv.assets _ (Or.inl ⟨i, rfl⟩)
      generalize w.assets (D.assetAddress i) = s at hmove ⊢
      generalize w'.assets (D.assetAddress i) = t at hmove ⊢
      cases hmove with
      | keep => exact .keep _
      | transfer => exact .transfer _ _
      | burn => exact .burn _

/-- What is at the address is never again nothing. -/
theorem AssetStep.ne_absent {act : Act} {s t : AssetAccount} (h : AssetStep D w act i s t)
    (hs : s ≠ .absent) : t ≠ .absent := by
  cases h with
  | keep => exact hs
  | transfer => simp
  | burn => simp
  | mint => simp

theorem Effect.ne_absent {act : Act} (heff : Effect D w act w')
    (h : w.assets (D.assetAddress i) ≠ .absent) : w'.assets (D.assetAddress i) ≠ .absent :=
  (heff.assetStep i).ne_absent h

/-- Every asset has the name and the URI its leaf commits to. -/
def ArtCommitted (D : Deployment) (w : World) : Prop :=
  ∀ i a, w.assets (D.assetAddress i) = .live a → a.name = assetName i ∧
    ∃ leaf proof, a.uri = leaf.uri ∧
      checkLeaf D w.vault.traitRoot w.vault.traitSchemaHash D.size i leaf proof = .ok ()

theorem ArtCommitted.effect (h : ArtCommitted D w) {act : Act} (heff : Effect D w act w') :
    ArtCommitted D w' := by
  have hparameters := heff.parameters_eq
  simp only [Vault.parameters, Prod.mk.injEq] at hparameters
  obtain ⟨-, hroot, hschema⟩ := hparameters
  intro i a ha
  rw [hroot, hschema]
  have hstep := heff.assetStep i
  rw [ha] at hstep
  generalize hs : w.assets (D.assetAddress i) = s at hstep
  cases hstep with
  | keep => exact h i a hs
  | transfer b newOwner => exact h i b hs
  | mint _ _ hleaf => exact ⟨rfl, _, _, rfl, hleaf⟩

/-! ## Minted once -/

/-- The step that creates the asset of index `i`: a settle that picked it, with a leaf
that the program accepts. -/
structure MintStep (D : Deployment) (i : ℕ) (u : World) (l : Label) (v : World) : Prop where
  step : Step D u l v
  before : u.assets (D.assetAddress i) = .absent
  settle : ∃ seq value candidates r leaf proof, l.events = [.settled seq value candidates i] ∧
    u.requests (D.requestAddress seq) = some r ∧
    checkLeaf D u.vault.traitRoot u.vault.traitSchemaHash D.size i leaf proof = .ok () ∧
    v.assets (D.assetAddress i) = .live {
      owner := r.user
      updateAuthority := .collection D.collection
      name := assetName i
      uri := leaf.uri }

/-- A step after which the address is no longer empty is a mint. -/
theorem Tracks.mintStep (h : Tracks D w x) {l : Label} (hstep : Step D w l w')
    (hbefore : w.assets (D.assetAddress i) = .absent)
    (hafter : w'.assets (D.assetAddress i) ≠ .absent) : MintStep D i w l w' := by
  have hrun := h.toSound.effects_of_step hstep
  rcases h.toSound.acts_of_step hstep with ⟨act, hact⟩ | hexpired
  · rw [hact] at hrun
    have hmove := hrun.step_of_single.assetStep i
    rw [hbefore] at hmove
    generalize ht : w'.assets (D.assetAddress i) = t at hmove hafter
    cases hmove with
    | keep => exact absurd rfl hafter
    | @mint seq value candidates r m hsettled hr hleaf =>
        have hevents : l.events = [.settled seq value candidates i] := by
          rw [← l.acts_events, hact, hsettled]
          rfl
        exact ⟨hstep, hbefore, seq, value, candidates, r, m.leaf, m.proof, hevents, hr, hleaf, ht⟩
  · -- no expiry creates an asset
    obtain ⟨acts₁, act, acts₂, u, v, hsplit, -, -, hu, heff, hv, -⟩ := hrun.turns
      (I := fun _ => True) (Q := fun v => v.assets (D.assetAddress i) ≠ .absent)
      (fun _ _ _ _ _ => trivial) (fun _ _ _ _ hq heff => heff.ne_absent hq) trivial
      (not_not.mpr hbefore) hafter
    obtain ⟨seq, handIn, rfl⟩ := hexpired act (by simp [hsplit])
    have hmove := heff.assetStep i
    rw [not_not.mp hu] at hmove
    generalize v.assets (D.assetAddress i) = t at hmove hv
    cases hmove with
    | keep => exact absurd rfl hv
    | mint hact => cases hact

/-- **An asset that exists was created in one step of the run**: nothing was at its address
before, and something ever after. -/
theorem Created.minted_once {w₀ : World} (h : Created D w₀) (hrun : Run (Step D) w₀ ls w)
    (hasset : w.assets (D.assetAddress i) ≠ .absent) :
    ∃ ls₁ l ls₂ u v, ls = ls₁ ++ l :: ls₂ ∧
      Run (fun s l t => Step D s l t ∧ t.assets (D.assetAddress i) = .absent) w₀ ls₁ u ∧
      MintStep D i u l v ∧
      Run (fun s l t => Step D s l t ∧ t.assets (D.assetAddress i) ≠ .absent) v ls₂ w := by
  obtain ⟨c, params, hfresh, hinit⟩ := h.spec
  have hnone : w₀.assets (D.assetAddress i) = .absent := by
    rw [hinit.assets_eq]
    exact (hfresh.dataless _ (Or.inl ⟨i, rfl⟩)).2
  have htracks : ∀ s l t, (∃ x, Tracks D s x) → Step D s l t → ∃ y, Tracks D t y := by
    rintro s l t ⟨x, hx⟩ hstep
    obtain ⟨y, -, hy⟩ := hx.step hstep
    exact ⟨y, hy⟩
  have hlasts : ∀ s l t, (∃ x, Tracks D s x) → s.assets (D.assetAddress i) ≠ .absent →
      Step D s l t → t.assets (D.assetAddress i) ≠ .absent := by
    rintro s l t ⟨x, hx⟩ hs hstep
    exact (hx.toSound.effects_of_step hstep).invariant
      (P := fun w => w.assets (D.assetAddress i) ≠ .absent)
      (fun _ _ _ hq heff => heff.ne_absent hq) hs
  obtain ⟨ls₁, l, ls₂, u, v, hsplit, hbefore, ⟨x, hx⟩, hu, hstep, hv, hafter⟩ :=
    hrun.turns htracks hlasts ⟨_, h.tracks⟩ (not_not.mpr hnone) hasset
  exact ⟨ls₁, l, ls₂, u, v, hsplit, hbefore.weaken fun _ _ _ hs => ⟨hs.1, not_not.mp hs.2⟩,
    hx.mintStep hstep (not_not.mp hu) hv, hafter⟩

/-- What a reachable vault keeps about its bitmap, its ring and its art. -/
structure Provenance (D : Deployment) (w : World) : Prop where
  padded : Padded D.size w.pool
  ring : RingMinted D w
  art : ArtCommitted D w

theorem History.provenance (h : History D ls w) : Provenance D w := by
  refine h.invariant (P := fun _ w => Provenance D w) ?_ ?_
  · intro w₀ hcreated
    obtain ⟨c, params, hfresh, hinit⟩ := hcreated.spec
    refine ⟨padded_of_init hinit.size_pos hinit.size_le hfresh.pool hinit.init, ?_, ?_⟩
    · simp [RingMinted, hinit.incoming]
    · intro i a ha
      rw [hinit.assets_eq, (hfresh.dataless _ (Or.inl ⟨i, rfl⟩)).2] at ha
      cases ha
  · rintro acts u x act v hx ⟨hpadded, hring, hart⟩ heff
    exact ⟨hpadded.effect hx.toSound heff, hring.effect hx heff, hart.effect heff⟩

/-- No asset of the collection has been burned. -/
def NoneBurned (D : Deployment) (w : World) : Prop :=
  ∀ i < D.size, w.assets (D.assetAddress i) ≠ .burned

theorem NoneBurned.exists_live_iff (h : NoneBurned D w) (hi : i < D.size) :
    (∃ a, w.assets (D.assetAddress i) = .live a) ↔ w.assets (D.assetAddress i) ≠ .absent := by
  have hburned := h i hi
  cases ha : w.assets (D.assetAddress i) with
  | absent => simp
  | live a => simp
  | burned => exact absurd ha hburned

/-- The bit that the program reads says whether the asset exists. -/
theorem Custody.isMinted_iff (h : Custody D w x) (hwf : WellFormed D.vaultKey D.size w.pool)
    (hburn : NoneBurned D w) (hi : i < D.size) :
    PoolView.isMinted ⟨w.pool, D.size⟩ i = .ok true ↔
      ∃ a, w.assets (D.assetAddress i) = .live a := by
  rw [hwf.isMinted_eq, Except.ok.injEq, h.minted_iff i hi, hburn.exists_live_iff hi]

/-- **Minted once, and only the committed art.**  In every state of a run in which no asset
was burned: the counter is the population count of the bitmap, and at most the size of the
collection; a bit is set exactly if its asset exists; an asset that exists has its own
name and the URI of an accepted leaf, and was created in exactly one step, a settle that
picked it; what is out, handed in or waiting in the ring has its bit set; and a selection
finds the bit of what it picked set exactly if that asset exists. -/
theorem mint_provenance {w₀ : World} (hcreated : Created D w₀) (hrun : Run (Step D) w₀ ls w)
    (hburn : NoneBurned D w) :
    PoolView.mintedPopcount ⟨w.pool, D.size⟩ = .ok w.vault.mintedCount ∧
      w.vault.mintedCount ≤ D.size ∧
      (∀ i < D.size, PoolView.isMinted ⟨w.pool, D.size⟩ i = .ok true ↔
        ∃ a, w.assets (D.assetAddress i) = .live a) ∧
      (∀ i < D.size, ∀ a, w.assets (D.assetAddress i) = .live a →
        (a.name = assetName i ∧ ∃ leaf proof, a.uri = leaf.uri ∧
          checkLeaf D w.vault.traitRoot w.vault.traitSchemaHash D.size i leaf proof = .ok ()) ∧
        ∃ ls₁ l ls₂ u v, ls = ls₁ ++ l :: ls₂ ∧
          Run (fun s l t => Step D s l t ∧ t.assets (D.assetAddress i) = .absent) w₀ ls₁ u ∧
          MintStep D i u l v ∧
          Run (fun s l t => Step D s l t ∧ t.assets (D.assetAddress i) ≠ .absent) v ls₂ w) ∧
      (∀ i ∈ releasedIndices (poolEvents ls) ++ pendingHandIns D w
          ++ (incomingOf D.size w.pool).map Prod.fst,
        PoolView.isMinted ⟨w.pool, D.size⟩ i = .ok true) ∧
      ∀ req candidates picked p, selectAsset D ⟨w.pool, D.size⟩ req = .ok (candidates, picked, p) →
        (p.isMinted picked = .ok true ↔ ∃ a, w.assets (D.assetAddress picked) = .live a) := by
  have h : History D ls w := ⟨w₀, hcreated, hrun⟩
  obtain ⟨x, hpool, hx⟩ := h.tracks
  obtain ⟨hpadded, hring, hart⟩ := h.provenance
  refine ⟨?_, ?_, fun i hi => hx.custody.isMinted_iff hx.pool hburn hi, ?_, ?_, ?_⟩
  · rw [hx.custody.count]
    exact hx.pool.mintedPopcount_eq hpadded
  · rw [hx.custody.count]
    exact List.countP_le_length.trans List.length_range.le
  · intro i _ a ha
    exact ⟨hart i a ha, hcreated.minted_once hrun (by simp [ha])⟩
  · intro i hi
    rw [hx.pool.isMinted_eq, Except.ok.injEq]
    rw [← outside_eq_releasedIndices hpool, hx.pendingHandIns_eq, List.append_assoc,
      List.mem_append, List.mem_append] at hi
    rcases hi with hout | hhand | hwaiting
    · exact hx.custody.outside_minted i hout
    · exact hx.custody.handIn_minted i hhand
    · obtain ⟨e, he, rfl⟩ := List.mem_map.mp hwaiting
      exact hring e he
  · intro req candidates picked p hsel
    obtain ⟨-, pos, d, rfl, -, hpick, hwf, habs⟩ := hx.pool.selectAsset_result hsel
    have hi : picked < D.size := hx.pool.candidatesOf_lt _ (List.mem_of_getElem? hpick)
    have hminted : mintedOf D.size d = mintedOf D.size w.pool := congrArg PoolAbs.minted habs
    rw [hwf.isMinted_eq, hminted, ← hx.pool.isMinted_eq]
    exact hx.custody.isMinted_iff hx.pool hburn hi

/-- The first settle of the small vault minted one asset and burned none. -/
theorem smallSettled_noneBurned (h : History smallVault ls w) (hsettled : smallSettled w = true) :
    w.vault.mintedCount = 1 ∧ NoneBurned smallVault w := by
  obtain ⟨x, -, hx⟩ := h.tracks
  simp only [smallSettled, Bool.and_eq_true, decide_eq_true_eq] at hsettled
  obtain ⟨⟨-, hcount⟩, hasset⟩ := hsettled
  have hlive : w.assets (smallVault.assetAddress 26) ≠ .absent ∧
      w.assets (smallVault.assetAddress 26) ≠ .burned := by
    cases ha : w.assets (smallVault.assetAddress 26) <;> simp [ha] at hasset ⊢
  refine ⟨hcount, ?_⟩
  intro i hi hburned
  by_cases h26 : i = 26
  · exact hlive.2 (h26 ▸ hburned)
  · have hlt : ∀ j ∈ [i, 26], j < smallVault.size := by simp [hi]; decide
    have hbits : ∀ j ∈ [i, 26], mintedOf smallVault.size w.pool j = true := by
      intro j hj
      rw [hx.custody.minted_iff j (hlt j hj)]
      rcases List.mem_pair.mp hj with rfl | rfl
      · simp [hburned]
      · exact hlive.1
    have hle := hx.custody.length_le_mintedCount (by simpa using h26) hlt hbits
    rw [hcount] at hle
    simp at hle

theorem mint_provenance_small :
    ∃ ls w, History smallVault ls w ∧ w.vault.mintedCount = 1 ∧
      PoolView.mintedPopcount ⟨w.pool, smallVault.size⟩ = .ok 1 := by
  obtain ⟨ls, w, h, hsettled, -⟩ := exists_smallSettled
  obtain ⟨hcount, hburn⟩ := smallSettled_noneBurned h hsettled
  obtain ⟨w₀, hcreated, hrun⟩ := h
  have hpopcount := (mint_provenance hcreated hrun hburn).1
  rw [hcount] at hpopcount
  exact ⟨ls, w, ⟨w₀, hcreated, hrun⟩, hcount, hpopcount⟩

end HybridVault
