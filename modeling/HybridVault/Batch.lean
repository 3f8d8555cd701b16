import HybridVault.LastResort
import HybridVault.Recovery

/-!
# A batch of expiries

`expire_requests` is to do what as many calls of `expire_request` would, all or none.  Its
checks do: each pass of the loop accepts exactly the accounts that the constraints of a
single expiry accept, each on the head that the pass before it left, and one closing check
at the end stands for all, since it passes after any of them.

Its order of work does not.  A single expiry closes the request after the handler has
returned; the batch closes it inside the loop, and calls other programs again for the next
request.  Closing moves lamports to the user, so from then on no call may pass that user
(`callsBalanced`): two requests of one user expire one by one, and not together.

* `Ripe` — what a request needs to expire when its turn comes; no expiry before it matters.
* `Clear` — the calls for a request pass none of the accounts that the batch has moved
  lamports of.
-/

namespace HybridVault

open Foundations

variable {D : Deployment} {w w' : World} {x : SequencedPool.State ℕ} {ls : List Label}
  {r : Request} {g : ExpireAccounts} {gs : List ExpireAccounts} {caller : Pubkey}
  {moved : List Pubkey} {seq : ℕ}

/-! ## One after another -/

/-- `expire_request`, also given the accounts the program pins. -/
def handleExpireGroup (D : Deployment) (w : World) (caller : Pubkey) (g : ExpireAccounts) :
    Res (World × List PoolEvent) := do
  let req ← loadRequest D w.toChain g.request g.randomness
  constraint (g.lock = .randLock g.randomness) .ConstraintSeeds
  constraint (g.mintEscrow = D.mintEscrowAddress req.seq) .ConstraintSeeds
  handleExpire D w caller g.request g.randomness g.user g.userToken g.asset

/-- `expire_request` for one group of accounts after another. -/
def expireEach (D : Deployment) (caller : Pubkey) :
    World → List ExpireAccounts → Res (World × List PoolEvent)
  | w, [] => return (w, [])
  | w, g :: gs => do
      let (w, es) ← handleExpireGroup D w caller g
      let (w, es') ← expireEach D caller w gs
      return (w, es ++ es')

/-- **Request `seq` can expire when it is the head**: `r` is there, the accounts of `g` are
its own, and no oracle revealed it in all the time it had. -/
structure Ripe (D : Deployment) (w : World) (seq : ℕ) (g : ExpireAccounts) (r : Request) :
    Prop where
  request : w.requests (D.requestAddress seq) = some r
  names : g.Names D r
  account : ∃ t, w.tokens g.userToken = some t ∧ t.mint = D.mint ∧ t.owner = r.user
  unrevealed : r.revealed = false
  exhausted : maxRecommits < r.commits
  overdue : r.deadlineSlot + expireGraceSlots < w.slot

/-- The calls for group `p.1`, as request `p.2`, pass none of the accounts `moved`. -/
def Clear (D : Deployment) (w : World) (caller : Pubkey) (moved : List Pubkey)
    (p : ExpireAccounts × ℕ) : Prop :=
  ∀ r, w.requests (D.requestAddress p.2) = some r →
    ∀ k ∈ principalPasses D caller r.kind p.1 ++ refundPasses p.1, k ∉ moved

theorem clear_append {moved' : List Pubkey} {p : ExpireAccounts × ℕ} :
    Clear D w caller (moved ++ moved') p ↔
      Clear D w caller moved p ∧ Clear D w caller moved' p := by
  simp only [Clear, List.mem_append, not_or]
  exact ⟨fun h => ⟨fun r hr k hk => (h r hr k hk).1, fun r hr k hk => (h r hr k hk).2⟩,
    fun h r hr k hk => ⟨h.1 r hr k hk, h.2 r hr k hk⟩⟩

/-! ## What an expiry leaves for the next -/

section Next

variable {userToken : Pubkey} {c : Chain}

/-- The owner and the mint of a token account survive a transfer. -/
theorem holder_of_moveTokens {tokens : Pubkey → Option TokenAccount} {source dest : Pubkey}
    {s d : TokenAccount} {amount : ℕ} (hs : tokens source = some s) (hd : tokens dest = some d)
    (k mint owner : Pubkey) :
    (∃ t, moveTokens tokens source dest s d amount k = some t ∧ t.mint = mint ∧ t.owner = owner) ↔
      ∃ t, tokens k = some t ∧ t.mint = mint ∧ t.owner = owner := by
  by_cases hk : k = dest
  · subst hk
    simp [moveTokens, hd]
  · by_cases hk' : k = source
    · subst hk'
      simp [moveTokens, hk, hs]
    · simp [moveTokens, hk, hk']

/-- The owners and mints of all token accounts survive an expiry. -/
theorem ExpireEffect.holder (heff : ExpireEffect D w w' r userToken c)
    (hne : userToken ≠ D.vaultTokens) (k mint owner : Pubkey) :
    (∃ t, w'.tokens k = some t ∧ t.mint = mint ∧ t.owner = owner) ↔
      ∃ t, w.tokens k = some t ∧ t.mint = mint ∧ t.owner = owner := by
  cases hk : r.kind with
  | capture =>
      obtain ⟨s, t, hs, ht, -, htokens⟩ := heff.capture_tokens hk hne
      rw [htokens]
      exact holder_of_moveTokens hs ht k mint owner
  | reroll => rw [(heff.reroll hk).1]

/-- An expiry leaves the requests behind it. -/
theorem ExpireEffect.requests_behind (heff : ExpireEffect D w w' r userToken c)
    (hseq : w.vault.nextSettleSeq < seq) :
    w'.requests (D.requestAddress seq) = w.requests (D.requestAddress seq) := by
  obtain ⟨-, -, -, -, hrequests, -⟩ := heff.frame
  rw [hrequests, Function.update_of_ne]
  rw [Ne, requestAddress_inj, heff.seq]
  omega

theorem ExpireEffect.clear_iff (heff : ExpireEffect D w w' r userToken c) {p : ExpireAccounts × ℕ}
    (hp : w.vault.nextSettleSeq < p.2) : Clear D w' caller moved p ↔ Clear D w caller moved p := by
  rw [Clear, Clear, heff.requests_behind hp]

/-- A request behind the head is ripe before the head expires exactly if it is after. -/
theorem ExpireEffect.ripe_iff (heff : ExpireEffect D w w' r userToken c)
    (hne : userToken ≠ D.vaultTokens) {s : Request} (hseq : w.vault.nextSettleSeq < seq) :
    Ripe D w' seq g s ↔ Ripe D w seq g s := by
  have hrequests := heff.requests_behind hseq
  have hslot := heff.frame.1
  have hholder := heff.holder hne g.userToken D.mint s.user
  constructor
  · rintro ⟨hr, hnames, haccount, hrev, hexhausted, hoverdue⟩
    exact ⟨by rwa [hrequests] at hr, hnames, hholder.mp haccount, hrev, hexhausted,
      by rwa [hslot] at hoverdue⟩
  · rintro ⟨hr, hnames, haccount, hrev, hexhausted, hoverdue⟩
    exact ⟨by rwa [hrequests], hnames, hholder.mpr haccount, hrev, hexhausted, by rwa [hslot]⟩

end Next

/-! ## One group -/

namespace Consistent

/-- The token account an expiry names is not the vault's. -/
theorem expire_ne_vaultTokens (h : Consistent D w x) {userToken : Pubkey} {c : Chain}
    (heff : ExpireEffect D w w' r userToken c) : userToken ≠ D.vaultTokens := by
  obtain ⟨t, ht, -, howner⟩ := heff.account
  obtain ⟨-, huser, -⟩ := h.tickets.own _ r heff.request (Or.inr ⟨_, rfl⟩)
  obtain ⟨donated, htreasury⟩ := h.treasury
  exact htreasury.ne_vaultTokens ht howner huser

/-- **A group expires exactly if its request, the head, is ripe.** -/
theorem exists_expireEffect_iff (h : Consistent D w x) :
    (∃ w' c, ExpireEffect D w w' r g.userToken c ∧ g.Names D r) ↔
      Ripe D w w.vault.nextSettleSeq g r := by
  constructor
  · rintro ⟨w', c, heff, hnames⟩
    exact ⟨heff.seq ▸ heff.request, hnames, heff.account, heff.unrevealed, heff.exhausted,
      heff.overdue⟩
  · intro hripe
    have hstuck : Stuck D w r := ⟨hripe.request, hripe.unrevealed, hripe.overdue⟩
    obtain ⟨w', c, heff⟩ := h.expireEffect hstuck hripe.exhausted hripe.account
    exact ⟨w', c, heff, hripe.names⟩

/-- **A single expiry** of a group returns exactly if its request expires. -/
theorem handleExpireGroup_eq_ok_iff (h : Consistent D w x) (hcaller : caller.IsSigner)
    {res : World × List PoolEvent} :
    handleExpireGroup D w caller g = .ok res ↔
      ∃ r c, ExpireEffect D w res.1 r g.userToken c ∧ g.Names D r ∧
        res.2 = [.expired r.seq r.handIn] := by
  simp only [handleExpireGroup, bind_eq_ok_iff, loadRequest_eq_ok_iff, require_eq_ok_iff]
  constructor
  · rintro ⟨s, ⟨hs, hkey, -⟩, -, hlock, -, hescrow, hexpire⟩
    obtain ⟨r, c, heff, hes, hnames, -⟩ := handleExpire_eq_ok h.pool hexpire
    have hseq : s.seq = r.seq := requestAddress_inj.mp (hkey.symm.trans hnames.request)
    rw [hseq] at hescrow
    exact ⟨r, c, heff, ⟨hnames.request, hlock.trans (congrArg _ hnames.randomness),
      hnames.randomness, hnames.user, hescrow, hnames.asset⟩, hes⟩
  · obtain ⟨w', es⟩ := res
    rintro ⟨r, c, heff, hnames, rfl⟩
    obtain ⟨y, -, hy⟩ := h.effect (.expired heff)
    obtain ⟨t, ht, -, -, hcheck⟩ := hy.closingCheck
    obtain ⟨s, hs, -⟩ := h.closingCheck
    refine ⟨r, ⟨by rw [hnames.request]; exact heff.request, hnames.request, heff.request_vault,
      hnames.randomness.symm⟩, (), hnames.lock.trans (congrArg _ hnames.randomness.symm), (),
      hnames.mintEscrow, ?_⟩
    rw [hnames.request, hnames.randomness, hnames.user]
    exact heff.handleExpire_eq h.pool h.economics ⟨t, ht, hcheck⟩ (by rw [hs]; rfl) hcaller
      hnames.asset

/-- The escrow of a request that expires holds lamports, so that a refund is called for. -/
theorem callsBalanced_iff (h : Consistent D w x) {userToken : Pubkey} {c : Chain}
    (heff : ExpireEffect D w w' r userToken c) (hnames : g.Names D r) :
    callsBalanced D w caller moved r.kind g = .ok () ↔
      Clear D w caller moved (g, w.vault.nextSettleSeq) := by
  obtain ⟨-, -, -, -, hlt⟩ := h.tickets.own _ r heff.request (Or.inr ⟨_, rfl⟩)
  have hescrow := (h.funded r.seq heff.seq.ge (h.next ▸ hlt)).2
  have hpos : w.lamports g.mintEscrow ≠ 0 := by
    have hcost : 0 < mintEscrowLamports := by decide
    rw [hnames.mintEscrow]
    omega
  have hr : w.requests (D.requestAddress w.vault.nextSettleSeq) = some r := by
    rw [← heff.seq]
    exact heff.request
  simp [callsBalanced, Clear, hr, hpos, bind_eq_ok_iff, or_imp, forall_and]

/-! ## The loop -/

/-- **Expiring one after another** succeeds exactly if every request is ripe at the start. -/
theorem exists_expireEach_iff (h : Consistent D w x) (hcaller : caller.IsSigner) :
    (∃ res, expireEach D caller w gs = .ok res) ↔
      ∀ p ∈ gs.zipIdx w.vault.nextSettleSeq, ∃ r, Ripe D w p.2 p.1 r := by
  induction gs generalizing w x with
  | nil => simp [expireEach]
  | cons g gs ih =>
      rw [List.zipIdx_cons, List.forall_mem_cons]
      -- what the first expiry leaves is what there was
      have hrest : ∀ {w' : World} {r : Request} {c : Chain},
          ExpireEffect D w w' r g.userToken c →
          ((∃ res, expireEach D caller w' gs = .ok res) ↔
            ∀ p ∈ gs.zipIdx (w.vault.nextSettleSeq + 1), ∃ r, Ripe D w p.2 p.1 r) := by
        intro w' r c heff
        obtain ⟨y, -, hy⟩ := h.effect (.expired heff)
        rw [ih hy, heff.nextSettleSeq]
        refine forall₂_congr fun p hp => exists_congr ?_
        intro s
        have hlt := List.le_snd_of_mem_zipIdx hp
        exact heff.ripe_iff (h.expire_ne_vaultTokens heff) hlt
      constructor
      · rintro ⟨res, hres⟩
        simp only [expireEach, bind_eq_ok_iff] at hres
        obtain ⟨⟨w₁, es⟩, hfirst, res', hlast, -⟩ := hres
        obtain ⟨r, c, heff, hnames, -⟩ := (h.handleExpireGroup_eq_ok_iff hcaller).mp hfirst
        exact ⟨⟨r, h.exists_expireEffect_iff.mp ⟨w₁, c, heff, hnames⟩⟩,
          (hrest heff).mp ⟨res', hlast⟩⟩
      · rintro ⟨⟨r, hripe⟩, hripes⟩
        obtain ⟨w₁, c, heff, hnames⟩ := h.exists_expireEffect_iff.mpr hripe
        obtain ⟨res, hlast⟩ := (hrest heff).mpr hripes
        have hfirst : handleExpireGroup D w caller g = .ok (w₁, [.expired r.seq r.handIn]) :=
          (h.handleExpireGroup_eq_ok_iff hcaller).mpr ⟨r, c, heff, hnames, rfl⟩
        exact ⟨_, by simp only [expireEach, hfirst, ok_bind, hlast]; rfl⟩

/-- **The batch loop does what single expiries do**, where the calls are clear: of what was
moved before, and of what each group moves before the next. -/
theorem expireAll_eq_ok_iff (h : Consistent D w x) (hcaller : caller.IsSigner)
    {res : World × List PoolEvent} :
    expireAll D caller D.ratio w moved gs = .ok res ↔ expireEach D caller w gs = .ok res ∧
      (∀ p ∈ gs.zipIdx w.vault.nextSettleSeq, Clear D w caller moved p) ∧
      (gs.zipIdx w.vault.nextSettleSeq).Pairwise fun p q => Clear D w caller p.1.closed q := by
  induction gs generalizing w x moved res with
  | nil => simp [expireAll, expireEach]
  | cons g gs ih =>
      rw [List.zipIdx_cons, List.forall_mem_cons, List.pairwise_cons]
      have hrest : ∀ {w' : World} {r : Request} {c : Chain} {res : World × List PoolEvent},
          ExpireEffect D w w' r g.userToken c →
          (expireAll D caller D.ratio w' (g.closed ++ moved) gs = .ok res ↔
            expireEach D caller w' gs = .ok res ∧
            (∀ p ∈ gs.zipIdx (w.vault.nextSettleSeq + 1),
              Clear D w caller g.closed p ∧ Clear D w caller moved p) ∧
            (gs.zipIdx (w.vault.nextSettleSeq + 1)).Pairwise
              fun p q => Clear D w caller p.1.closed q) := by
        intro w' r c res heff
        obtain ⟨y, -, hy⟩ := h.effect (.expired heff)
        rw [ih hy, heff.nextSettleSeq]
        refine and_congr_right fun _ => and_congr ?_ ?_
        · apply forall₂_congr
          intro p hp
          rw [heff.clear_iff (List.le_snd_of_mem_zipIdx hp), clear_append]
        · exact List.Pairwise.iff_of_mem fun _ hq => heff.clear_iff (List.le_snd_of_mem_zipIdx hq)
      simp only [expireAll, expireEach, bind_eq_ok_iff, pure_eq_ok_iff]
      constructor
      · rintro ⟨⟨w₁, e⟩, hgroup, ⟨w₂, es⟩, hloop, rfl⟩
        obtain ⟨r, c, heff, rfl, hnames, hcalls⟩ := expireGroup_eq_ok_iff.mp hgroup
        obtain ⟨heach, hclear, hpairs⟩ := (hrest heff).mp hloop
        refine ⟨⟨(w₁, [_]), (h.handleExpireGroup_eq_ok_iff hcaller).mpr ⟨r, c, heff, hnames, rfl⟩,
          (w₂, es), heach, rfl⟩, ⟨(h.callsBalanced_iff heff hnames).mp hcalls,
          fun p hp => (hclear p hp).2⟩, fun p hp => (hclear p hp).1, hpairs⟩
      · rintro ⟨⟨⟨w₁, es₁⟩, hgroup, ⟨w₂, es⟩, heach, rfl⟩, ⟨hfirst, hclear⟩, hclosed, hpairs⟩
        obtain ⟨r, c, heff, hnames, rfl⟩ := (h.handleExpireGroup_eq_ok_iff hcaller).mp hgroup
        refine ⟨(w₁, _), expireGroup_eq_ok_iff.mpr ⟨r, c, heff, rfl, hnames,
          (h.callsBalanced_iff heff hnames).mpr hfirst⟩, (w₂, es), (hrest heff).mpr
          ⟨heach, fun p hp => ⟨hclosed p hp, hclear p hp⟩, hpairs⟩, rfl⟩

/-- **The batch** is its loop: the closing check passes after any expiries. -/
theorem handleExpireBatch_eq_ok_iff (h : Consistent D w x) {remaining : List Pubkey} {count : ℕ}
    {res : World × List PoolEvent} :
    handleExpireBatch D w caller remaining count = .ok res ↔
      caller.IsSigner ∧ (1 ≤ count ∧ count ≤ maxExpirePerCall) ∧
        remaining.length = count * expireBatchStride ∧
        expireAll D caller D.ratio w [] (expireGroups remaining) = .ok res := by
  simp only [handleExpireBatch, handleExpireBatchWith, exitView_launchConfigAccount, bind_eq_ok_iff,
    require_eq_ok_iff, pure_eq_ok_iff]
  constructor
  · rintro ⟨-, hcaller, -, -, -, hcount, -, hlen, e, hview, ⟨w', es⟩, hloop, -, -, rfl⟩
    obtain rfl := LaunchConfig.exitViewIn_eq_ok hview
    exact ⟨hcaller, hcount, hlen, hloop⟩
  · obtain ⟨w', es⟩ := res
    rintro ⟨hcaller, hcount, hlen, hloop⟩
    -- the loop leaves a consistent vault
    obtain ⟨hrun, -⟩ := expireAll_eq_ok hloop
    obtain ⟨y, hy⟩ : ∃ y, Consistent D w' y := by
      refine hrun.invariant (P := fun v => ∃ y, Consistent D v y) ?_ ⟨x, h⟩
      rintro u e v ⟨z, hz⟩ ⟨r, userToken, c, heff, -⟩
      obtain ⟨y, -, hy⟩ := hz.effect (.expired heff)
      exact ⟨y, hy⟩
    obtain ⟨t, ht, -, -, hcheck⟩ := hy.closingCheck
    obtain ⟨s, hs, -⟩ := h.closingCheck
    exact ⟨(), hcaller, s.amount, by simp [vaultTokensAmount, hs], (), hcount, (), hlen,
      ⟨D.ratio, D.size⟩, LaunchConfig.exitViewIn_accountData h.economics.1 h.economics.2.1
        h.economics.2.2, (w', es), hloop, (), hy.pool.closingCheck_ok rfl ht hcheck, rfl⟩

end Consistent

/-! ## Together and one by one -/

/-- The caller signs, and every group's request is ripe. -/
def Ready (D : Deployment) (w : World) (caller : Pubkey) (gs : List ExpireAccounts) : Prop :=
  caller.IsSigner ∧ ∀ p ∈ gs.zipIdx w.vault.nextSettleSeq, ∃ r, Ripe D w p.2 p.1 r

/-- No group's calls pass an account of which an earlier group's closing moves lamports. -/
def Undisturbed (D : Deployment) (w : World) (caller : Pubkey) (gs : List ExpireAccounts) : Prop :=
  (gs.zipIdx w.vault.nextSettleSeq).Pairwise fun p q => Clear D w caller p.1.closed q

theorem handleExpireGroup_isSigner {res : World × List PoolEvent}
    (h : handleExpireGroup D w caller g = .ok res) : caller.IsSigner := by
  simp only [handleExpireGroup, handleExpire, handleExpireWith, bind_eq_ok_iff,
    require_eq_ok_iff] at h
  obtain ⟨-, -, -, -, -, -, -, hcaller, -⟩ := h
  exact hcaller

/-- Single expiries of some groups succeed exactly if everything is ready. -/
theorem Consistent.exists_expireEach_iff_ready (h : Consistent D w x) (hne : gs ≠ []) :
    (∃ res, expireEach D caller w gs = .ok res) ↔ Ready D w caller gs := by
  constructor
  · rintro ⟨res, hres⟩
    have hcaller : caller.IsSigner := by
      obtain ⟨g, gs, rfl⟩ := List.exists_cons_of_ne_nil hne
      simp only [expireEach, bind_eq_ok_iff] at hres
      obtain ⟨_, hfirst, -⟩ := hres
      exact handleExpireGroup_isSigner hfirst
    exact ⟨hcaller, (h.exists_expireEach_iff hcaller).mp ⟨res, hres⟩⟩
  · rintro ⟨hcaller, hripe⟩
    exact (h.exists_expireEach_iff hcaller).mpr hripe

/-- The batch succeeds exactly where single expiries do, and nothing they call is
disturbed. -/
theorem Consistent.batch_eq_ok_iff (h : Consistent D w x) {remaining : List Pubkey} {count : ℕ}
    (hcount : 1 ≤ count ∧ count ≤ maxExpirePerCall)
    (hlen : remaining.length = count * expireBatchStride) {res : World × List PoolEvent} :
    handleExpireBatch D w caller remaining count = .ok res ↔
      expireEach D caller w (expireGroups remaining) = .ok res ∧
        Undisturbed D w caller (expireGroups remaining) := by
  have hne : expireGroups remaining ≠ [] :=
    expireGroups_ne_nil (by rw [hlen]; exact Nat.le_mul_of_pos_left _ hcount.1)
  rw [h.handleExpireBatch_eq_ok_iff]
  constructor
  · rintro ⟨hcaller, -, -, hloop⟩
    obtain ⟨heach, -, hpairs⟩ := (h.expireAll_eq_ok_iff hcaller).mp hloop
    exact ⟨heach, hpairs⟩
  · rintro ⟨heach, hpairs⟩
    have hcaller := ((h.exists_expireEach_iff_ready hne).mp ⟨res, heach⟩).1
    refine ⟨hcaller, hcount, hlen, (h.expireAll_eq_ok_iff hcaller).mpr ⟨heach, ?_, hpairs⟩⟩
    exact fun p _ r _ k _ => List.not_mem_nil

/-- Someone other than the user of the small vault. -/
def smallCaller : Pubkey := .raw (Bytes32.fill 44)

/-- A stuck capture of the small vault is ripe. -/
theorem exists_ripe_small {randomness user userToken : Pubkey}
    (hripe : smallRipe w seq randomness user userToken = true) :
    ∀ g ∈ expireGroups (smallGroup seq randomness user userToken),
      ∃ r, Ripe smallVault w seq g r := by
  rintro g hg
  obtain rfl := List.mem_singleton.mp hg
  simp only [smallRipe, Bool.and_eq_true, Option.any_eq_true, decide_eq_true_eq,
    Bool.not_eq_true'] at hripe
  obtain ⟨⟨r, hr, ⟨⟨⟨⟨⟨hkind, rfl⟩, huser⟩, rfl⟩, hrev⟩, hcommits⟩, hoverdue⟩,
    ⟨t, ht, hmint, howner⟩⟩ := hripe
  exact ⟨r, hr, ⟨rfl, rfl, rfl, huser.symm, rfl, by simp [hkind]⟩,
    ⟨t, ht, hmint, howner.trans huser.symm⟩, hrev, by simp [hcommits, maxRecommits], hoverdue⟩

/-- The two captures of one user. -/
def sameUserPair : List Pubkey :=
  smallGroup 0 smallRandomness smallUser smallUserToken
    ++ smallGroup 1 otherRandomness smallUser smallUserToken

/-- **When a batch does what single expiries do.**  In every reachable state, for every
count in range and any accounts in that number, the batch and the single expiries of its
groups, in order, succeed alike and with the same result, exactly if, whenever all of them
can expire, no group's calls pass an account of which an earlier group's closing moves
lamports. -/
theorem batch_expires_as_singles_iff (h : History D ls w) (caller : Pubkey)
    {remaining : List Pubkey} {count : ℕ} (hcount : 1 ≤ count ∧ count ≤ maxExpirePerCall)
    (hlen : remaining.length = count * expireBatchStride) :
    (∀ res, handleExpireBatch D w caller remaining count = .ok res ↔
        expireEach D caller w (expireGroups remaining) = .ok res) ↔
      (Ready D w caller (expireGroups remaining) →
        Undisturbed D w caller (expireGroups remaining)) := by
  obtain ⟨x, -, hx⟩ := h.consistent
  have hne : expireGroups remaining ≠ [] :=
    expireGroups_ne_nil (by rw [hlen]; exact Nat.le_mul_of_pos_left _ hcount.1)
  simp only [hx.batch_eq_ok_iff hcount hlen, and_iff_left_iff_imp]
  constructor
  · intro hsame hready
    obtain ⟨res, heach⟩ := (hx.exists_expireEach_iff_ready hne).mpr hready
    exact hsame res heach
  · intro hsame res heach
    exact hsame ((hx.exists_expireEach_iff_ready hne).mp ⟨res, heach⟩)

/-- Once the first capture has expired, the two behind it, of different users, expire
together and as they do one by one. -/
theorem batch_expires_as_singles_small :
    ∃ ls w res, History smallVault ls w ∧
      handleExpireBatch smallVault w smallCaller smallPair 2 = .ok res ∧
      expireEach smallVault smallCaller w (expireGroups smallPair) = .ok res := by
  obtain ⟨ls, w, w', h, -, -, -, hexpire, hhead, hripe₁, hripe₂, -⟩ := exists_smallRipe
  have h' := h.snoc (.instruction hexpire)
  obtain ⟨x, -, hx⟩ := h'.consistent
  have hready : Ready smallVault w' smallCaller (expireGroups smallPair) := by
    refine ⟨trivial, ?_⟩
    intro p hp
    rw [hhead] at hp
    rcases List.mem_pair.mp hp with rfl | rfl
    · exact exists_ripe_small hripe₁ _ (List.mem_singleton_self _)
    · exact exists_ripe_small hripe₂ _ (List.mem_singleton_self _)
  obtain ⟨res, heach⟩ := (hx.exists_expireEach_iff_ready (List.cons_ne_nil _ _)).mpr hready
  have hsame : ∀ res, handleExpireBatch smallVault w' smallCaller smallPair 2 = .ok res ↔
      expireEach smallVault smallCaller w' (expireGroups smallPair) = .ok res := by
    refine (batch_expires_as_singles_iff h' smallCaller (by decide) rfl).mpr fun _ => ?_
    -- the calls for the second pass nothing of the first
    refine List.pairwise_pair.mpr ?_
    intro r _
    dsimp only
    cases r.kind <;> decide
  exact ⟨_, w', res, h', (hsame res).mpr heach, heach⟩

/-- **Two requests of one user do not expire together.**  Both captures are stuck, and each
expires by itself, one after the other; the batch of the two fails for any result. -/
theorem two_of_one_user_do_not_expire_together :
    ∃ ls w, History smallVault ls w ∧ sameUserPair.length = 2 * expireBatchStride ∧
      (∃ res, expireEach smallVault smallCaller w (expireGroups sameUserPair) = .ok res) ∧
      ∀ res, handleExpireBatch smallVault w smallCaller sameUserPair 2 ≠ .ok res := by
  obtain ⟨ls, w, -, h, hhead, hripe₀, hripe₁, -⟩ := exists_smallRipe
  obtain ⟨x, -, hx⟩ := h.consistent
  have hr₀ := exists_ripe_small hripe₀ _ (List.mem_singleton_self _)
  obtain ⟨r₁, hr₁⟩ := exists_ripe_small hripe₁ _ (List.mem_singleton_self _)
  refine ⟨ls, w, h, rfl, (hx.exists_expireEach_iff_ready (List.cons_ne_nil _ _)).mpr
    ⟨trivial, ?_⟩, ?_⟩
  · intro p hp
    rw [hhead] at hp
    rcases List.mem_pair.mp hp with rfl | rfl
    · exact hr₀
    · exact ⟨r₁, hr₁⟩
  · intro res hres
    -- the first closing pays the user, whom the second refund passes
    obtain ⟨-, hpairs⟩ := (hx.batch_eq_ok_iff (by decide) rfl).mp hres
    have hclear := (List.pairwise_cons.mp hpairs).1 _ (List.mem_singleton_self _)
    rw [hhead] at hclear
    refine hclear r₁ hr₁.request smallUser ?_ ?_
    · exact List.mem_append_right _ (List.mem_cons_of_mem _ (List.mem_singleton_self _))
    · exact List.mem_cons_of_mem _ (List.mem_cons_of_mem _ (List.mem_singleton_self _))

end HybridVault
