import HybridVault.Foundations.FirstFit
import HybridVault.Oracles
import HybridVault.Devnet

/-!
# Who chooses the oracle

Two questions about `commit_for_request`, with the whole ledger and the caller's
accounts left open.

**The caller does not choose.**  The walk over the queue's keys is a first-fit
selection (`Foundations.firstFit`) in which the caller supplies the evidence for
refusals and the ledger decides what counts as evidence.  Since the oracle taken
must be live, and a live oracle cannot be proven stale, any two calls that pass
take the same oracle (`oracle_choice_unique`).

**When a live oracle can be reached.**  A key in front of the first live unused
one can be passed over only if its account proves it stale, and an account that
is not a Switchboard oracle account — closed, foreign, too short — proves
nothing.  So a commit is possible exactly if every unused key the walk meets
before the first live one belongs to an oracle account
(`oracleChecks_possible_iff`).  The program's own comment promises more, that
dead oracles can always be skipped; `dead_oracle_blocks_live_one` is a queue where
they cannot.
-/

namespace HybridVault

open Foundations

variable {D : Deployment}

/-! ## The walk is a first-fit selection -/

theorem addU64_eq {a b : ℕ} (h : a + b < u64Size) : addU64 a b = .ok (a + b) := by
  simp [addU64, h]

theorem walkOracles_eq {body : Bytes} {len start base : ℕ} {used stale : List Pubkey}
    (hbody : body.length = D.queueLayout.size) (hlen : len ≤ maxListedOracles)
    (hstart : start < len) (hbase : base % len = start) (steps : List ℕ)
    (hsteps : ∀ s ∈ steps, s < len) :
    walkOracles body D.queueLayout.oracleKeys len start used stale steps
      = expect (firstFit (isCandidate used)
          (steps.map fun step =>
            Pubkey.raw (walkKeys.listedKey D body ((base + step) % len))) stale)
          (.vault .NoFreshOracle) := by
  have hlen' : len ≤ 78 := hlen
  have hkeys := D.queueLayout.oracleKeys_le
  simp only [maxListedOracles] at hkeys
  induction steps with
  | nil => rfl
  | cons step rest ih =>
      have hstep := hsteps step (List.mem_cons_self ..)
      have hidx : (base + step) % len = (start + step) % len := by
        rw [Nat.add_mod, hbase, Nat.mod_eq_of_lt hstep]
      have hi := Nat.mod_lt (start + step) (by omega : 0 < len)
      have hwindow : D.queueLayout.oracleKeys + 32 * ((start + step) % len) + 32 ≤ body.length := by
        omega
      have hkey : rdKey body (D.queueLayout.oracleKeys + 32 * ((start + step) % len))
          = .ok (walkKeys.listedKey D body ((base + step) % len)) := by
        rw [rdKey_eq hwindow, hidx, walkKeys.listedKey, dif_pos (length_slice hwindow)]
      have hadd : addU64 start step = .ok (start + step) :=
        addU64_eq (by simp only [u64Size]; omega)
      simp only [walkOracles, hadd, ok_bind, hkey,
        ih fun s hs => hsteps s (List.mem_cons_of_mem _ hs), List.map_cons, firstFit,
        List.find?_cons]
      generalize Pubkey.raw (walkKeys.listedKey D body ((base + step) % len)) = k
      by_cases hk : k ≠ Pubkey.default ∧ k ∉ used ∧ k ∉ stale
      · have hfit : (isCandidate used k && !decide (k ∈ stale)) = true := by
          simpa [isCandidate, and_assoc] using hk
        rw [if_pos hk, hfit]
        rfl
      · have hfit : (isCandidate used k && !decide (k ∈ stale)) = false := by
          simpa [isCandidate, and_assoc] using hk
        rw [if_neg hk, hfit]

/-- **Selection is first fit** over the cyclic walk, where the queue account has
the right shape. -/
theorem selectOracleIn_eq {data : Bytes} (hq : QueueAccepted D data) {seq : ℕ}
    {used stale : List Pubkey} (hused : used.length ≤ maxKeySliceLen) :
    selectOracleIn D data seq used stale
      = expect (firstFit (isCandidate used) (walkKeys D data seq used.length) stale)
          (.vault .NoFreshOracle) := by
  have hbody : (slice data 8 D.queueLayout.size).length = D.queueLayout.size :=
    length_slice hq.size_le
  have hlenoff := D.queueLayout.oracleKeysLen_le
  have hcurroff := D.queueLayout.currIdx_le
  have hpos := hq.len_pos
  have hle := hq.len_le
  obtain ⟨body, hb⟩ : ∃ b, b = slice data 8 D.queueLayout.size := ⟨_, rfl⟩
  obtain ⟨len, hl⟩ : ∃ n, n = readLE body D.queueLayout.oracleKeysLen 4 := ⟨_, rfl⟩
  obtain ⟨curr, hc⟩ : ∃ n, n = readLE body D.queueLayout.currIdx 4 := ⟨_, rfl⟩
  rw [← hb] at hbody hpos hle
  rw [← hl] at hpos hle
  have hcm := Nat.mod_lt curr hpos
  have hsm := Nat.mod_lt (oracleSpread D seq) hpos
  have hsum : curr % len + oracleSpread D seq % len + used.length < u64Size := by
    simp only [maxListedOracles, maxKeySliceLen, u64Size] at *
    omega
  have hbase : (curr + oracleSpread D seq + used.length) % len
      = (curr % len + oracleSpread D seq % len + used.length) % len := by
    simp [Nat.add_mod]
  have hsum' : curr % len + oracleSpread D seq % len < u64Size := by omega
  have hrdlen : rdU32 body D.queueLayout.oracleKeysLen = .ok len := by rw [rdU32_eq (by omega), hl]
  have hrdcurr : rdU32 body D.queueLayout.currIdx = .ok curr := by rw [rdU32_eq (by omega), hc]
  simp only [selectOracleIn, walkKeys, ← hb, ← hl, ← hc,
    require_of (And.intro hq.size_le hq.discriminator), hrdlen, hrdcurr,
    require_of (And.intro hpos hle), addU64_eq hsum', addU64_eq hsum, ok_bind]
  exact walkOracles_eq hbody hle (Nat.mod_lt _ hpos) hbase _ fun s hs => List.mem_range.mp hs

/-- Without the right shape, selection fails with an error of its own. -/
theorem selectOracleIn_of_not_accepted {data : Bytes} (hq : ¬ QueueAccepted D data) (seq : ℕ)
    (used stale : List Pubkey) :
    selectOracleIn D data seq used stale = .error (.vault .WrongQueue) ∨
      selectOracleIn D data seq used stale = .error (.vault .NoFreshOracle) := by
  have hlenoff := D.queueLayout.oracleKeysLen_le
  have hcurroff := D.queueLayout.currIdx_le
  by_cases hshape : 8 + D.queueLayout.size ≤ data.length ∧
      slice data 0 8 = D.queueLayout.discriminator
  · have hbody : (slice data 8 D.queueLayout.size).length = D.queueLayout.size :=
      length_slice hshape.1
    have hlen : ¬ (0 < readLE (slice data 8 D.queueLayout.size) D.queueLayout.oracleKeysLen 4 ∧
        readLE (slice data 8 D.queueLayout.size) D.queueLayout.oracleKeysLen 4
          ≤ maxListedOracles) :=
      fun h => hq ⟨hshape.1, hshape.2, h.1, h.2⟩
    right
    have hrdlen := rdU32_eq (d := slice data 8 D.queueLayout.size)
      (o := D.queueLayout.oracleKeysLen) (by omega)
    have hrdcurr := rdU32_eq (d := slice data 8 D.queueLayout.size)
      (o := D.queueLayout.currIdx) (by omega)
    simp only [selectOracleIn, require_of hshape, hrdlen, hrdcurr, require_of_not hlen, ok_bind,
      error_bind]
  · left
    simp only [selectOracleIn, require_of_not hshape, error_bind]

/-! ## The oracle checks -/

/-- **What passing the oracle checks means.** -/
theorem oracleChecks_eq_ok_iff {accounts : RawAccounts} {pinnedQueue queue oracle : Pubkey}
    {seq : ℕ} {used proofs : List Pubkey} {now : ℤ} (hused : used.length ≤ maxKeySliceLen) :
    oracleChecks D accounts pinnedQueue queue oracle seq used proofs now = .ok () ↔
      queue = pinnedQueue ∧ (accounts queue).owner = .switchboard ∧
        QueueAccepted D (accounts queue).data ∧
        firstFit (isCandidate used) (walkKeys D (accounts queue).data seq used.length)
          (proofs.filter fun a => isStale D now (accounts a)) = some oracle ∧
        isLive D now (accounts oracle) := by
  have hlive : isLive D now (accounts oracle) ↔
      ∃ hb, heartbeatOf D (accounts oracle) = some hb ∧ heartbeatIsFresh hb now = true := by
    cases h : heartbeatOf D (accounts oracle) <;> simp [isLive, h]
  simp only [oracleChecks, selectOracle, bind_eq_ok_iff, require_eq_ok_iff, staleKeys_eq,
    Except.ok.injEq, exists_eq_left', oracleLastHeartbeat_eq, expect_eq_ok_iff, hlive]
  constructor
  · rintro ⟨-, hqueue, chosen, ⟨-, howner, hsel⟩, -, rfl, hb, hheart, hfresh⟩
    have hq : QueueAccepted D (accounts queue).data := by
      by_contra hq
      rcases selectOracleIn_of_not_accepted hq seq used
        (proofs.filter fun a => isStale D now (accounts a)) with h | h <;>
      simp [h] at hsel
    rw [selectOracleIn_eq hq hused, expect_eq_ok_iff] at hsel
    exact ⟨hqueue, howner, hq, hsel, hb, hheart, hfresh⟩
  · rintro ⟨hqueue, howner, hq, hsel, hb, hheart, hfresh⟩
    refine ⟨(), hqueue, oracle, ⟨(), howner, ?_⟩, (), rfl, hb, hheart, hfresh⟩
    rw [selectOracleIn_eq hq hused, expect_eq_ok_iff]
    exact hsel

/-- No read of the oracle checks leaves its buffer and no sum of them overflows. -/
theorem oracleChecks_ne_panic {accounts : RawAccounts} {pinnedQueue queue oracle : Pubkey}
    {seq : ℕ} {used proofs : List Pubkey} {now : ℤ} (hused : used.length ≤ maxKeySliceLen) :
    oracleChecks D accounts pinnedQueue queue oracle seq used proofs now ≠ .error .panic := by
  have hsel : selectOracle D accounts queue seq used proofs now ≠ .error .panic := by
    simp only [selectOracle, staleKeys_eq, ok_bind]
    by_cases howner : (accounts queue).owner = .switchboard
    · simp only [require_of howner, ok_bind]
      by_cases hq : QueueAccepted D (accounts queue).data
      · rw [selectOracleIn_eq hq hused]
        cases firstFit (isCandidate used) (walkKeys D (accounts queue).data seq used.length)
          (proofs.filter fun a => isStale D now (accounts a)) <;> simp [expect]
      · rcases selectOracleIn_of_not_accepted hq seq used
          (proofs.filter fun a => isStale D now (accounts a)) with h | h <;> simp [h]
    · simp [require_of_not howner, error_bind]
  by_cases hqueue : queue = pinnedQueue
  · simp only [oracleChecks, require_of hqueue, ok_bind]
    cases hchosen : selectOracle D accounts queue seq used proofs now with
    | error f =>
        rw [hchosen] at hsel
        simpa [error_bind] using hsel
    | ok chosen =>
        rw [ok_bind]
        by_cases horacle : oracle = chosen
        · simp only [require_of horacle, ok_bind, oracleLastHeartbeat_eq]
          cases heartbeatOf D (accounts oracle) with
          | none => simp [expect, error_bind]
          | some hb => by_cases hfresh : heartbeatIsFresh hb now = true <;>
              simp [expect, ok_bind, require, hfresh]
        · simp [require_of_not horacle, error_bind]
  · simp [oracleChecks, require_of_not hqueue, error_bind]

/-! ## The caller does not choose -/

/-- The first key of the walk that is a candidate and that no account can prove
stale. -/
def firstUnskippable (D : Deployment) (accounts : RawAccounts) (data : Bytes) (seq : ℕ)
    (used : List Pubkey) (now : ℤ) : Option Pubkey :=
  (walkKeys D data seq used.length).find? fun k =>
    isCandidate used k && !isStale D now (accounts k)

theorem firstUnskippable_of_oracleChecks {accounts : RawAccounts}
    {pinnedQueue queue oracle : Pubkey} {seq : ℕ} {used proofs : List Pubkey} {now : ℤ}
    (hused : used.length ≤ maxKeySliceLen)
    (h : oracleChecks D accounts pinnedQueue queue oracle seq used proofs now = .ok ()) :
    firstUnskippable D accounts (accounts pinnedQueue).data seq used now = some oracle ∧
      isLive D now (accounts oracle) := by
  obtain ⟨rfl, -, -, hfit, hlive⟩ := (oracleChecks_eq_ok_iff hused).mp h
  refine ⟨?_, hlive⟩
  exact firstFit_eq_find? (fun k => isStale D now (accounts k))
    (fun x hx => (List.mem_filter.mp hx).2) hfit (not_isStale_of_isLive hlive)

/-- **The caller never chooses the oracle.**  On one ledger, for one queue, vault,
sequence number, used list and clock, whatever accounts are passed: no read
leaves its buffer and no sum overflows; and any two calls that pass the oracle
checks use the same oracle, which is live and is the first key of the cyclic walk
that is not zero, not used and not provably stale, so that the walk passes over no
live unused oracle. -/
theorem oracle_choice_unique (D : Deployment) (accounts : RawAccounts) (pinnedQueue : Pubkey)
    (seq : ℕ) (used : List Pubkey) (now : ℤ) (hused : used.length ≤ maxKeySliceLen) :
    (∀ queue oracle proofs,
        oracleChecks D accounts pinnedQueue queue oracle seq used proofs now ≠ .error .panic) ∧
      ∀ queue₁ oracle₁ proofs₁ queue₂ oracle₂ proofs₂,
        oracleChecks D accounts pinnedQueue queue₁ oracle₁ seq used proofs₁ now = .ok () →
        oracleChecks D accounts pinnedQueue queue₂ oracle₂ seq used proofs₂ now = .ok () →
        oracle₁ = oracle₂ ∧
          firstUnskippable D accounts (accounts pinnedQueue).data seq used now = some oracle₁ ∧
          isLive D now (accounts oracle₁) ∧
          ∀ k ∈ (walkKeys D (accounts pinnedQueue).data seq used.length).takeWhile (· ≠ oracle₁),
            isCandidate used k → ¬ isLive D now (accounts k) := by
  refine ⟨fun _ _ _ => oracleChecks_ne_panic hused, ?_⟩
  intro queue₁ oracle₁ proofs₁ queue₂ oracle₂ proofs₂ h₁ h₂
  obtain ⟨hfirst₁, hlive₁⟩ := firstUnskippable_of_oracleChecks hused h₁
  obtain ⟨hfirst₂, -⟩ := firstUnskippable_of_oracleChecks hused h₂
  refine ⟨Option.some.inj (hfirst₁.symm.trans hfirst₂), hfirst₁, hlive₁, ?_⟩
  intro k hk hcand hlive
  -- a live candidate in front would have been found first
  have hskip := takeWhile_not_of_find? hfirst₁ hk
  simp [hcand, not_isStale_of_isLive hlive] at hskip

/-- A queue of two oracles. -/
def twoOraclesQueue : Bytes := queueData [Bytes32.fill 22, Bytes32.fill 21]

/-- An oracle that is live at time 1000000. -/
def freshOracle : RawAccount := ⟨.switchboard, oracleData oracleAccountDiscriminator 1_000_000⟩

/-- The account of the first oracle in the walk of request 0 is `first`; the
second is live. -/
def twoOracles (first : RawAccount) : RawAccounts := fun k =>
  if k = .raw (Bytes32.fill 20) then
    ⟨.switchboard, twoOraclesQueue⟩
  else if k = .raw (Bytes32.fill 21) then first
  else if k = .raw (Bytes32.fill 22) then freshOracle
  else RawAccount.empty

/-- An oracle that stopped two hours ago. -/
def stoppedOracle : RawAccount :=
  ⟨.switchboard, oracleData oracleAccountDiscriminator 992_800⟩

set_option maxRecDepth 20000 in
theorem oracle_choice_unique_two :
    ∃ oracle, ∀ oracle' proofs,
      oracleChecks smallVault (twoOracles stoppedOracle) (.raw (Bytes32.fill 20))
          (.raw (Bytes32.fill 20)) oracle' 0 [] proofs 1_000_000 = .ok () → oracle' = oracle :=
  ⟨.raw (Bytes32.fill 22), fun oracle' proofs h =>
    ((oracle_choice_unique smallVault (twoOracles stoppedOracle) (.raw (Bytes32.fill 20)) 0 []
      1_000_000 (by decide)).2 (.raw (Bytes32.fill 20)) oracle' proofs (.raw (Bytes32.fill 20))
      (.raw (Bytes32.fill 22)) [.raw (Bytes32.fill 21)] h (by decide +kernel)).1⟩

/-! ## When a live oracle can be reached -/

/-- The keys a queue lists, in the order of the account. -/
def listedKeys (D : Deployment) (data : Bytes) : List Pubkey :=
  let body := slice data 8 D.queueLayout.size
  (List.range (readLE body D.queueLayout.oracleKeysLen 4)).map fun i =>
    .raw (walkKeys.listedKey D body i)

/-- The walk goes once around the list. -/
theorem mem_walkKeys_iff {data : Bytes} {seq usedLen : ℕ} {k : Pubkey} :
    k ∈ walkKeys D data seq usedLen ↔ k ∈ listedKeys D data := by
  simp only [walkKeys, listedKeys, List.mem_map, List.mem_range]
  generalize readLE (slice data 8 D.queueLayout.size) D.queueLayout.currIdx 4
    + oracleSpread D seq + usedLen = base
  generalize readLE (slice data 8 D.queueLayout.size) D.queueLayout.oracleKeysLen 4 = len
  constructor
  · rintro ⟨step, hstep, rfl⟩
    exact ⟨_, Nat.mod_lt _ (by omega), rfl⟩
  · rintro ⟨i, hi, rfl⟩
    -- the step from the walk's start to position `i`
    have hstart := Nat.mod_lt base (by omega : 0 < len)
    refine ⟨(i + (len - base % len)) % len, Nat.mod_lt _ (by omega), ?_⟩
    have hsplit : base + (i + (len - base % len)) = i + len * (base / len + 1) := by
      have := Nat.div_add_mod base len
      rw [Nat.mul_add]
      omega
    rw [Nat.add_mod_mod, hsplit, Nat.add_mul_mod_self_left, Nat.mod_eq_of_lt hi]

/-- Some proofs and some oracle pass exactly if the first key that cannot be passed over
is live. -/
theorem exists_oracleChecks_iff {accounts : RawAccounts} {queue : Pubkey} {seq : ℕ}
    {used : List Pubkey} {now : ℤ} (hused : used.length ≤ maxKeySliceLen) :
    (∃ proofs oracle, oracleChecks D accounts queue queue oracle seq used proofs now = .ok ()) ↔
      (accounts queue).owner = .switchboard ∧ QueueAccepted D (accounts queue).data ∧
        ∃ k, firstUnskippable D accounts (accounts queue).data seq used now = some k ∧
          isLive D now (accounts k) := by
  rw [firstUnskippable, ← exists_evidence_iff fun k => not_isStale_of_isLive]
  simp only [oracleChecks_eq_ok_iff hused, true_and]
  -- a choice of proofs is a choice of evidence
  constructor
  · rintro ⟨proofs, oracle, howner, hq, hfit, hlive⟩
    exact ⟨howner, hq, _, fun k hk => (List.mem_filter.mp hk).2, oracle, hfit, hlive⟩
  · rintro ⟨howner, hq, evidence, hstale, oracle, hfit, hlive⟩
    refine ⟨evidence, oracle, howner, hq, ?_, hlive⟩
    rwa [List.filter_eq_self.mpr hstale]

/-- Where a live unused oracle is listed, the first key that cannot be passed over is
live exactly if every candidate before the first live one is an oracle account. -/
theorem firstUnskippable_live_iff {accounts : RawAccounts} {data : Bytes} {seq : ℕ}
    {used : List Pubkey} {now : ℤ}
    (hlive : ∃ k ∈ listedKeys D data, isCandidate used k ∧ isLive D now (accounts k)) :
    (∃ k, firstUnskippable D accounts data seq used now = some k ∧ isLive D now (accounts k)) ↔
      ∀ k ∈ (walkKeys D data seq used.length).takeWhile
          (fun k => !(isCandidate used k && isLive D now (accounts k))),
        isCandidate used k → (heartbeatOf D (accounts k)).isSome := by
  have hwalk : ∃ k ∈ walkKeys D data seq used.length,
      isCandidate used k ∧ isLive D now (accounts k) := by
    obtain ⟨k, hk, hgood⟩ := hlive
    exact ⟨k, mem_walkKeys_iff.mpr hk, hgood⟩
  rw [firstUnskippable, find?_live_iff (fun k => not_isStale_of_isLive) hwalk]
  refine forall_congr' fun k => imp_congr_right fun hk => imp_congr_right ?_
  intro hcand
  have hdead : ¬ isLive D now (accounts k) := by
    have := List.mem_takeWhile_imp hk
    simpa [hcand] using this
  constructor
  · intro hstale
    by_contra hnone
    simp [isStale, Option.not_isSome_iff_eq_none.mp hnone] at hstale
  · intro hsome
    by_contra hstale
    exact hdead ((isLive_iff_of_isSome hsome).mpr hstale)

/-- **A live oracle can be reached**: the queue account has the right shape, lists a live
unused oracle, and every unused key the walk meets before the first such one belongs to
an oracle account. -/
structure OracleReachable (D : Deployment) (accounts : RawAccounts) (queue : Pubkey) (seq : ℕ)
    (used : List Pubkey) (now : ℤ) : Prop where
  owner : (accounts queue).owner = .switchboard
  accepted : QueueAccepted D (accounts queue).data
  live : ∃ k ∈ listedKeys D (accounts queue).data, isCandidate used k ∧ isLive D now (accounts k)
  skippable : ∀ k ∈ (walkKeys D (accounts queue).data seq used.length).takeWhile
      (fun k => !(isCandidate used k && isLive D now (accounts k))),
    isCandidate used k → (heartbeatOf D (accounts k)).isSome

theorem exists_oracleChecks_iff_reachable {accounts : RawAccounts} {queue : Pubkey} {seq : ℕ}
    {used : List Pubkey} {now : ℤ} (hused : used.length ≤ maxKeySliceLen) :
    (∃ proofs oracle, oracleChecks D accounts queue queue oracle seq used proofs now = .ok ()) ↔
      OracleReachable D accounts queue seq used now := by
  rw [exists_oracleChecks_iff hused]
  constructor
  · rintro ⟨howner, hq, k, hfirst, hlive⟩
    have hk := List.mem_of_find?_eq_some hfirst
    have hcand := List.find?_some hfirst
    simp only [Bool.and_eq_true] at hcand
    have hlisted : ∃ k ∈ listedKeys D (accounts queue).data,
        isCandidate used k ∧ isLive D now (accounts k) :=
      ⟨k, mem_walkKeys_iff.mp hk, hcand.1, hlive⟩
    exact ⟨howner, hq, hlisted, (firstUnskippable_live_iff hlisted).mp ⟨k, hfirst, hlive⟩⟩
  · rintro ⟨howner, hq, hlisted, hskip⟩
    exact ⟨howner, hq, (firstUnskippable_live_iff hlisted).mpr hskip⟩

/-- **When dead oracles can be skipped.**  Where the queue account has the right
shape and lists a live unused oracle, some proofs and some oracle pass the oracle
checks exactly if every candidate the walk meets before the first live one is an
oracle account. -/
theorem oracleChecks_possible_iff (D : Deployment) (accounts : RawAccounts) (queue : Pubkey)
    (seq : ℕ) (used : List Pubkey) (now : ℤ) (hused : used.length ≤ maxKeySliceLen)
    (howner : (accounts queue).owner = .switchboard)
    (hq : QueueAccepted D (accounts queue).data)
    (hlive : ∃ k ∈ listedKeys D (accounts queue).data,
      isCandidate used k ∧ isLive D now (accounts k)) :
    (∃ proofs oracle,
        oracleChecks D accounts queue queue oracle seq used proofs now = .ok ()) ↔
      ∀ k ∈ (walkKeys D (accounts queue).data seq used.length).takeWhile
          (fun k => !(isCandidate used k && isLive D now (accounts k))),
        isCandidate used k → (heartbeatOf D (accounts k)).isSome := by
  rw [exists_oracleChecks_iff hused, ← firstUnskippable_live_iff hlive]
  exact ⟨fun h => h.2.2, fun h => ⟨howner, hq, h⟩⟩

set_option maxRecDepth 20000 in
theorem twoOraclesQueue_accepted : QueueAccepted smallVault twoOraclesQueue :=
  ⟨by decide +kernel, by decide +kernel, by decide +kernel, by decide +kernel⟩

set_option maxRecDepth 20000 in
theorem listedKeys_twoOraclesQueue :
    listedKeys smallVault twoOraclesQueue = [.raw (Bytes32.fill 22), .raw (Bytes32.fill 21)] := by
  decide +kernel

theorem mem_listedKeys_twoOraclesQueue :
    .raw (Bytes32.fill 22) ∈ listedKeys smallVault twoOraclesQueue := by
  simp [listedKeys_twoOraclesQueue]

set_option maxRecDepth 20000 in
theorem oracleChecks_possible_two :
    ∃ proofs oracle, oracleChecks smallVault (twoOracles stoppedOracle)
      (.raw (Bytes32.fill 20)) (.raw (Bytes32.fill 20)) oracle 0 [] proofs 1_000_000 = .ok () :=
  (oracleChecks_possible_iff smallVault (twoOracles stoppedOracle) (.raw (Bytes32.fill 20)) 0 []
    1_000_000 (by decide) (by decide)
    twoOraclesQueue_accepted
    ⟨.raw (Bytes32.fill 22), mem_listedKeys_twoOraclesQueue, by decide +kernel,
      by decide +kernel⟩).mpr
    (by decide +kernel)

set_option maxRecDepth 20000 in
/-- A closed account in front of a live oracle: the queue has the right shape and
lists a live unused oracle, and no proofs and no oracle pass. -/
theorem dead_oracle_blocks_live_one :
    QueueAccepted smallVault (twoOracles .empty (.raw (Bytes32.fill 20))).data ∧
      (twoOracles .empty (.raw (Bytes32.fill 20))).owner = .switchboard ∧
      .raw (Bytes32.fill 22) ∈ listedKeys smallVault
        (twoOracles .empty (.raw (Bytes32.fill 20))).data ∧
      isCandidate [] (.raw (Bytes32.fill 22)) ∧
      isLive smallVault 1_000_000 (twoOracles .empty (.raw (Bytes32.fill 22))) ∧
      ¬ ∃ proofs oracle, oracleChecks smallVault (twoOracles .empty) (.raw (Bytes32.fill 20))
        (.raw (Bytes32.fill 20)) oracle 0 [] proofs 1_000_000 = .ok () := by
  refine ⟨twoOraclesQueue_accepted, by decide, mem_listedKeys_twoOraclesQueue, by decide +kernel,
    by decide +kernel, ?_⟩
  rintro ⟨proofs, oracle, h⟩
  obtain ⟨hfirst, hlive⟩ := firstUnskippable_of_oracleChecks (by decide) h
  have hclosed : firstUnskippable smallVault (twoOracles .empty)
      (twoOracles .empty (.raw (Bytes32.fill 20))).data 0 [] 1_000_000
        = some (.raw (Bytes32.fill 21)) := by decide +kernel
  obtain rfl : oracle = .raw (Bytes32.fill 21) := Option.some.inj (hfirst.symm.trans hclosed)
  exact absurd hlive (by decide +kernel)

end HybridVault
