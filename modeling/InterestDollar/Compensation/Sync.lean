import InterestDollar.Compensation.Payout
import Mathlib.Algebra.BigOperators.Group.Finset.Basic

/-!
# The script that brings the claims in line with a file

The adjuster's script compares what each account of a file can claim with the amount of the
file, uploads the amounts that differ in batches, and compares once more. Each of the accounts
then has the claim of the file and nobody else's claim has changed. The script reports success
exactly where no account outside the file has a claim, which it cannot set back itself.
-/

namespace InterestDollar

open Checked Transition

namespace Compensation

/-- A line of the file. -/
structure Account where
  address : Address
  amount : ℕ
  deriving DecidableEq

/-- What `verify` returns. -/
structure Results where
  isCorrect : Bool
  actualTotal : ℕ
  incorrect : List Account
  correct : List Account

/-- What `compensationSync` ends with. -/
inductive Report
  | verified
  | notDoIt
  | totalOff
  | totalsDoNotMatch
  | uploaded
  deriving DecidableEq

def batchSize : ℕ := 100

def total (accounts : List Account) : ℕ :=
  accounts.foldl (fun t account => t + account.amount) 0

/-- One round of the loop of `splitIntoBatches`, over the full batches and the one that is being
filled. A key of an array is the index of an account. -/
def addToBatches (batchSize : ℕ) (st : List (List Account) × Option (List Account))
    (entry : Account × ℕ) : List (List Account) × Option (List Account) :=
  let (account, i) := entry
  let (batches, batch) := if i % batchSize = 0 then (st.1 ++ st.2.toList, some []) else st
  (batches, batch.map (· ++ [account]))

def splitIntoBatches (accounts : List Account) (batchSize : ℕ) : List (List Account) :=
  let (batches, batch) := accounts.zipIdx.foldl (addToBatches batchSize) ([], none)
  batches ++ batch.toList

namespace State

variable {τ : Type}

/-- One round of the loop of `verify`. -/
def verifyAccount (s : State τ) (results : Results) (account : Account) : Results :=
  if s.claims account.address = account.amount then
    { results with correct := results.correct ++ [account] }
  else
    { results with isCorrect := false, incorrect := results.incorrect ++ [account] }

def verify (s : State τ) (expectedAccounts : List Account) : Results :=
  let results := expectedAccounts.foldl s.verifyAccount ⟨true, s.totalClaims, [], []⟩
  if total expectedAccounts ≠ results.actualTotal then { results with isCorrect := false }
  else results

def uploadAccounts (s : State τ) (signer : Address) (accounts : List Account) :
    Except Revert (State τ) :=
  s.setClaims signer (accounts.map Account.address) (accounts.map Account.amount)

/-- The script, from the reading of its file on. -/
def compensationSync (s : State τ) (expected : List Account) (doIt : Bool) (signer : Address) :
    Except Revert (Report × State τ) := do
  let results := s.verify expected
  if results.isCorrect then return (.verified, s)
  if !doIt then return (.notDoIt, s)
  if results.incorrect.length = 0 then return (.totalOff, s)
  let batches := splitIntoBatches results.incorrect batchSize
  let s ← batches.foldlM (fun s batch => s.uploadAccounts signer batch) s
  let afterResults := s.verify expected
  if !afterResults.isCorrect then return (.totalsDoNotMatch, s)
  return (.uploaded, s)

end State

/-! ## The parts of the script -/

theorem total_eq_sum (accounts : List Account) :
    total accounts = (accounts.map Account.amount).sum := by
  unfold total
  rw [List.sum_eq_foldl, List.foldl_map]

section Batches

variable {accounts : List Account} {n : ℕ}

/-- A round adds its account to the batches, and from the first round on there is one that is
being filled. -/
theorem addToBatches_flatten {st : List (List Account) × Option (List Account)} {i : ℕ}
    (account : Account) (h : st.2 = none → i = 0) :
    ((addToBatches n st (account, i)).1 ++ (addToBatches n st (account, i)).2.toList).flatten =
        (st.1 ++ st.2.toList).flatten ++ [account] ∧
      (addToBatches n st (account, i)).2 ≠ none := by
  obtain ⟨batches, batch⟩ := st
  by_cases hfull : i % n = 0
  · simp [addToBatches, hfull]
  · cases batch with
    | none => exact absurd (by simp [h rfl]) hfull
    | some batch => simp [addToBatches, hfull]

/-- No account is left out, and none is uploaded twice. -/
theorem splitIntoBatches_flatten : (splitIntoBatches accounts n).flatten = accounts := by
  have hloop (rest : List Account) : ∀ (i : ℕ) (st : List (List Account) × Option (List Account)),
      (st.2 = none → i = 0) →
        let out := (rest.zipIdx i).foldl (addToBatches n) st
        (out.1 ++ out.2.toList).flatten = (st.1 ++ st.2.toList).flatten ++ rest := by
    induction rest with
    | nil => simp
    | cons account rest ih =>
        intro i st hst
        obtain ⟨hadded, hsome⟩ := addToBatches_flatten account hst
        have hrest := ih (i + 1) (addToBatches n st (account, i)) fun hnone => absurd hnone hsome
        simp only [List.zipIdx_cons, List.foldl_cons]
        rw [hrest, hadded, List.append_assoc, List.singleton_append]
  simpa [splitIntoBatches] using hloop accounts 0 ([], none) fun _ => rfl

end Batches

namespace State

variable {τ : Type} {s s' : State τ} {accounts batch : List Account} {signer : Address}

/-- What the accounts of a file can claim is what the file says. -/
def Matches (s : State τ) (accounts : List Account) : Prop :=
  ∀ account ∈ accounts, s.claims account.address = account.amount

instance (s : State τ) (accounts : List Account) : Decidable (s.Matches accounts) :=
  inferInstanceAs (Decidable (∀ account ∈ accounts, _ = _))

@[simp] theorem matches_nil : s.Matches [] := fun _ h => nomatch h

@[simp] theorem matches_cons {account : Account} : s.Matches (account :: accounts) ↔
    s.claims account.address = account.amount ∧ s.Matches accounts := List.forall_mem_cons

theorem foldl_verifyAccount (results : Results) :
    accounts.foldl s.verifyAccount results =
      { isCorrect := results.isCorrect && decide (s.Matches accounts)
        actualTotal := results.actualTotal
        incorrect := results.incorrect ++
          accounts.filter fun account => s.claims account.address ≠ account.amount
        correct := results.correct ++
          accounts.filter fun account => s.claims account.address = account.amount } := by
  induction accounts generalizing results with
  | nil => simp
  | cons account accounts ih =>
      rw [List.foldl_cons, ih]
      by_cases hsame : s.claims account.address = account.amount
      · simp [verifyAccount, hsame]
      · simp [verifyAccount, hsame]

theorem verify_eq : s.verify accounts =
    { isCorrect := decide (s.Matches accounts ∧ total accounts = s.totalClaims)
      actualTotal := s.totalClaims
      incorrect := accounts.filter fun account => s.claims account.address ≠ account.amount
      correct := accounts.filter fun account => s.claims account.address = account.amount } := by
  by_cases htotal : total accounts = s.totalClaims
  · simp [verify, foldl_verifyAccount, htotal]
  · simp [verify, foldl_verifyAccount, htotal]

/-- The conditions of `setClaims` on the contract and the caller. -/
structure Adjustable (s : State τ) (signer : Address) : Prop where
  ended : s.periodEnd < s.now
  unlocked : s.isAdjusterLocked = false
  adjuster : signer = s.adjuster

theorem uploadAccounts_eq (h : s.Adjustable signer) :
    s.uploadAccounts signer batch =
      (batch.map fun account => (account.address, account.amount)).foldlM setClaim s := by
  have hzip : (batch.map Account.address).zip (batch.map Account.amount) =
      batch.map fun account => (account.address, account.amount) := by
    rw [List.zip_map']
  simp [uploadAccounts, setClaims, notInClaimPeriod, onlyUnlockedAdjuster, h.ended, h.unlocked,
    h.adjuster, hzip, require, guardWith, bind, Except.bind]

/-- The claims of the accounts are set one after the other. -/
structure Uploaded (s : State τ) (accounts : List Account) (s' : State τ) : Prop where
  total : s'.totalClaims = ∑ a, s'.claims a
  frame : s' = { s with claims := s'.claims, totalClaims := s'.totalClaims }
  others : ∀ a, (∀ account ∈ accounts, account.address ≠ a) → s'.claims a = s.claims a
  set : (accounts.map Account.address).Nodup → s'.Matches accounts

theorem setClaim_succeeds {account : Account} (htotal : s.totalClaims = ∑ a, s.claims a)
    (hfits : s.totalClaims + account.amount < wordBound) :
    ∃ s', s.setClaim (account.address, account.amount) = .ok s' ∧
      s'.totalClaims ≤ s.totalClaims + account.amount ∧
        s'.claims = Function.update s.claims account.address account.amount := by
  have hle : s.claims account.address ≤ s.totalClaims + account.amount := by
    rw [htotal]
    exact (Finset.single_le_sum (fun a _ => Nat.zero_le (s.claims a))
      (Finset.mem_univ account.address)).trans (Nat.le_add_right _ _)
  refine ⟨{ s with
    claims := Function.update s.claims account.address account.amount
    totalClaims := s.totalClaims + account.amount - s.claims account.address }, ?_, ?_, rfl⟩
  · simp [setClaim, SafeMath.add_eq_ok.mpr ⟨hfits, rfl⟩, SafeMath.sub_eq_ok.mpr ⟨hle, rfl⟩, bind,
      Except.bind, pure, Except.pure]
  · exact Nat.sub_le _ _

theorem foldlM_setClaim_succeeds (htotal : s.totalClaims = ∑ a, s.claims a)
    (hfits : s.totalClaims + (accounts.map Account.amount).sum < wordBound) :
    ∃ s', (accounts.map fun account => (account.address, account.amount)).foldlM setClaim s =
      .ok s' ∧ Uploaded s accounts s' := by
  induction accounts generalizing s with
  | nil => exact ⟨s, rfl, htotal, rfl, fun _ _ => rfl, fun _ account h => by cases h⟩
  | cons account accounts ih =>
      rw [List.map_cons, List.sum_cons] at hfits
      have hfirst : s.totalClaims + account.amount < wordBound := by omega
      obtain ⟨t, ht, hle, hclaims⟩ := setClaim_succeeds htotal hfirst
      obtain ⟨hsum, hframe⟩ := setClaim_eq_ok ht
      obtain ⟨s', hs', hrest⟩ := ih (hsum htotal) (by omega)
      refine ⟨s', ?_, hrest.total, ?_, fun a ha => ?_, fun hnodup => ?_⟩
      · simp only [List.map_cons, List.foldlM_cons]
        exact bind_eq_ok.mpr ⟨t, ht, hs'⟩
      · rw [hrest.frame, hframe]
      · obtain ⟨hfirst, hothers⟩ := List.forall_mem_cons.mp ha
        rw [hrest.others a hothers, hclaims, Function.update_of_ne hfirst.symm]
      · obtain ⟨hnew, hnodup⟩ := List.nodup_cons.mp hnodup
        refine List.forall_mem_cons.mpr ⟨?_, hrest.set hnodup⟩
        -- none of the accounts after it has its address
        rw [hrest.others account.address, hclaims, Function.update_self]
        exact fun other hother heq => hnew (heq ▸ List.mem_map_of_mem hother)

theorem uploadAccounts_adjustable (h : s.Adjustable signer)
    (hs : s.uploadAccounts signer batch = .ok s') : s'.Adjustable signer := by
  obtain ⟨-, -, hframe⟩ := setClaims_eq_ok hs
  rw [hframe]
  exact ⟨h.ended, h.unlocked, h.adjuster⟩

/-- The batches set the claims as one upload would. -/
theorem foldlM_uploadAccounts_eq {batches : List (List Account)} (h : s.Adjustable signer) :
    batches.foldlM (fun s batch => s.uploadAccounts signer batch) s =
      (batches.flatten.map fun account => (account.address, account.amount)).foldlM setClaim s := by
  induction batches generalizing s with
  | nil => rfl
  | cons batch batches ih =>
      rw [List.foldlM_cons, List.flatten_cons, List.map_append, List.foldlM_append,
        ← uploadAccounts_eq h]
      cases hbatch : s.uploadAccounts signer batch with
      | error e => rfl
      | ok t => exact ih (uploadAccounts_adjustable h hbatch)

/-- No account outside the file can claim anything. -/
def OnlyListed (s : State τ) (accounts : List Account) : Prop :=
  ∀ a, (∀ account ∈ accounts, account.address ≠ a) → s.claims a = 0

theorem total_eq_iff (hnodup : (accounts.map Account.address).Nodup) (hmatches : s.Matches accounts)
    (htotal : s.totalClaims = ∑ a, s.claims a) :
    total accounts = s.totalClaims ↔ s.OnlyListed accounts := by
  have hlisted : (accounts.map Account.amount).sum =
      ((accounts.map Account.address).map s.claims).sum := by
    rw [List.map_map]
    exact congrArg List.sum (List.map_congr_left fun account h => (hmatches account h).symm)
  rw [total_eq_sum, hlisted, htotal, Totals.sum_listed_eq_iff hnodup]
  simp [OnlyListed]

theorem verify_isCorrect : (s.verify accounts).isCorrect = true ↔
    s.Matches accounts ∧ total accounts = s.totalClaims := by
  rw [verify_eq]
  exact decide_eq_true_iff

theorem verify_incorrect_eq_nil : (s.verify accounts).incorrect = [] ↔ s.Matches accounts := by
  rw [verify_eq]
  simp [Matches]

/-- With the accounts in line nothing is uploaded. -/
theorem compensationSync_of_matches (h : s.Matches accounts) :
    s.compensationSync accounts true signer =
      .ok (if total accounts = s.totalClaims then .verified else .totalOff, s) := by
  by_cases htotal : total accounts = s.totalClaims
  · simp [compensationSync, verify_isCorrect, h, htotal, pure, Except.pure]
  · simp [compensationSync, verify_isCorrect, verify_incorrect_eq_nil.mpr h, htotal, pure,
      Except.pure]

theorem compensationSync_of_uploads (h : ¬ s.Matches accounts)
    (hs : (splitIntoBatches (s.verify accounts).incorrect batchSize).foldlM
      (fun s batch => s.uploadAccounts signer batch) s = .ok s') (hs' : s'.Matches accounts) :
    s.compensationSync accounts true signer =
      .ok (if total accounts = s'.totalClaims then .uploaded else .totalsDoNotMatch, s') := by
  have hsome : (s.verify accounts).incorrect ≠ [] := mt verify_incorrect_eq_nil.mp h
  by_cases htotal : total accounts = s'.totalClaims
  · simp [compensationSync, verify_isCorrect, h, hs', hsome, hs, htotal, pure, Except.pure, bind,
      Except.bind]
  · simp [compensationSync, verify_isCorrect, h, hsome, hs, htotal, pure, Except.pure, bind,
      Except.bind]

/-- The uploads of the accounts that are out of line. -/
theorem uploads_succeed (h : s.Adjustable signer) (htotal : s.totalClaims = ∑ a, s.claims a)
    (hfits : s.totalClaims + (accounts.map Account.amount).sum < wordBound)
    (hnodup : (accounts.map Account.address).Nodup) :
    ∃ s', (splitIntoBatches (s.verify accounts).incorrect batchSize).foldlM
        (fun s batch => s.uploadAccounts signer batch) s = .ok s' ∧
      s'.totalClaims = ∑ a, s'.claims a ∧ s'.Matches accounts ∧
        ∀ a, (∀ account ∈ accounts, account.address ≠ a) → s'.claims a = s.claims a := by
  have hsub : (s.verify accounts).incorrect.Sublist accounts := by
    rw [verify_eq]
    exact List.filter_sublist
  have hle : ((s.verify accounts).incorrect.map Account.amount).sum ≤
      (accounts.map Account.amount).sum :=
    (hsub.map Account.amount).sum_le_sum fun _ _ => Nat.zero_le _
  have hfits' : s.totalClaims + ((s.verify accounts).incorrect.map Account.amount).sum <
      wordBound := by omega
  obtain ⟨s', hs', hup⟩ := foldlM_setClaim_succeeds htotal hfits'
  rw [foldlM_uploadAccounts_eq h, splitIntoBatches_flatten]
  refine ⟨s', hs', hup.total, fun account hmem => ?_, fun a ha => ?_⟩
  · by_cases hsame : s.claims account.address = account.amount
    · rw [hup.others account.address ?_, hsame]
      intro other hother heq
      rw [verify_eq] at hother
      obtain ⟨hother, hdiffers⟩ := List.mem_filter.mp hother
      have hone : other = account := List.inj_on_of_nodup_map hnodup hother hmem heq
      rw [hone] at hdiffers
      exact absurd hsame (by simpa using hdiffers)
    · refine hup.set ((hsub.map Account.address).nodup hnodup) account ?_
      rw [verify_eq]
      exact List.mem_filter.mpr ⟨hmem, by simpa using hsame⟩
  · exact hup.others a fun account hmem => ha account (hsub.subset hmem)

/-- Where the adjuster may set claims, the script ends with every account of the file at its
amount and every other account as it was. It reports success exactly where no account outside
the file has a claim, and a second run changes nothing. -/
theorem sync_settles {T : Address → Token τ} {init : State τ}
    {trace : List (State τ × (Address × Action τ))} (hT : (T init.token).Standard)
    (h : Reached T init trace s) (hadjustable : s.Adjustable signer)
    (hnodup : (accounts.map Account.address).Nodup)
    (hfits : s.totalClaims + (accounts.map Account.amount).sum < wordBound) :
    ∃ report s', s.compensationSync accounts true signer = .ok (report, s') ∧
      s'.Matches accounts ∧
        (∀ a, (∀ account ∈ accounts, account.address ≠ a) → s'.claims a = s.claims a) ∧
          (report = .verified ∨ report = .uploaded ↔ s.OnlyListed accounts) ∧
            ∃ again, s'.compensationSync accounts true signer = .ok (again, s') := by
  have htotal : s.totalClaims = ∑ a, s.claims a := (h.funded hT).total
  by_cases hmatches : s.Matches accounts
  · have hsync : s.compensationSync accounts true signer = _ :=
      compensationSync_of_matches hmatches
    refine ⟨_, s, hsync, hmatches, fun _ _ => rfl, ?_, _, hsync⟩
    rw [← total_eq_iff hnodup hmatches htotal]
    split_ifs with hsame <;> simp [hsame]
  · obtain ⟨s', hs', htotal', hmatches', hothers⟩ :=
      uploads_succeed hadjustable htotal hfits hnodup
    refine ⟨_, s', compensationSync_of_uploads hmatches hs' hmatches', hmatches', hothers, ?_, _,
      compensationSync_of_matches hmatches'⟩
    have hlisted : s'.OnlyListed accounts ↔ s.OnlyListed accounts :=
      forall_congr' fun a => forall_congr' fun ha => by rw [hothers a ha]
    rw [← hlisted, ← total_eq_iff hnodup hmatches' htotal']
    split_ifs with hsame <;> simp [hsame]

/-- An account to correct, one that is in line and a new one. -/
theorem sync_settles_three :
    ∃ init trace s report s', Reached (fun _ => PlainToken.calls) init trace s ∧
      s.claims 1 = 3 ∧ s.compensationSync [⟨1, 5⟩, ⟨2, 4⟩, ⟨3, 6⟩] true 7 = .ok (report, s') ∧
        s'.Matches [⟨1, 5⟩, ⟨2, 4⟩, ⟨3, 6⟩] := by
  have hsteps : Returns
      (execTrace (exec fun _ => PlainToken.calls) []
        (deployed 9 8 5 7 (fun _ => PlainToken.approved 9 1 12 0) 100)
        [(8, .unlockAdjuster), (7, .setClaims [1, 2] [3, 4])])
      fun out => out.2.claims 1 = 3 ∧ (out.2.periodEnd < out.2.now ∧
        out.2.isAdjusterLocked = false ∧ 7 = out.2.adjuster) ∧
          out.2.totalClaims + 15 < wordBound := by decide
  obtain ⟨⟨trace, s⟩, hout, hclaim, ⟨hover, hunlocked, hadjuster⟩, hfits⟩ := hsteps
  have hreached : Reached (fun _ => PlainToken.calls)
      (deployed 9 8 5 7 (fun _ => PlainToken.approved 9 1 12 0) 100) trace s :=
    ⟨⟨9, 8, 5, 7, _, 100, rfl⟩, run_of_execTrace .nil hout⟩
  have hnodup : (([⟨1, 5⟩, ⟨2, 4⟩, ⟨3, 6⟩] : List Account).map Account.address).Nodup := by decide
  obtain ⟨report, s', hsync, hmatches, -⟩ := sync_settles PlainToken.standard hreached
    ⟨hover, hunlocked, hadjuster⟩ hnodup hfits
  exact ⟨_, trace, s, report, s', hreached, hclaim, hsync, hmatches⟩

end State

end Compensation

end InterestDollar
