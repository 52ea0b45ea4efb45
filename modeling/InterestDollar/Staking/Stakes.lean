import InterestDollar.Listing.BackInsert
import InterestDollar.Staking.Runs

/-!
# The stakes of an account

The array of an account's stakes is kept in the order of their ends. A new stake is
inserted from the back and takes over the `paid` flag of the slot it lands in, and `exit`
pays from the back until it meets an ended stake that was paid before. Both are right
because of what `StakesKept` says of the array: the stakes are in order, the paid ones
come first and have all ended, so no stake that is shifted was paid, and none that is
unpaid lies before a paid one.
-/

namespace InterestDollar

open Checked Listing

namespace Staking

/-- The array of an account's stakes at a time. -/
structure StakesKept (now : ℕ) (stakes : List Stake) : Prop where
  ordered : stakes.Pairwise fun a b => a.ends ≤ b.ends
  paid_first : stakes.Pairwise fun a b => b.paid = true → a.paid = true
  paid_ended : ∀ stake ∈ stakes, stake.paid = true → stake.ends < now
  length_le : stakes.length ≤ maxStakes
  types : ∀ t, t ≠ userStakeType → stakes.countP (fun stake => decide (stake.stakeType = t)) ≤ 1

/-- The stake once everything that has ended is paid. -/
def Stake.settle (now : ℕ) (stake : Stake) : Stake :=
  if stake.ends < now then { stake with paid := true } else stake

/-- The stake has ended and was not paid. -/
def Stake.Due (now : ℕ) (stake : Stake) : Prop := stake.ends < now ∧ stake.paid = false

instance (now : ℕ) (stake : Stake) : Decidable (stake.Due now) :=
  inferInstanceAs (Decidable (_ ∧ _))

/-- What a time's exit pays out for a stake. -/
def Stake.payout (now : ℕ) (stake : Stake) : ℕ := if stake.Due now then stake.expected else 0

/-- What a stake is still owed. -/
def Stake.owed (stake : Stake) : ℕ := if stake.paid then 0 else stake.expected

section Stake

variable {now : ℕ} {stake : Stake}

@[simp] theorem settle_ends : (stake.settle now).ends = stake.ends := by
  unfold Stake.settle
  split_ifs <;> rfl

@[simp] theorem settle_stakeType : (stake.settle now).stakeType = stake.stakeType := by
  unfold Stake.settle
  split_ifs <;> rfl

theorem settle_paid_iff :
    (stake.settle now).paid = true ↔ stake.ends < now ∨ stake.paid = true := by
  unfold Stake.settle
  split_ifs with h
  · simp [h]
  · simp [h]

/-- A stake that was paid when it ended is settled already. -/
theorem settle_of_paid (h : stake.paid = true) : stake.settle now = stake := by
  unfold Stake.settle
  split_ifs
  · cases stake
    simp_all
  · rfl

theorem settle_of_not_ended (h : ¬ stake.ends < now) : stake.settle now = stake := if_neg h

theorem payout_of_paid (h : stake.paid = true) : stake.payout now = 0 :=
  if_neg fun hdue => by simp [hdue.2] at h

theorem payout_of_not_ended (h : ¬ stake.ends < now) : stake.payout now = 0 :=
  if_neg fun hdue => h hdue.1

/-- Settling a stake pays what it is owed, if it has ended. -/
theorem owed_settle_add : (stake.settle now).owed + stake.payout now = stake.owed := by
  by_cases hend : stake.ends < now
  · cases hpaid : stake.paid with
    | true => rw [settle_of_paid hpaid, payout_of_paid hpaid, Nat.add_zero]
    | false =>
        have hsettled : (stake.settle now).paid = true := settle_paid_iff.mpr (.inl hend)
        simp [Stake.owed, Stake.payout, Stake.Due, hsettled, hend, hpaid]
  · rw [settle_of_not_ended hend, payout_of_not_ended hend, Nat.add_zero]

end Stake

/-! ## Inserting -/

section Insert

variable {now : ℕ} {stakes : List Stake} {newStake : Stake}

theorem StakesKept.nil (now : ℕ) : StakesKept now [] :=
  ⟨.nil, .nil, (fun _ h => nomatch h), Nat.zero_le _, fun _ _ => Nat.zero_le _⟩

theorem StakesKept.mono {later : ℕ} (h : StakesKept now stakes) (hle : now ≤ later) :
    StakesKept later stakes :=
  { h with paid_ended := fun stake hmem hpaid => (h.paid_ended stake hmem hpaid).trans_le hle }

theorem ends_lt_of_shifted {stake : Stake}
    (hmem : stake ∈ stakes.rtakeWhile fun x => decide (newStake.ends < x.ends)) :
    newStake.ends < stake.ends := by
  have hlater := List.mem_rtakeWhile_imp hmem
  exact of_decide_eq_true hlater

/-- A stake that is shifted ends after the new one, so it was not paid. -/
theorem StakesKept.shifted_unpaid (h : StakesKept now stakes) (hend : now ≤ newStake.ends)
    {stake : Stake} (hmem : stake ∈ stakes.rtakeWhile fun x => decide (newStake.ends < x.ends)) :
    stake.paid = false := by
  have hlater := ends_lt_of_shifted hmem
  have hstakes : stake ∈ stakes := (List.rtakeWhile_suffix _ _).subset hmem
  by_contra hpaid
  have hended := h.paid_ended stake hstakes (Bool.not_eq_false _ ▸ hpaid)
  omega

/-- The flag the new stake takes over is that of a shifted stake, or of an empty slot. -/
theorem StakesKept.insertStake_eq (h : StakesKept now stakes) (hend : now ≤ newStake.ends)
    (hunpaid : newStake.paid = false) :
    insertStake newStake stakes =
      insertBack (fun stake => decide (newStake.ends < stake.ends)) newStake stakes := by
  have hflag : ((stakes.rtakeWhile fun x => decide (newStake.ends < x.ends)).head?.map
      Stake.paid).getD false = false := by
    cases hlater : stakes.rtakeWhile fun x => decide (newStake.ends < x.ends) with
    | nil => rfl
    | cons first rest =>
        have hmem : first ∈ stakes.rtakeWhile fun x => decide (newStake.ends < x.ends) := by
          rw [hlater]
          exact List.mem_cons_self
        exact h.shifted_unpaid hend hmem
  have hsame : { newStake with paid := false } = newStake := by
    cases newStake
    simp_all
  simp only [insertStake, insertBack, hflag, hsame]

/-- An insertion adds the new stake to the stakes that were there. -/
theorem StakesKept.insertStake_perm (h : StakesKept now stakes) (hend : now ≤ newStake.ends)
    (hunpaid : newStake.paid = false) :
    (insertStake newStake stakes).Perm (newStake :: stakes) := by
  rw [h.insertStake_eq hend hunpaid]
  exact insertBack_perm

theorem StakesKept.insert (h : StakesKept now stakes) (hend : now ≤ newStake.ends)
    (hunpaid : newStake.paid = false) (hlength : stakes.length < maxStakes)
    (htype : newStake.stakeType ≠ userStakeType →
      ∀ stake ∈ stakes, stake.stakeType ≠ newStake.stakeType) :
    StakesKept now (insertStake newStake stakes) where
  ordered := by
    rw [h.insertStake_eq hend hunpaid]
    refine insertBack_pairwise h.ordered (fun y hy => key_le_of_mem_rdropWhile h.ordered hy) ?_
    exact fun y hy => (ends_lt_of_shifted hy).le
  paid_first := by
    rw [h.insertStake_eq hend hunpaid]
    refine insertBack_pairwise h.paid_first (fun y _ hpaid => ?_) fun y hy hpaid => ?_
    · simp [hunpaid] at hpaid
    · simp [h.shifted_unpaid hend hy] at hpaid
  paid_ended := fun stake hmem hpaid => by
    rcases List.mem_cons.mp ((h.insertStake_perm hend hunpaid).mem_iff.mp hmem) with rfl | hold
    · simp [hunpaid] at hpaid
    · exact h.paid_ended stake hold hpaid
  length_le := by
    rw [(h.insertStake_perm hend hunpaid).length_eq, List.length_cons]
    exact hlength
  types := fun t ht => by
    rw [(h.insertStake_perm hend hunpaid).countP_eq, List.countP_cons]
    by_cases heq : newStake.stakeType = t
    · have hnone : stakes.countP (fun stake => decide (stake.stakeType = t)) = 0 :=
        List.countP_eq_zero.mpr fun stake hmem hsame =>
          htype (heq ▸ ht) stake hmem (heq ▸ of_decide_eq_true hsame)
      simp [hnone, heq]
    · simpa [heq] using h.types t ht

end Insert

/-! ## Paying -/

section Pay

variable {now : ℕ}

/-- The loop of `exit` over an array in order, from the back: it settles every stake and
adds up what they are paid. -/
theorem payEnded_eq_ok {stakes : List Stake} {total staked : ℕ} {out : List Stake × ℕ × ℕ}
    (hordered : stakes.Pairwise fun b a => a.ends ≤ b.ends)
    (hfirst : stakes.Pairwise fun b a => b.paid = true → a.paid = true)
    (h : payEnded now stakes total staked = .ok out) :
    out.1 = stakes.map (Stake.settle now) ∧
      out.2.1 = total + (stakes.map (Stake.payout now)).sum := by
  induction stakes generalizing total staked out with
  | nil =>
      cases h
      exact ⟨rfl, rfl⟩
  | cons stake rest ih =>
      obtain ⟨hends, hordered⟩ := List.pairwise_cons.mp hordered
      obtain ⟨hpaids, hfirst⟩ := List.pairwise_cons.mp hfirst
      unfold payEnded at h
      split_ifs at h with hstop hend
      · -- Everything before an ended and paid stake was paid.
        cases h
        have hsettled : ∀ x ∈ stake :: rest, x.paid = true := by
          intro x hx
          rcases List.mem_cons.mp hx with rfl | hx
          · exact hstop.2
          · exact hpaids x hx hstop.2
        have hsame : (stake :: rest).map (Stake.settle now) = stake :: rest :=
          calc (stake :: rest).map (Stake.settle now)
              = (stake :: rest).map id :=
                List.map_congr_left fun x hx => settle_of_paid (hsettled x hx)
            _ = stake :: rest := List.map_id _
        have hnone : ∀ x ∈ (stake :: rest).map (Stake.payout now), x = 0 := by
          intro x hx
          obtain ⟨y, hy, rfl⟩ := List.mem_map.mp hx
          exact payout_of_paid (hsettled y hy)
        rw [hsame, List.sum_eq_zero hnone]
        exact ⟨rfl, rfl⟩
      · obtain ⟨expected, hexpected, h⟩ := bind_eq_ok.mp h
        obtain ⟨total', htotal, h⟩ := bind_eq_ok.mp h
        obtain ⟨staked', hstaked, h⟩ := bind_eq_ok.mp h
        obtain ⟨⟨rest', totals⟩, hrest, h⟩ := bind_eq_ok.mp h
        cases pure_eq_ok.mp h
        obtain ⟨-, -, rfl⟩ := totalExpected_eq_ok.mp hexpected
        obtain ⟨-, rfl⟩ := SafeMath.add_eq_ok.mp htotal
        obtain ⟨hmap, hsum⟩ := ih hordered hfirst hrest
        have hunpaid : stake.paid = false := by simpa [hend] using hstop
        have hsettle : stake.settle now = { stake with paid := true } := if_pos hend
        have hpayout : stake.payout now = stake.expected := if_pos ⟨hend, hunpaid⟩
        refine ⟨by rw [List.map_cons, hsettle, ← hmap], ?_⟩
        rw [List.map_cons, List.sum_cons, hpayout, hsum]
        omega
      · obtain ⟨⟨rest', totals⟩, hrest, h⟩ := bind_eq_ok.mp h
        cases pure_eq_ok.mp h
        obtain ⟨hmap, hsum⟩ := ih hordered hfirst hrest
        refine ⟨by rw [List.map_cons, settle_of_not_ended hend, ← hmap], ?_⟩
        rw [List.map_cons, List.sum_cons, payout_of_not_ended hend, hsum]
        omega

theorem StakesKept.settle {stakes : List Stake} (h : StakesKept now stakes) :
    StakesKept now (stakes.map (Stake.settle now)) where
  ordered := by
    refine List.pairwise_map.mpr (h.ordered.imp fun hle => ?_)
    simpa using hle
  paid_first := by
    refine List.pairwise_map.mpr ((h.ordered.and h.paid_first).imp fun ⟨hle, hpaid⟩ => ?_)
    simp only [settle_paid_iff]
    rintro (hend | hb)
    · exact .inl (hle.trans_lt hend)
    · exact .inr (hpaid hb)
  paid_ended := fun stake hmem hpaid => by
    obtain ⟨x, hx, rfl⟩ := List.mem_map.mp hmem
    rw [settle_ends]
    rcases settle_paid_iff.mp hpaid with hend | hpaid
    · exact hend
    · exact h.paid_ended x hx hpaid
  length_le := by
    rw [List.length_map]
    exact h.length_le
  types := fun t ht => by
    have hsame : ((fun stake : Stake => decide (stake.stakeType = t)) ∘ Stake.settle now) =
        fun stake => decide (stake.stakeType = t) := by
      funext stake
      simp
    rw [List.countP_map, hsame]
    exact h.types t ht

end Pay

end Staking

end InterestDollar
