import InterestDollar.Token.Conservation

/-!
# Which accounts take part in rebases

An account chooses by opting in or out, and a contract that has not chosen is migrated by
the first transfer, mint or burn that meets it. `rebaseState` keeps the choice and
`nonRebasingCreditsPerToken` the rate that was frozen with it. A call changes the two maps
in one of three ways (`exec_choices`): it freezes accounts that have not chosen
(`Migrates`), or besides that its sender opts in, or its sender opts out.
-/

namespace InterestDollar

open Checked Transition

namespace Ledger

/-- From one ledger to the other no choice is made, and the only rates that change are
those of accounts that had not chosen and were not frozen. -/
structure Migrates (s s' : Ledger) : Prop where
  rebaseState : s'.rebaseState = s.rebaseState
  frozenRate : ∀ a, s'.nonRebasingCreditsPerToken a = s.nonRebasingCreditsPerToken a ∨
    s.nonRebasingCreditsPerToken a = 0 ∧ s.rebaseState a = .notSet

/-- What an account chose agrees with its rate: it is not frozen after opting in, and
frozen after opting out. -/
structure Coherent (s : Ledger) : Prop where
  rate_pos : 0 < s.rebasingCreditsPerToken
  optedIn : ∀ a, s.rebaseState a = .optIn → s.nonRebasingCreditsPerToken a = 0
  optedOut : ∀ a, s.rebaseState a = .optOut → 0 < s.nonRebasingCreditsPerToken a

section Moves

variable {s s' s'' : Ledger} {isContract : Address → Bool} {a fromAcc toAcc : Address} {v : ℕ}

theorem Migrates.of_same (hstate : s'.rebaseState = s.rebaseState)
    (hfrozen : s'.nonRebasingCreditsPerToken = s.nonRebasingCreditsPerToken) : Migrates s s' :=
  ⟨hstate, fun a => .inl (congrFun hfrozen a)⟩

theorem Migrates.trans (h : Migrates s s') (h' : Migrates s' s'') : Migrates s s'' where
  rebaseState := h'.rebaseState.trans h.rebaseState
  frozenRate := fun a => by
    rcases h.frozenRate a with heq | hnew
    · rcases h'.frozenRate a with heq' | ⟨hzero, hnot⟩
      · exact .inl (heq'.trans heq)
      · exact .inr ⟨heq ▸ hzero, h.rebaseState ▸ hnot⟩
    · exact .inr hnew

theorem migrate_migrates : Migrates s (s.migrate isContract a) := by
  refine ⟨migrate_rebaseState, fun x => ?_⟩
  unfold migrate
  split_ifs with hm
  · by_cases hx : x = a
    · subst hx
      exact .inr ⟨not_not.mp hm.2.2, hm.2.1⟩
    · exact .inl (freeze_sameOff.frozenRate x hx)
  · exact .inl rfl

theorem settle_migrates : Migrates s (s.settle isContract fromAcc toAcc) :=
  migrate_migrates.trans migrate_migrates

theorem dropDust_rebaseState : (s.dropDust a).rebaseState = s.rebaseState := by
  unfold dropDust
  split_ifs <;> rfl

theorem dropDust_frozenRate :
    (s.dropDust a).nonRebasingCreditsPerToken = s.nonRebasingCreditsPerToken := by
  unfold dropDust
  split_ifs <;> rfl

theorem executeTransfer_migrates (hrate : 0 < s.rebasingCreditsPerToken)
    (hs : s.executeTransfer isContract fromAcc toAcc v = .ok s') : Migrates s s' := by
  obtain ⟨-, -, -, rfl⟩ := (executeTransfer_eq_ok hrate).mp hs
  have hsettle : Migrates s (s.settle isContract fromAcc toAcc) := settle_migrates
  exact hsettle.trans (.of_same rfl rfl)

theorem mintTo_migrates (hs : s.mintTo isContract a v = .ok s') : Migrates s s' := by
  obtain ⟨-, -, -, rfl⟩ := mintTo_eq_ok.mp hs
  have hmigrate : Migrates s (s.migrate isContract a) := migrate_migrates
  exact hmigrate.trans (.of_same rfl rfl)

theorem burnFrom_migrates (hs : s.burnFrom isContract a v = .ok s') : Migrates s s' := by
  obtain ⟨-, ⟨-, rfl⟩ | ⟨-, -, -, rfl⟩⟩ := burnFrom_eq_ok.mp hs
  · exact .of_same rfl rfl
  · have hmigrate : Migrates s (s.migrate isContract a) := migrate_migrates
    exact hmigrate.trans (.of_same dropDust_rebaseState dropDust_frozenRate)

end Moves

/-- What a call does to the choices: it migrates accounts that have not chosen, and where
it is an opt-in or an opt-out its sender's choice and rate are stored on top. -/
theorem exec_choices {s s' : Ledger} {msg : Msg} {call : Call}
    (hrate : 0 < s.rebasingCreditsPerToken) (hs : s.exec (msg, call) = .ok s') :
    Migrates s s' ∨
      (∃ m, Migrates s m ∧ call = .rebaseOptIn ∧ s' = m.optIn msg.sender) ∨
        ∃ m, Migrates s m ∧ 0 < m.rebasingCreditsPerToken ∧ ¬ m.Frozen msg.sender ∧
          call = .rebaseOptOut ∧ s' = m.optOut msg.sender := by
  cases call with
  | transfer toAcc v =>
      obtain ⟨-, -, -, hmove⟩ := transfer_eq_ok.mp hs
      exact .inl (executeTransfer_migrates hrate hmove)
  | transferFrom fromAcc toAcc v =>
      obtain ⟨-, -, -, -, hmove⟩ := transferFrom_eq_ok.mp hs
      have hallow : Migrates s (s.setAllowance fromAcc msg.sender
          (s.allowances fromAcc msg.sender - v)) := .of_same rfl rfl
      exact .inl (hallow.trans (executeTransfer_migrates hrate hmove))
  | approve spender value =>
      obtain rfl := approve_eq_ok.mp hs
      exact .inl (.of_same rfl rfl)
  | increaseAllowance spender addedValue =>
      obtain ⟨-, rfl⟩ := increaseAllowance_eq_ok.mp hs
      exact .inl (.of_same rfl rfl)
  | decreaseAllowance spender subtractedValue =>
      obtain rfl := decreaseAllowance_eq_ok.mp hs
      exact .inl (.of_same rfl rfl)
  | mint a v => exact .inl (mintTo_migrates (mint_eq_ok.mp hs).2)
  | burn a v => exact .inl (burnFrom_migrates (burn_eq_ok.mp hs).2)
  | rebaseOptIn =>
      obtain ⟨-, -, rfl⟩ := rebaseOptIn_eq_ok.mp hs
      exact .inr (.inl ⟨_, migrate_migrates, rfl, rfl⟩)
  | rebaseOptOut =>
      obtain ⟨-, hfits, rfl⟩ := rebaseOptOut_eq_ok.mp hs
      have hpos : 0 < (s.migrate msg.isContract msg.sender).rebasingCreditsPerToken := by
        rw [migrate_rate]
        exact hrate
      exact .inr (.inr ⟨_, migrate_migrates, hpos, hfits.notFrozen, rfl, rfl⟩)
  | changeSupply newTotalSupply =>
      obtain ⟨-, -, ⟨-, rfl⟩ | ⟨-, -, rfl⟩⟩ := changeSupply_eq_ok.mp hs
      · exact .inl (.of_same rfl rfl)
      · exact .inl (.of_same rfl rfl)

/-! ## Coherence -/

section Coherence

variable {s s' : Ledger} {a : Address}

/-- A migration does not reach an account that has chosen. -/
theorem Migrates.frozenRate_eq (h : Migrates s s') (ha : s.rebaseState a ≠ .notSet) :
    s'.nonRebasingCreditsPerToken a = s.nonRebasingCreditsPerToken a :=
  (h.frozenRate a).resolve_right fun hnew => ha hnew.2

theorem Coherent.migrates (h : s.Coherent) (hm : Migrates s s')
    (hrate : 0 < s'.rebasingCreditsPerToken) : s'.Coherent where
  rate_pos := hrate
  optedIn := fun a ha => by
    rw [hm.rebaseState] at ha
    rw [hm.frozenRate_eq (by rw [ha]; decide)]
    exact h.optedIn a ha
  optedOut := fun a ha => by
    rw [hm.rebaseState] at ha
    rw [hm.frozenRate_eq (by rw [ha]; decide)]
    exact h.optedOut a ha

/-- A choice of one account concerns no other, and is coherent if it is for that account. -/
theorem Coherent.choose (h : s.Coherent) (hrate : 0 < s'.rebasingCreditsPerToken)
    (hstate : ∀ x, x ≠ a → s'.rebaseState x = s.rebaseState x)
    (hfrozen : ∀ x, x ≠ a → s'.nonRebasingCreditsPerToken x = s.nonRebasingCreditsPerToken x)
    (hin : s'.rebaseState a = .optIn → s'.nonRebasingCreditsPerToken a = 0)
    (hout : s'.rebaseState a = .optOut → 0 < s'.nonRebasingCreditsPerToken a) : s'.Coherent where
  rate_pos := hrate
  optedIn := fun x hx => by
    by_cases heq : x = a
    · exact heq ▸ hin (heq ▸ hx)
    · rw [hfrozen x heq]
      exact h.optedIn x (hstate x heq ▸ hx)
  optedOut := fun x hx => by
    by_cases heq : x = a
    · exact heq ▸ hout (heq ▸ hx)
    · rw [hfrozen x heq]
      exact h.optedOut x (hstate x heq ▸ hx)

theorem optIn_rebaseState_self : (s.optIn a).rebaseState a = .optIn := Function.update_self _ _ _

theorem optOut_rebaseState_self : (s.optOut a).rebaseState a = .optOut := Function.update_self _ _ _

theorem optOut_frozenRate_self :
    (s.optOut a).nonRebasingCreditsPerToken a = s.rebasingCreditsPerToken :=
  Function.update_self _ _ _

theorem Coherent.optIn (h : s.Coherent) : (s.optIn a).Coherent := by
  refine h.choose h.rate_pos (fun x hx => Function.update_of_ne hx _ _)
    (fun x hx => Function.update_of_ne hx _ _) (fun _ => Function.update_self _ _ _) fun ha => ?_
  rw [optIn_rebaseState_self] at ha
  cases ha

theorem Coherent.optOut (h : s.Coherent) : (s.optOut a).Coherent := by
  refine h.choose h.rate_pos (fun x hx => Function.update_of_ne hx _ _)
    (fun x hx => Function.update_of_ne hx _ _) (fun ha => ?_) fun _ => ?_
  · rw [optOut_rebaseState_self] at ha
    cases ha
  · rw [optOut_frozenRate_self]
    exact h.rate_pos

/-- Every call keeps the ledger coherent. -/
theorem Coherent.exec {n : ℕ} {call : Msg × Call} (h : s.Coherent) (hc : Conserved n s)
    (hs : s.exec call = .ok s') : s'.Coherent := by
  have hrate := (hc.exec hs).rate_pos
  rcases exec_choices h.rate_pos hs with hm | ⟨m, hm, -, rfl⟩ | ⟨m, hm, hpos, -, -, rfl⟩
  · exact h.migrates hm hrate
  · exact (h.migrates hm hrate).optIn
  · exact (h.migrates hm hpos).optOut

end Coherence

/-! ## What lasts -/

section Lasting

variable {s s' : Ledger} {a : Address}

/-- An account that has chosen goes on having chosen. -/
theorem exec_chosen {call : Msg × Call} (hrate : 0 < s.rebasingCreditsPerToken)
    (ha : s.rebaseState a ≠ .notSet) (hs : s.exec call = .ok s') : s'.rebaseState a ≠ .notSet := by
  rcases exec_choices hrate hs with hm | ⟨m, hm, -, rfl⟩ | ⟨m, hm, -, -, -, rfl⟩
  · rw [hm.rebaseState]
    exact ha
  · by_cases heq : a = call.1.sender
    · rw [heq, optIn_rebaseState_self]
      decide
    · have hstate : (m.optIn call.1.sender).rebaseState a = m.rebaseState a :=
        Function.update_of_ne heq _ _
      rw [hstate, hm.rebaseState]
      exact ha
  · by_cases heq : a = call.1.sender
    · rw [heq, optOut_rebaseState_self]
      decide
    · have hstate : (m.optOut call.1.sender).rebaseState a = m.rebaseState a :=
        Function.update_of_ne heq _ _
      rw [hstate, hm.rebaseState]
      exact ha

/-- The call is an opt-in of the account itself. -/
def OptsIn (a : Address) (call : Msg × Call) : Prop := call.1.sender = a ∧ call.2 = .rebaseOptIn

instance (a : Address) (call : Msg × Call) : Decidable (OptsIn a call) :=
  inferInstanceAs (Decidable (_ ∧ _))

/-- A frozen rate stays as it is until its account opts in. -/
theorem exec_frozenRate {call : Msg × Call} (hrate : 0 < s.rebasingCreditsPerToken)
    (ha : s.Frozen a) (hcall : ¬ OptsIn a call) (hs : s.exec call = .ok s') :
    s'.nonRebasingCreditsPerToken a = s.nonRebasingCreditsPerToken a := by
  have hkeep : ∀ m, Migrates s m →
      m.nonRebasingCreditsPerToken a = s.nonRebasingCreditsPerToken a :=
    fun m hm => (hm.frozenRate a).resolve_right fun hnew => ha hnew.1
  rcases exec_choices hrate hs with hm | ⟨m, hm, hin, rfl⟩ | ⟨m, hm, -, hnot, -, rfl⟩
  · exact hkeep _ hm
  · have hne : a ≠ call.1.sender := fun heq => hcall ⟨heq.symm, hin⟩
    have hfrozen : (m.optIn call.1.sender).nonRebasingCreditsPerToken a =
        m.nonRebasingCreditsPerToken a := Function.update_of_ne hne _ _
    rw [hfrozen, hkeep m hm]
  · -- A frozen account cannot opt out.
    have hne : a ≠ call.1.sender := by
      intro heq
      have hmfrozen : m.Frozen a := by
        rw [Frozen, hkeep m hm]
        exact ha
      exact hnot (heq ▸ hmfrozen)
    have hfrozen : (m.optOut call.1.sender).nonRebasingCreditsPerToken a =
        m.nonRebasingCreditsPerToken a := Function.update_of_ne hne _ _
    rw [hfrozen, hkeep m hm]

end Lasting

theorem Reached.coherent {vaultAddress : Address} {trace : List (Ledger × (Msg × Call))}
    {s : Ledger} (h : Reached vaultAddress trace s) : s.Coherent := by
  have h0 : (initialized vaultAddress).Coherent :=
    ⟨fullScale_pos, (fun _ ha => nomatch ha), (fun _ ha => nomatch ha)⟩
  have hboth := Run.invariant (fun s => (∃ n, Conserved n s) ∧ s.Coherent)
    ⟨⟨0, conserved_initialized vaultAddress⟩, h0⟩
    (fun s call s' hi hs => by
      obtain ⟨⟨n, hn⟩, hcoherent⟩ := hi
      exact ⟨⟨_, hn.exec hs⟩, hcoherent.exec hn hs⟩) h
  exact hboth.2

/-- In every state a run reaches, the global rate is positive, an account that opted in is
not frozen and one that opted out is; and from there on an account that has chosen goes on
having chosen, and a frozen rate stays until its account opts in. -/
theorem choices_coherent {vaultAddress : Address} {trace : List (Ledger × (Msg × Call))}
    {s : Ledger} (h : Reached vaultAddress trace s) :
    0 < s.rebasingCreditsPerToken ∧
      (∀ a, s.rebaseState a = .optIn → s.nonRebasingCreditsPerToken a = 0) ∧
      (∀ a, s.rebaseState a = .optOut → 0 < s.nonRebasingCreditsPerToken a) ∧
      ∀ later s', s.RunFrom later s' → ∀ a,
        (s.rebaseState a ≠ .notSet → s'.rebaseState a ≠ .notSet) ∧
          (s.nonRebasingCreditsPerToken a ≠ 0 → (∀ e ∈ later, ¬ OptsIn a e.2) →
            s'.nonRebasingCreditsPerToken a = s.nonRebasingCreditsPerToken a) := by
  have hcoherent := h.coherent
  refine ⟨hcoherent.rate_pos, hcoherent.optedIn, hcoherent.optedOut, ?_⟩
  refine fun later s' hrun a => ⟨?_, ?_⟩
  · intro ha
    have hall := Run.invariant (fun t => (∃ n, Conserved n t) ∧ t.rebaseState a ≠ .notSet)
      ⟨⟨_, h.conserved⟩, ha⟩
      (fun t call t' hi ht => by
        obtain ⟨⟨n, hn⟩, hchosen⟩ := hi
        exact ⟨⟨_, hn.exec ht⟩, exec_chosen hn.rate_pos hchosen ht⟩) hrun
    exact hall.2
  · intro ha hcalls
    have hall := Run.invariant_of_forall (fun _ call => ¬ OptsIn a call)
      (fun t => (∃ n, Conserved n t) ∧
        t.nonRebasingCreditsPerToken a = s.nonRebasingCreditsPerToken a)
      ⟨⟨_, h.conserved⟩, rfl⟩
      (fun t call t' hi hc ht => by
        obtain ⟨⟨n, hn⟩, hsame⟩ := hi
        have hfrozen : t.Frozen a := by
          rw [Frozen, hsame]
          exact ha
        exact ⟨⟨_, hn.exec ht⟩, (exec_frozenRate hn.rate_pos hfrozen hc ht).trans hsame⟩)
      hrun hcalls
    exact hall.2

/-- A contract is migrated at one rate, and after a rebase a rebasing account opts out at
another; a transfer between the two leaves both rates. -/
theorem choices_coherent_frozen :
    ∃ trace s, Reached 9 trace s ∧ s.rebaseState 1 = .optOut ∧
      s.nonRebasingCreditsPerToken 1 ≠ s.nonRebasingCreditsPerToken 2 ∧
      ∃ later s', s.RunFrom later s' ∧ s'.rebaseState 1 ≠ .notSet ∧
        s'.nonRebasingCreditsPerToken 2 = s.nonRebasingCreditsPerToken 2 := by
  have hcalls : Returns
      (execTrace exec [] (initialized 9)
        [(⟨9, fun a => a = 2⟩, .mint 1 2), (⟨9, fun a => a = 2⟩, .mint 2 2),
          (⟨9, fun a => a = 2⟩, .changeSupply 6), (⟨1, fun a => a = 2⟩, .rebaseOptOut)])
      fun out => Returns (execTrace exec [] out.2 [(⟨1, fun _ => false⟩, .transfer 2 2)])
        fun out' => out.2.rebaseState 1 = .optOut ∧
          out.2.nonRebasingCreditsPerToken 1 ≠ out.2.nonRebasingCreditsPerToken 2 ∧
          out.2.nonRebasingCreditsPerToken 2 ≠ 0 ∧ ∀ e ∈ out'.1, ¬ OptsIn 2 e.2 := by decide
  obtain ⟨trace, s, hreached, ⟨later, s'⟩, hlater, hout, hne, hfrozen, hcalls⟩ :=
    reached_of_returns hcalls
  have hrun : s.RunFrom later s' := run_of_execTrace .nil hlater
  have hlasting := (choices_coherent hreached).2.2.2 later s' hrun
  refine ⟨trace, s, hreached, hout, hne, later, s', hrun, (hlasting 1).1 ?_,
    (hlasting 2).2 hfrozen hcalls⟩
  rw [hout]
  decide

end Ledger

end InterestDollar
