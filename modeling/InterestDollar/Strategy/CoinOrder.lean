import InterestDollar.Strategy.Mapping
import InterestDollar.Strategy.PlainPlatform
import InterestDollar.Transition.Run

/-!
# The order of the pool's coins

The strategy of the Curve pool takes the place of an asset in its own list for the index of
the coin in the pool. The places are right exactly as long as the list is the pool's coins
from the first on. A removal keeps it so when it takes the last asset, and an asset that is
added keeps it so when it is the next coin.
-/

namespace InterestDollar

open Checked Transition Listing

namespace ThreePoolStrategy

/-! ## Finding a coin -/

/-- The loop finds an asset at its place, if that is among the first ones. -/
theorem findCoin_eq_ok {asset : Address} {l : List Address} (hl : l.Nodup) {steps index k : ℕ}
    (h : l[k]? = some asset) (hk : k < steps) :
    findCoin asset steps index l = .ok (index + k) := by
  induction l generalizing steps index k with
  | nil => cases h
  | cons mapped rest ih =>
      obtain ⟨steps, rfl⟩ : ∃ n, steps = n + 1 := ⟨steps - 1, by omega⟩
      obtain ⟨hnot, hrest⟩ := List.nodup_cons.mp hl
      cases k with
      | zero =>
          obtain rfl : mapped = asset := by simpa using h
          simp [findCoin]
      | succ k =>
          have hne : mapped ≠ asset := by
            rintro rfl
            exact hnot (List.mem_of_getElem? h)
          rw [findCoin, if_neg hne, ih hrest h (Nat.lt_of_succ_lt_succ hk), Nat.add_assoc,
            Nat.add_comm 1 k]

variable {ω : Type} {P : Platform ω} {pool : Address} {coins : List Address}

/-- The pool has three different coins, and it names them in this order at any time. -/
structure IsPool (P : Platform ω) (pool : Address) (coins : List Address) : Prop where
  length : coins.length = 3
  nodup : coins.Nodup
  coins_eq : ∀ w i coin, coins[i]? = some coin → P.coins w pool i = .ok coin

/-- The index that the strategy has for each of its assets is the asset's in the pool. -/
def CoinsMatch (P : Platform ω) (s : ThreePoolStrategy × ω) : Prop :=
  ∀ asset, s.1.assetToPToken asset ≠ 0 →
    ∃ i, s.1.getPoolCoinIndex asset = .ok i ∧ P.coins s.2 s.1.platformAddress i = .ok asset

/-- The places are right exactly when the list is the first coins in their order. -/
theorem coinsMatch_iff_isPrefix (hpool : IsPool P pool coins) {s : ThreePoolStrategy} {w : ω}
    (hmapped : s.Mapped) (hplatform : s.platformAddress = pool)
    (hsub : s.assetsMapped ⊆ coins) :
    CoinsMatch P (s, w) ↔ s.assetsMapped <+: coins := by
  have hshort : s.assetsMapped.length ≤ 3 :=
    hpool.length ▸ (hmapped.nodup.subperm hsub).length_le
  have hfind : ∀ {k : ℕ} {asset : Address}, s.assetsMapped[k]? = some asset →
      k < 3 ∧ s.getPoolCoinIndex asset = .ok k := by
    intro k asset hk
    obtain ⟨hlt, -⟩ := List.getElem?_eq_some_iff.mp hk
    have hfound : findCoin asset 3 0 s.assetsMapped = .ok (0 + k) :=
      findCoin_eq_ok hmapped.nodup hk (by omega)
    rw [Nat.zero_add] at hfound
    exact ⟨by omega, hfound⟩
  constructor
  · intro hmatch
    refine List.prefix_iff_getElem?.mpr fun k hk => ?_
    have hat : s.assetsMapped[k]? = some s.assetsMapped[k] := List.getElem?_eq_getElem hk
    obtain ⟨hthree, hindex⟩ := hfind hat
    obtain ⟨i, hi, hcoin⟩ := hmatch _ ((hmapped.mem_iff _).mp (List.getElem_mem hk))
    cases hindex.symm.trans hi
    have hlt : k < coins.length := hpool.length ▸ hthree
    have hplace : coins[k]? = some coins[k] := List.getElem?_eq_getElem hlt
    have hname := hpool.coins_eq w k _ hplace
    rw [hplatform] at hcoin
    rw [hplace, Except.ok.inj (hname.symm.trans hcoin)]
  · intro hprefix asset hasset
    obtain ⟨k, hk⟩ := List.mem_iff_getElem?.mp ((hmapped.mem_iff asset).mpr hasset)
    refine ⟨k, (hfind hk).2, ?_⟩
    change P.coins w s.platformAddress k = .ok asset
    rw [hplatform]
    exact hpool.coins_eq w k asset (getElem?_of_isPrefix hprefix hk)

/-! ## Configurations -/

/-- The functions that change the storage, those that do not, and changes of the world. -/
inductive Action (ω : Type)
  | setPTokenAddress (asset pToken : Address)
  | removePToken (assetIndex : ℕ)
  | configure (setting : AbstractStrategy.Setting)
  | operate (operation : AbstractStrategy.Operation)
  | environment (w : ω)

/-- One call by an account, or one change of the world. -/
def exec (P : Platform ω) (s : ThreePoolStrategy × ω) (step : Address × Action ω) :
    Except Failure (ThreePoolStrategy × ω) :=
  match step.2 with
  | .setPTokenAddress asset pToken => s.1.setPTokenAddress P s.2 step.1 asset pToken
  | .removePToken assetIndex => do
      let base ← s.1.removePToken step.1 assetIndex
      return ({ s.1 with toAbstractStrategy := base }, s.2)
  | .configure setting => do
      let base ← s.1.configure step.1 setting
      return ({ s.1 with toAbstractStrategy := base }, s.2)
  | .operate operation => do
      let w ← s.1.operate P s.2 step.1 operation
      return (s.1, w)
  | .environment w => .ok (s.1, w)

/-- An asset that is given a platform token is a coin of the pool. -/
def AddsCoin (coins : List Address) : Action ω → Prop
  | .setPTokenAddress asset _ => asset ∈ coins
  | _ => True

/-- A step that gives platform tokens only to the coins of the pool. -/
def Step (P : Platform ω) (coins : List Address) (s : ThreePoolStrategy × ω)
    (step : Address × Action ω) (s' : ThreePoolStrategy × ω) : Prop :=
  exec P s step = .ok s' ∧ AddsCoin coins step.2

/-- A removal takes the last asset, and an asset that is added is the next coin. -/
def KeepsOrder (coins : List Address) (s : ThreePoolStrategy × ω) (step : Address × Action ω) :
    Prop :=
  match step.2 with
  | .removePToken assetIndex => assetIndex + 1 = s.1.assetsMapped.length
  | .setPTokenAddress asset _ => coins[s.1.assetsMapped.length]? = some asset
  | _ => True

instance (action : Action ω) : Decidable (AddsCoin coins action) := by
  cases action <;> unfold AddsCoin <;> infer_instance

instance (s : ThreePoolStrategy × ω) (step : Address × Action ω) :
    Decidable (KeepsOrder coins s step) := by
  obtain ⟨sender, action⟩ := step
  cases action <;> unfold KeepsOrder <;> infer_instance

/-! ## What a step does to the list -/

/-- What a run keeps: the list agrees with the map and holds coins of this pool. -/
structure Configured (pool : Address) (coins : List Address) (s : ThreePoolStrategy × ω) :
    Prop where
  mapped : s.1.Mapped
  platform : s.1.platformAddress = pool
  coins : s.1.assetsMapped ⊆ coins

/-- What a step makes of the mapped assets. -/
inductive MapEffect (s : ThreePoolStrategy × ω) (step : Address × Action ω)
    (s' : ThreePoolStrategy × ω) : Prop
  | same : (∀ asset pToken, step.2 ≠ .setPTokenAddress asset pToken) →
      (∀ assetIndex, step.2 ≠ .removePToken assetIndex) →
      AbstractStrategy.SameMapping s.1.toAbstractStrategy s'.1.toAbstractStrategy →
      MapEffect s step s'
  | added (asset pToken : Address) : step.2 = .setPTokenAddress asset pToken →
      s.1.assetToPToken asset = 0 → asset ≠ 0 → pToken ≠ 0 →
      s'.1.toAbstractStrategy = s.1.addPToken asset pToken → MapEffect s step s'
  | removed (assetIndex : ℕ) (asset : Address) : step.2 = .removePToken assetIndex →
      s.1.assetsMapped[assetIndex]? = some asset →
      s'.1.toAbstractStrategy = s.1.dropPToken asset →
      s'.1.assetsMapped = swapRemoveAt assetIndex s.1.assetsMapped → MapEffect s step s'

theorem exec_mapEffect {s s' : ThreePoolStrategy × ω} {step : Address × Action ω}
    (hmapped : s.1.Mapped) (h : exec P s step = .ok s') : MapEffect s step s' := by
  obtain ⟨sender, action⟩ := step
  cases action with
  | setPTokenAddress asset pToken =>
      obtain ⟨_, -, h⟩ := bind_eq_ok.mp h
      obtain ⟨⟨base, w⟩, hset, h⟩ := bind_eq_ok.mp h
      cases pure_eq_ok.mp h
      obtain ⟨hnew, ⟨hasset, hpToken⟩, hbase, -⟩ := AbstractStrategy.setPToken_eq_ok hset
      exact .added asset pToken rfl hnew hasset hpToken hbase
  | removePToken assetIndex =>
      obtain ⟨base, hremove, h⟩ := bind_eq_ok.mp h
      cases pure_eq_ok.mp h
      obtain ⟨asset, hasset, hbase, hlist⟩ :=
        AbstractStrategy.removePToken_eq_ok hmapped hremove
      exact .removed assetIndex asset rfl hasset hbase hlist
  | configure setting =>
      obtain ⟨base, hconfigure, h⟩ := bind_eq_ok.mp h
      cases pure_eq_ok.mp h
      exact .same (fun _ _ => nofun) (fun _ => nofun)
        (AbstractStrategy.configure_eq_ok hconfigure).1
  | operate operation =>
      obtain ⟨w, -, h⟩ := bind_eq_ok.mp h
      cases pure_eq_ok.mp h
      exact .same (fun _ _ => nofun) (fun _ => nofun) ⟨rfl, rfl, rfl, rfl, rfl⟩
  | environment w =>
      cases h
      exact .same (fun _ _ => nofun) (fun _ => nofun) ⟨rfl, rfl, rfl, rfl, rfl⟩

theorem Configured.next {s s' : ThreePoolStrategy × ω} {step : Address × Action ω}
    (h : Configured pool coins s) (hstep : Step P coins s step s') :
    Configured pool coins s' := by
  obtain ⟨hexec, hcoin⟩ := hstep
  unfold AddsCoin at hcoin
  cases exec_mapEffect h.mapped hexec with
  | same _ _ hsame =>
      exact ⟨h.mapped.of_same hsame, hsame.platformAddress.trans h.platform,
        hsame.assetsMapped ▸ h.coins⟩
  | added asset pToken haction hnew hasset hpToken hbase =>
      refine ⟨hbase ▸ h.mapped.addPToken hnew hasset hpToken, ?_, ?_⟩
      · rw [hbase]
        exact h.platform
      · rw [hbase]
        rw [haction] at hcoin
        exact List.append_subset.mpr ⟨h.coins, List.cons_subset.mpr ⟨hcoin, List.nil_subset _⟩⟩
  | removed assetIndex asset _ hasset hbase _ =>
      have hmem := List.mem_of_getElem? hasset
      refine ⟨hbase ▸ h.mapped.dropPToken hmem, ?_, ?_⟩
      · rw [hbase]
        exact h.platform
      · rw [hbase]
        exact fun x hx => h.coins ((mem_swapRemove hmem h.mapped.nodup).mp hx).2

/-- A step from a list in the order of the pool keeps the order exactly when it meets the
condition. -/
theorem step_keepsOrder_iff {s s' : ThreePoolStrategy × ω} {step : Address × Action ω}
    (hpool : IsPool P pool coins) (h : Configured pool coins s) (hmatch : CoinsMatch P s)
    (hstep : Step P coins s step s') : CoinsMatch P s' ↔ KeepsOrder coins s step := by
  have h' := h.next hstep
  have hprefix := (coinsMatch_iff_isPrefix hpool h.mapped h.platform h.coins).mp hmatch
  rw [coinsMatch_iff_isPrefix hpool h'.mapped h'.platform h'.coins]
  cases exec_mapEffect h.mapped hstep.1 with
  | same hadd hremove hsame =>
      rw [hsame.assetsMapped]
      have hkeeps : KeepsOrder coins s step := by
        unfold KeepsOrder
        split
        · exact absurd ‹_› (hremove _)
        · exact absurd ‹_› (hadd _ _)
        · trivial
      exact iff_of_true hprefix hkeeps
  | added asset pToken haction _ _ _ hbase =>
      rw [hbase, KeepsOrder, haction]
      exact concat_prefix_iff hprefix
  | removed assetIndex asset haction hasset _ hlist =>
      obtain ⟨hlt, -⟩ := List.getElem?_eq_some_iff.mp hasset
      rw [hlist, KeepsOrder, haction]
      exact swapRemoveAt_prefix_iff hprefix hpool.nodup hlt

/-- From an initialization with the pool's coins in their order, the indices are right in every
state of a run exactly when every removal took the last asset and every asset that was added
was the next coin. -/
theorem coinsMatch_iff {init : ThreePoolStrategy × ω}
    {trace : List ((ThreePoolStrategy × ω) × (Address × Action ω))} {s : ThreePoolStrategy × ω}
    {self governor sender vaultAddress rewardTokenAddress crvGaugeAddress crvMinterAddress :
      Address} {assets pTokens : List Address} {w : ω} (hpool : IsPool P pool coins)
    (hassets : assets <+: coins)
    (hinit : (deployed self governor).initialized P w sender pool vaultAddress
      rewardTokenAddress assets pTokens crvGaugeAddress crvMinterAddress = .ok init)
    (hrun : Run (Step P coins) init trace s) :
    ((∀ e ∈ trace, CoinsMatch P e.1) ∧ CoinsMatch P s) ↔
      ∀ e ∈ trace, KeepsOrder coins e.1 e.2 := by
  obtain ⟨_, -, hinit⟩ := bind_eq_ok.mp hinit
  obtain ⟨⟨base, w'⟩, hbase, hinit⟩ := bind_eq_ok.mp hinit
  cases pure_eq_ok.mp hinit
  have hfrom := AbstractStrategy.initializeWith_eq_ok hbase
  have hlist : base.assetsMapped = assets := hfrom.assetsMapped
  have hconfigured : Configured pool coins
      (({ toAbstractStrategy := base, crvGaugeAddress, crvMinterAddress }, w') :
        ThreePoolStrategy × ω) := by
    refine ⟨hfrom.mapped (AbstractStrategy.mapped_deployed self governor),
      hfrom.platformAddress, ?_⟩
    rw [hlist]
    exact hassets.subset
  refine hrun.forall_iff (Configured pool coins) (CoinsMatch P) (KeepsOrder coins) hconfigured
    ?_ (fun s step s' h hstep => h.next hstep)
    (fun s step s' h hmatch hstep => step_keepsOrder_iff hpool h hmatch hstep)
  refine (coinsMatch_iff_isPrefix hpool hconfigured.mapped hconfigured.platform
    hconfigured.coins).mpr ?_
  rw [hlist]
  exact hassets

/-- The pool of a plain market names its coins in their order. -/
theorem isPool_calls (m : PlainMarket) (pool : Address) (hlength : m.poolCoins.length = 3)
    (hnodup : m.poolCoins.Nodup) : IsPool (PlainPlatform.calls m) pool m.poolCoins where
  length := hlength
  nodup := hnodup
  coins_eq w i coin hcoin := by
    simp only [PlainPlatform.calls, PlainPlatform.coinAt, hcoin]

section

open PlainPlatform

/-- The last coin of the pool is removed and added again. -/
theorem coinsMatch_added_again :
    ∃ init trace s,
      (deployed 21 8).initialized (calls market) empty 8 40 9 44 [4, 5, 6] [41, 41, 41] 42 43 =
        .ok init ∧
      Run (Step (calls market) [4, 5, 6]) init trace s ∧ trace.length = 2 ∧
        s.1.assetsMapped = [4, 5, 6] ∧ CoinsMatch (calls market) s := by
  have hsteps : Returns
      ((deployed 21 8).initialized (calls market) empty 8 40 9 44 [4, 5, 6] [41, 41, 41] 42 43)
      fun init => Returns
        (execTrace (exec (calls market)) [] init
          [(8, .removePToken 2), (8, .setPTokenAddress 6 41)])
        fun out => out.1.length = 2 ∧ out.2.1.assetsMapped = [4, 5, 6] ∧
          (∀ e ∈ out.1, AddsCoin [4, 5, 6] e.2.2) ∧
            ∀ e ∈ out.1, KeepsOrder [4, 5, 6] e.1 e.2 := by
    decide
  obtain ⟨init, hinit, ⟨trace, s⟩, hout, hlength, hlist, hadds, hkeeps⟩ := hsteps
  have hrun : Run (Step (calls market) [4, 5, 6]) init trace s :=
    (run_of_execTrace .nil hout).imp_of_forall (fun _ step => AddsCoin [4, 5, 6] step.2)
      (fun _ _ _ hadd hexec => ⟨hexec, hadd⟩) hadds
  have hpool : IsPool (calls market) 40 [4, 5, 6] := isPool_calls market 40 rfl (by decide)
  exact ⟨init, trace, s, hinit, hrun, hlength, hlist,
    ((coinsMatch_iff hpool List.prefix_rfl hinit hrun).mpr hkeeps).2⟩

/-- The first coin of the pool is removed, and the last one takes its place in the list: its
index is now the first, where the pool has the coin that was removed. -/
theorem coinsMatch_lost :
    ∃ init trace s,
      (deployed 21 8).initialized (calls market) empty 8 40 9 44 [4, 5, 6] [41, 41, 41] 42 43 =
        .ok init ∧
      Run (Step (calls market) [4, 5, 6]) init trace s ∧ s.1.assetToPToken 6 ≠ 0 ∧
        s.1.getPoolCoinIndex 6 = .ok 0 ∧ (calls market).coins s.2 s.1.platformAddress 0 = .ok 4 ∧
          (calls market).coins s.2 s.1.platformAddress 2 = .ok 6 ∧
            ¬ CoinsMatch (calls market) s := by
  have hsteps : Returns
      ((deployed 21 8).initialized (calls market) empty 8 40 9 44 [4, 5, 6] [41, 41, 41] 42 43)
      fun init => Returns
        (execTrace (exec (calls market)) [] init [(8, .removePToken 0)])
        fun out => (∀ e ∈ out.1, AddsCoin [4, 5, 6] e.2.2) ∧ out.2.1.assetToPToken 6 ≠ 0 ∧
          Returns (out.2.1.getPoolCoinIndex 6) (· = 0) := by
    decide
  obtain ⟨init, hinit, ⟨trace, s⟩, hout, hadds, hmapped, _, hindex, rfl⟩ := hsteps
  have hrun : Run (Step (calls market) [4, 5, 6]) init trace s :=
    (run_of_execTrace .nil hout).imp_of_forall (fun _ step => AddsCoin [4, 5, 6] step.2)
      (fun _ _ _ hadd hexec => ⟨hexec, hadd⟩) hadds
  refine ⟨init, trace, s, hinit, hrun, hmapped, hindex, rfl, rfl, fun hmatch => ?_⟩
  obtain ⟨i, hi, hcoin⟩ := hmatch 6 hmapped
  cases hindex.symm.trans hi
  have hfirst : (calls market).coins s.2 s.1.platformAddress 0 = .ok 4 := rfl
  have hne : (4 : Address) ≠ 6 := by decide
  exact hne (Except.ok.inj (hfirst.symm.trans hcoin))

end

end ThreePoolStrategy

end InterestDollar
