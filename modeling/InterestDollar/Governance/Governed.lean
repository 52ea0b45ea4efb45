import InterestDollar.Governance.Offices
import InterestDollar.Governance.Safety
import InterestDollar.Vault.Authority

/-!
# The vault under the timelock

The governor of the vault is the timelock. A call that the timelock makes of the vault is one
of an executed proposal, or the pausing and unpausing of capital, which its admin orders
without a delay. Everybody else calls the vault from an address of their own, also while a
proposal is under way.

What the bytes of a call ask the vault or its token for is decided by their dispatch, which
is a parameter. Nothing a dispatch does gets around the delay: what changes in the vault was
queued, but for the pausing and what the strategist steers, and so was the naming of any
governor that follows the timelock.
-/

namespace InterestDollar

open Checked Transition

/-- What the bytes of a call ask the vault and its token for. -/
structure Dispatch (ω : Type) where
  vault : List UInt8 → Option (Action ω)
  oUSD : List UInt8 → Option Ledger.Call

/-- The vault, its token and the world, with the timelock. -/
structure Governed (ω : Type) where
  timelock : Governance.State
  system : System ω

namespace Governed

/-- A step of the timelock, an order of its admin, or a step of the system. -/
inductive Action (ω : Type)
  | timelock (action : Governance.Action)
  | pauseCapital (target : Address)
  | unpauseCapital (target : Address)
  | system (action : InterestDollar.Action ω)

variable {ω : Type} (W : World ω) (keccak256 : List UInt8 → Bytes32)
  (D : Dispatch ω)

/-- The timelock calls the vault or its token; a call of anything else only hands over
control. -/
def callTarget (g : Governed ω) (target : Address) (callData : List UInt8) :
    Except Revert (System ω) :=
  if target = g.system.vault.self then
    match D.vault callData with
    | none | some (.environment _) | some (.ousd _) => .error (.require "No such function")
    | some action => g.system.execFrom W (g.timelock.self, action)
  else if target = W.oUSD then
    match D.oUSD callData with
    | none => .error (.require "No such function")
    | some call => g.system.execFrom W (g.timelock.self, .ousd call)
  else .ok g.system

/-- A step of the timelock, with the call it makes. -/
def execTimelock (g : Governed ω) (step : Address × Governance.Action) :
    Except Revert (Governed ω) := do
  let timelock ← g.timelock.exec keccak256 step
  match g.timelock.externalCall keccak256 step with
  | none => return ⟨timelock, g.system⟩
  | some made => do
      let system ← g.callTarget W D made.target made.callData
      return ⟨timelock, system⟩

/-- `Timelock.pauseCapital` and `Timelock.unpauseCapital`, which differ in the function they
call. -/
def orderCapital (g : Governed ω) (sender target : Address) (action : InterestDollar.Action ω)
    (reason : String) : Except Revert (Governed ω) := do
  require (sender = g.timelock.admin) reason
  if target = g.system.vault.self then do
    let system ← g.system.execFrom W (g.timelock.self, action)
    return { g with system := system }
  else return g

def pauseCapital (g : Governed ω) (sender target : Address) : Except Revert (Governed ω) :=
  g.orderCapital W sender target .pauseCapital
    "Timelock::pauseCapital: Call must come from admin."

def unpauseCapital (g : Governed ω) (sender target : Address) : Except Revert (Governed ω) :=
  g.orderCapital W sender target .unpauseCapital
    "Timelock::unpauseCapital: Call must come from admin."

/-- A step by an account. The address of the timelock is the timelock's. -/
def execSystem (g : Governed ω) (step : Address × InterestDollar.Action ω) :
    Except Revert (Governed ω) := do
  require (step.1 ≠ g.timelock.self) "Not an account"
  let system ← g.system.execFrom W step
  return { g with system := system }

def exec (g : Governed ω) (step : Address × Action ω) : Except Revert (Governed ω) :=
  match step.2 with
  | .timelock action => g.execTimelock W keccak256 D (step.1, action)
  | .pauseCapital target => do
      require g.timelock.Yielded "Not in control"
      g.pauseCapital W step.1 target
  | .unpauseCapital target => do
      require g.timelock.Yielded "Not in control"
      g.unpauseCapital W step.1 target
  | .system action => do
      require g.timelock.Yielded "Not in control"
      g.execSystem W (step.1, action)

/-- The timelock is a fresh one, and governs the vault. -/
structure Reached (init : Governed ω) (trace : List (Governed ω × (Address × Action ω)))
    (g : Governed ω) : Prop where
  constructed : ∃ self admin delay now,
    Governance.State.constructed self admin delay now = .ok init.timelock
  governor : init.system.vault.governor = init.timelock.self
  run : Run (fun g step g' => g.exec W keccak256 D step = .ok g') init trace g

variable {W keccak256 D} {g g' : Governed ω} {init : Governed ω}
  {trace : List (Governed ω × (Address × Action ω))}

/-! ## The run of the timelock -/

/-- What a step of the whole is for the timelock. -/
def timelockStep (e : Governed ω × (Address × Action ω)) :
    Option (Governance.State × (Address × Governance.Action)) :=
  match e.2.2 with
  | .timelock action => some (e.1.timelock, (e.2.1, action))
  | _ => none

theorem execTimelock_eq_ok {step : Address × Governance.Action}
    (h : g.execTimelock W keccak256 D step = .ok g') :
    g.timelock.exec keccak256 step = .ok g'.timelock ∧
      (g.timelock.externalCall keccak256 step = none ∧ g'.system = g.system ∨
        ∃ made, g.timelock.externalCall keccak256 step = some made ∧
          g.callTarget W D made.target made.callData = .ok g'.system) := by
  obtain ⟨timelock, htimelock, h⟩ := bind_eq_ok.mp h
  cases hmade : g.timelock.externalCall keccak256 step with
  | none =>
      rw [hmade] at h
      cases pure_eq_ok.mp h
      exact ⟨htimelock, .inl ⟨rfl, rfl⟩⟩
  | some made =>
      rw [hmade] at h
      obtain ⟨system, hsystem, h⟩ := bind_eq_ok.mp h
      cases pure_eq_ok.mp h
      exact ⟨htimelock, .inr ⟨made, rfl, hsystem⟩⟩

theorem execTimelock_timelock {step : Address × Governance.Action}
    (h : g.execTimelock W keccak256 D step = .ok g') :
    g.timelock.exec keccak256 step = .ok g'.timelock := (execTimelock_eq_ok h).1

theorem orderCapital_eq_ok {sender target : Address} {action : InterestDollar.Action ω}
    {reason : String} (h : g.orderCapital W sender target action reason = .ok g') :
    sender = g.timelock.admin ∧ g'.timelock = g.timelock ∧
      (g'.system = g.system ∨
        g.system.execFrom W (g.timelock.self, action) = .ok g'.system) := by
  obtain ⟨_, hadmin, h⟩ := bind_eq_ok.mp h
  refine ⟨require_eq_ok.mp hadmin, ?_⟩
  split_ifs at h
  · obtain ⟨system, hsystem, h⟩ := bind_eq_ok.mp h
    cases pure_eq_ok.mp h
    exact ⟨rfl, .inr hsystem⟩
  · cases pure_eq_ok.mp h
    exact ⟨rfl, .inl rfl⟩

/-- What an order of the admin makes of the vault. -/
theorem pauseCapital_vault {sender target : Address}
    (h : g.pauseCapital W sender target = .ok g') :
    sender = g.timelock.admin ∧ g'.timelock = g.timelock ∧
      ∃ paused, g'.system.vault = { g.system.vault with capitalPaused := paused } := by
  obtain ⟨hadmin, htimelock, hsame | hpause⟩ := orderCapital_eq_ok h
  · exact ⟨hadmin, htimelock, g.system.vault.capitalPaused, by rw [hsame]⟩
  · obtain ⟨_, -, hexec⟩ := bind_eq_ok.mp (System.execFrom_eq_ok.mp hpause).2
    have hvault := congrArg System.vault (pure_eq_ok.mp hexec)
    exact ⟨hadmin, htimelock, true, hvault.symm⟩

theorem unpauseCapital_vault {sender target : Address}
    (h : g.unpauseCapital W sender target = .ok g') :
    sender = g.timelock.admin ∧ g'.timelock = g.timelock ∧
      ∃ paused, g'.system.vault = { g.system.vault with capitalPaused := paused } := by
  obtain ⟨hadmin, htimelock, hsame | hpause⟩ := orderCapital_eq_ok h
  · exact ⟨hadmin, htimelock, g.system.vault.capitalPaused, by rw [hsame]⟩
  · obtain ⟨_, -, hexec⟩ := bind_eq_ok.mp (System.execFrom_eq_ok.mp hpause).2
    have hvault := congrArg System.vault (pure_eq_ok.mp hexec)
    exact ⟨hadmin, htimelock, false, hvault.symm⟩

theorem execSystem_eq_ok {step : Address × InterestDollar.Action ω}
    (h : g.execSystem W step = .ok g') :
    step.1 ≠ g.timelock.self ∧ g'.timelock = g.timelock ∧
      System.Steps W g.system step g'.system := by
  obtain ⟨_, hself, h⟩ := bind_eq_ok.mp h
  obtain ⟨system, hsystem, h⟩ := bind_eq_ok.mp h
  cases pure_eq_ok.mp h
  exact ⟨require_eq_ok.mp hself, rfl, hsystem⟩

/-- A call of a target other than the vault leaves the storage of the vault alone; a call of
the vault comes from the timelock. -/
theorem callTarget_eq_ok {target : Address} {callData : List UInt8} {system : System ω}
    (h : g.callTarget W D target callData = .ok system) :
    system.vault = g.system.vault ∨ target = g.system.vault.self ∧
      ∃ action, System.Steps W g.system (g.timelock.self, action) system := by
  unfold callTarget at h
  split_ifs at h with hvault hoUSD
  · split at h
    · cases h
    · cases h
    · cases h
    · exact .inr ⟨hvault, _, h⟩
  · split at h
    · cases h
    · exact .inl (System.callOusd_vault (System.execFrom_eq_ok.mp h).2)
  · cases h
    exact .inl rfl

/-- The steps of a run that are the timelock's make a run of the timelock. -/
theorem Reached.timelock (h : Reached W keccak256 D init trace g) :
    Governance.State.Reached keccak256 init.timelock (trace.filterMap timelockStep)
      g.timelock := by
  refine ⟨h.constructed, ?_⟩
  refine h.run.filterMap Governed.timelock timelockStep fun g step g' hexec => ?_
  obtain ⟨sender, action⟩ := step
  cases action with
  | timelock action => exact .inr ⟨(sender, action), rfl, execTimelock_timelock hexec⟩
  | pauseCapital target =>
      obtain ⟨_, -, hexec⟩ := bind_eq_ok.mp hexec
      exact .inl ⟨rfl, (pauseCapital_vault hexec).2.1⟩
  | unpauseCapital target =>
      obtain ⟨_, -, hexec⟩ := bind_eq_ok.mp hexec
      exact .inl ⟨rfl, (unpauseCapital_vault hexec).2.1⟩
  | system action =>
      obtain ⟨_, -, hexec⟩ := bind_eq_ok.mp hexec
      exact .inl ⟨rfl, (execSystem_eq_ok hexec).2.1⟩

/-! ## What changes in the vault -/

/-- The account whose call the vault gets in a step. -/
def actor (e : Governed ω × (Address × Action ω)) : Address :=
  match e.2.2 with
  | .system _ => e.2.1
  | _ => e.1.timelock.self

variable (keccak256) in
/-- The step is a call of the vault by the timelock, of a proposal that the admin queued, whose
delay is over and whose grace period is not. -/
def Queued (before : List (Governed ω × (Address × Action ω))) (g : Governed ω) : Prop :=
  ∃ made : Governance.ExternalCall, made.target = g.system.vault.self ∧
    Governance.State.InWindow keccak256 (before.filterMap timelockStep) g.timelock.now made

variable (keccak256) in
/-- A step that changes the storage of a vault that the timelock governs. -/
inductive Change (before : List (Governed ω × (Address × Action ω))) (g : Governed ω)
    (sender : Address) (g' : Governed ω) : Prop
  | queued : Queued keccak256 before g → Change before g sender g'
  | ordered (paused : Bool) : sender = g.timelock.admin →
      g'.system.vault = { g.system.vault with capitalPaused := paused } →
      Change before g sender g'
  | steered : sender = g.system.vault.strategistAddr → g.system.vault.Steered g'.system.vault →
      Change before g sender g'
  | claimed : sender = g.system.vault.pendingGovernor → sender ≠ 0 → sender ≠ g.timelock.self →
      g'.system.vault = { g.system.vault with governor := sender } → Change before g sender g'

/-- In an account's own step on a vault that the timelock governs, what the governor may do is
not done. -/
theorem execSystem_change {before : List (Governed ω × (Address × Action ω))}
    {step : Address × InterestDollar.Action ω}
    (hgovernor : g.system.vault.governor = g.timelock.self)
    (h : g.execSystem W step = .ok g') (hchange : g'.system.vault ≠ g.system.vault) :
    Change keccak256 before g step.1 g' := by
  obtain ⟨hself, -, hstep⟩ := execSystem_eq_ok h
  rw [← hgovernor] at hself
  have hauthority := hstep.authority
  generalize hvault : g'.system.vault = v at hauthority hchange
  cases hauthority with
  | anybody => exact absurd rfl hchange
  | strategist hsender hsteered =>
      exact .steered (hsender.resolve_right hself) (hvault ▸ hsteered)
  | governor hsender => exact absurd hsender hself
  | claim hsender hne => exact .claimed hsender hne (hgovernor ▸ hself) hvault

theorem exec_change {before : List (Governed ω × (Address × Action ω))}
    {step : Address × Action ω} (h : Reached W keccak256 D init before g)
    (hinj : init.timelock.now ≤ Governance.gracePeriod → Set.InjOn keccak256
      (Governance.State.hashedIn keccak256 (((g, step) :: before).filterMap timelockStep)))
    (hgovernor : g.system.vault.governor = g.timelock.self)
    (hexec : g.exec W keccak256 D step = .ok g')
    (hchange : g'.system.vault ≠ g.system.vault) : Change keccak256 before g step.1 g' := by
  obtain ⟨sender, action⟩ := step
  cases action with
  | timelock action =>
      obtain ⟨htimelock, ⟨-, hsame⟩ | ⟨made, hmade, hcall⟩⟩ := execTimelock_eq_ok hexec
      · exact absurd (congrArg System.vault hsame) hchange
      · rcases callTarget_eq_ok hcall with hsame | ⟨htarget, -⟩
        · exact absurd hsame hchange
        · exact .queued ⟨made, htarget,
            h.timelock.inWindow (Governance.State.exec_effect htimelock) hinj hmade⟩
  | pauseCapital target =>
      obtain ⟨_, -, hexec⟩ := bind_eq_ok.mp hexec
      obtain ⟨hadmin, -, paused, hvault⟩ := pauseCapital_vault hexec
      exact .ordered paused hadmin hvault
  | unpauseCapital target =>
      obtain ⟨_, -, hexec⟩ := bind_eq_ok.mp hexec
      obtain ⟨hadmin, -, paused, hvault⟩ := unpauseCapital_vault hexec
      exact .ordered paused hadmin hvault
  | system action =>
      obtain ⟨_, -, hexec⟩ := bind_eq_ok.mp hexec
      exact execSystem_change hgovernor hexec hchange

/-- Whatever a step does to the office of the governor is done by the account that calls. -/
theorem exec_office {step : Address × Action ω} (hexec : g.exec W keccak256 D step = .ok g') :
    Office.Step (actor (g, step)) g.system.vault.office g'.system.vault.office := by
  have hordered (hsame : ∃ paused,
      g'.system.vault = { g.system.vault with capitalPaused := paused }) :
      Office.Step (actor (g, step)) g.system.vault.office g'.system.vault.office := by
    obtain ⟨paused, hvault⟩ := hsame
    rw [hvault]
    exact .keep
  obtain ⟨sender, action⟩ := step
  cases action with
  | timelock action =>
      obtain ⟨-, ⟨-, hsame⟩ | ⟨made, -, hcall⟩⟩ := execTimelock_eq_ok hexec
      · exact hsame ▸ .keep
      · rcases callTarget_eq_ok hcall with hsame | ⟨-, action, hstep⟩
        · exact hsame ▸ .keep
        · exact hstep.authority.office_step
  | pauseCapital target =>
      obtain ⟨_, -, hexec⟩ := bind_eq_ok.mp hexec
      exact hordered (pauseCapital_vault hexec).2.2
  | unpauseCapital target =>
      obtain ⟨_, -, hexec⟩ := bind_eq_ok.mp hexec
      exact hordered (unpauseCapital_vault hexec).2.2
  | system action =>
      obtain ⟨_, -, hexec⟩ := bind_eq_ok.mp hexec
      exact (execSystem_eq_ok hexec).2.2.authority.office_step

theorem Reached.earlier {e : Governed ω × (Address × Action ω)}
    {after before : List (Governed ω × (Address × Action ω))}
    (h : Reached W keccak256 D init (after ++ e :: before) g) :
    Reached W keccak256 D init before e.1 :=
  ⟨h.constructed, h.governor, h.run.split.1⟩

theorem Reached.self (h : Reached W keccak256 D init trace g) :
    g.timelock.self = init.timelock.self :=
  h.timelock.run.invariant (fun t => t.self = init.timelock.self) rfl fun _ _ _ ht hexec =>
    (Governance.State.exec_office hexec).1.trans ht

theorem hashedIn_mono {trace trace' : List (Governed ω × (Address × Action ω))}
    (h : ∀ e ∈ trace, e ∈ trace') :
    Governance.State.hashedIn keccak256 (trace.filterMap timelockStep) ⊆
      Governance.State.hashedIn keccak256 (trace'.filterMap timelockStep) := by
  rintro x ⟨e, he, hx⟩
  obtain ⟨e', he', hlabel⟩ := List.mem_filterMap.mp he
  exact ⟨e, List.mem_filterMap.mpr ⟨e', h e' he', hlabel⟩, hx⟩

variable (keccak256) in
/-- The heir of the governor was put in by a queued call, and nothing happened to the office
since. -/
def HeirQueued (before : List (Governed ω × (Address × Action ω))) (g : Governed ω) : Prop :=
  ∃ between e rest, before = between ++ e :: rest ∧ Queued keccak256 rest e.1 ∧
    e.1.system.vault.pendingGovernor ≠ g.system.vault.pendingGovernor ∧
    ∀ x ∈ between, x.1.system.vault.office = g.system.vault.office

/-- The bytes of `transferGovernance(address)`. -/
def transferGovernanceSignature : List UInt8 :=
  [116, 114, 97, 110, 115, 102, 101, 114, 71, 111, 118, 101, 114, 110, 97, 110, 99, 101, 40, 97,
    100, 100, 114, 101, 115, 115, 41]

/-- The dispatch of the vault, as far as `transferGovernance`. -/
def transferDispatch : Dispatch PlainWorld where
  vault callData :=
    let selector := (bytes 32 (InterestDollar.keccak256 transferGovernanceSignature).toNat).take 4
    if callData.take 4 = selector then
      let word := (callData.drop 4).foldl (fun n byte => 256 * n + byte.toNat) 0
      some (.transferGovernance (OfNat.ofNat word))
    else none
  oUSD _ := none

end Governed

end InterestDollar
