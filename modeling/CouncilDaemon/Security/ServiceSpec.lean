import CouncilDaemon.Security.SecurityService

/-!
# What the segments of the security service do

A segment changes nothing but the active wallet, which becomes the one its context designates, and
the flags; it may record one event. The contract it works with is the cached one.
-/

namespace CouncilDaemon

namespace SecurityService

open Service WalletService RepositoryService

variable (deps : SecurityDeps)

/-- The wallet that acts for a context: the first one, or on the fifth version the one at the
delegate's address. -/
def designatedWallet (context : GuardianExecutionContext) : Option Wallet :=
  if context.dsmVersion = dsmContractVersion5 then
    (deps.ethers.getAddress context.delegateAddress).toOption.bind fun normalizedAddress =>
      deps.wallets.find? (·.address = normalizedAddress)
  else some (firstWallet deps)

variable {deps} {context : GuardianExecutionContext} {s : SecurityState}

theorem designatedWallet_v5 (h : context.dsmVersion = dsmContractVersion5) {wallet : Wallet}
    (hwallet : designatedWallet deps context = some wallet) :
    wallet ∈ deps.wallets ∧ deps.ethers.getAddress context.delegateAddress = .ok wallet.address := by
  rw [designatedWallet, if_pos h] at hwallet
  cases haddress : deps.ethers.getAddress context.delegateAddress with
  | error e => rw [haddress] at hwallet; cases hwallet
  | ok normalizedAddress =>
    rw [haddress] at hwallet
    have hfind : deps.wallets.find? (·.address = normalizedAddress) = some wallet := hwallet
    have hmatch : wallet.address = normalizedAddress := by
      have := List.find?_some hfind
      rwa [decide_eq_true_eq] at this
    exact ⟨List.mem_of_find?_eq_some hfind, congrArg Except.ok hmatch.symm⟩

theorem designatedWallet_v4 (h : context.dsmVersion ≠ dsmContractVersion5) :
    designatedWallet deps context = some (firstWallet deps) :=
  if_neg h

/-! ## Wallets and contracts -/

theorem triple_selectDelegateWallet (delegateAddress : String) :
    Triple (· = s) (selectDelegateWallet deps delegateAddress)
      (fun _ t => ∃ wallet, ((deps.ethers.getAddress delegateAddress).toOption.bind fun address =>
        deps.wallets.find? (·.address = address)) = some wallet ∧
        t = { s with activeWallet := some wallet }) (· = s) := by
  unfold selectDelegateWallet
  refine Triple.bind (Q := fun address t => deps.ethers.getAddress delegateAddress = .ok address ∧
    t = s) (triple_call (fun address t h ht => ⟨h, ht⟩) fun t ht => ht) fun address => ?_
  cases hfind : deps.wallets.find? (·.address = address) with
  | none => exact triple_throw fun t ht => ht.2
  | some wallet =>
    refine triple_modify ?_
    rintro t ⟨haddress, rfl⟩
    refine ⟨wallet, ?_, rfl⟩
    rw [haddress]
    exact hfind

/-- The wallet of the context becomes active, or there is none and nothing changes. -/
theorem triple_selectWallet :
    Triple (· = s) (selectWallet deps context)
      (fun _ t => ∃ wallet, designatedWallet deps context = some wallet ∧
        t = { s with activeWallet := some wallet }) (· = s) := by
  by_cases h : context.dsmVersion = dsmContractVersion5
  · have hsigner : (getDsmStrategy deps.ethers (some context.dsmVersion)).signer = .delegate := by
      rw [h]
      rfl
    unfold selectWallet designatedWallet
    rw [hsigner, if_pos h]
    exact triple_selectDelegateWallet context.delegateAddress
  · have hsigner : (getDsmStrategy deps.ethers (some context.dsmVersion)).signer = .legacy := by
      rw [getDsmStrategy, if_neg fun h5 => h (Option.some.inj h5)]
      rfl
    unfold selectWallet
    rw [hsigner]
    refine triple_modify ?_
    rintro t rfl
    exact ⟨_, designatedWallet_v4 h, rfl⟩

theorem triple_getCachedDSMContract :
    Triple (· = s) getCachedDSMContract (fun contract t => s.dsmContract = some contract ∧ t = s)
      (· = s) := by
  unfold getCachedDSMContract
  refine Triple.bind (triple_get (Q := fun t t' => t = s ∧ t' = s) fun t ht => ⟨ht, ht⟩) ?_
  intro t
  cases hcontract : t.dsmContract with
  | none => exact triple_throw fun _ ht => ht.2
  | some contract =>
    refine triple_pure ?_
    rintro t' ⟨rfl, rfl⟩
    exact ⟨hcontract, rfl⟩

theorem triple_getContractWithSigner :
    Triple (· = s) (getContractWithSigner deps) (fun connected t =>
      s.dsmContract = some connected.address ∧
      connected.signer = (s.activeWallet.getD (firstWallet deps)).address ∧ t = s) (· = s) := by
  unfold getContractWithSigner
  refine Triple.bind (Q := fun wallet t => wallet = s.activeWallet.getD (firstWallet deps) ∧ t = s)
    ?_ fun wallet => ?_
  · rintro t rfl
    constructor
    · intro wallet t' hrun
      cases hrun
      exact ⟨rfl, rfl⟩
    · intro e t' hrun
      cases hrun
  · refine Triple.bind (Q := fun contract t => s.dsmContract = some contract ∧
      wallet = s.activeWallet.getD (firstWallet deps) ∧ t = s) ?_ fun contract => ?_
    · rintro t ⟨hwallet, rfl⟩
      exact (triple_getCachedDSMContract (s := t)).mono (A := (· = t)) (fun _ h => h)
        (fun contract t' h => ⟨h.1, hwallet, h.2⟩) (fun _ h => h) t rfl
    · refine triple_pure ?_
      rintro t ⟨hcontract, rfl, rfl⟩
      exact ⟨hcontract, rfl, rfl⟩

/-! ## The execution context -/

/-- The address of the contract the context is made for. -/
def ContextThread.dsmAddress : ContextThread → String
  | version dsmAddress => dsmAddress
  | guardians dsmAddress _ _ => dsmAddress
  | code dsmAddress _ _ => dsmAddress
  | delegation dsmAddress _ _ => dsmAddress

variable (deps) in
/-- The wallet that a segment of `getGuardianExecutionContext` selects, if it gets there. -/
def ContextThread.selects : ContextThread → ContextAnswer → Option Wallet
  | version _, .version (.ok currentVersion) =>
    if currentVersion ∈ dsmContractSupportedVersions ∧ currentVersion ≠ dsmContractVersion5 then
      some (firstWallet deps)
    else none
  | delegation _ _ _, .delegation (.ok answer) => do
    let delegateAddress ← (deps.ethers.getAddress answer.effectiveDelegate).toOption
    let normalizedAddress ← (deps.ethers.getAddress delegateAddress).toOption
    deps.wallets.find? (·.address = normalizedAddress)
  | _, _ => none

/-- `t` is `s`, perhaps with another active wallet. -/
def Selected (selects : Option Wallet) (s t : SecurityState) : Prop :=
  t = s ∨ ∃ wallet, selects = some wallet ∧ t = { s with activeWallet := some wallet }

theorem triple_getGuardianExecutionContext :
    Triple (· = s) (getGuardianExecutionContext deps) (fun thread t =>
      (∃ contract, s.dsmContract = some contract ∧
        deps.ethers.getAddress contract = .ok thread.dsmAddress) ∧ t = s) (· = s) := by
  unfold getGuardianExecutionContext
  refine Triple.bind triple_getCachedDSMContract fun contract => ?_
  refine Triple.bind (Q := fun dsmAddress t => (∃ contract, s.dsmContract = some contract ∧
      deps.ethers.getAddress contract = .ok dsmAddress) ∧ t = s) ?_ fun dsmAddress => ?_
  · exact triple_call (fun dsmAddress t h ht => ⟨⟨contract, ht.1, h⟩, ht.2⟩) fun t ht => ht.2
  · refine Triple.bind (Q := fun _ t => (∃ contract, s.dsmContract = some contract ∧
      deps.ethers.getAddress contract = .ok dsmAddress) ∧ t = s) ?_ fun _ => triple_pure fun _ h => h
    rintro t ⟨hcontract, rfl⟩
    exact (triple_getContractWithSigner (s := t)).mono (A := (· = t)) (fun _ h => h)
      (fun _ t' h => ⟨hcontract, h.2.2⟩) (fun _ h => h) t rfl

/-- The wallet does not matter to what is checked before the wait. -/
theorem triple_legacyBranch (dsmAddress : String) (currentVersion : ℕ) :
    Triple (· = s) (do
      selectLegacyWallet deps
      let wallet ← wallet deps
      let delegateAddress ← Service.call (deps.ethers.getAddress wallet.address)
      let _ ← getCachedDSMContract
      return ContextThread.guardians dsmAddress currentVersion delegateAddress)
      (fun next t => next.dsmAddress = dsmAddress ∧
        t = { s with activeWallet := some (firstWallet deps) })
      (· = { s with activeWallet := some (firstWallet deps) }) := by
  refine Triple.bind (Q := fun _ t => t = { s with activeWallet := some (firstWallet deps) }) ?_
    fun _ => ?_
  · refine triple_modify ?_
    rintro t rfl
    rfl
  · refine Triple.bind (Q := fun _ t => t = { s with activeWallet := some (firstWallet deps) }) ?_
      fun wallet => ?_
    · rintro t rfl
      exact ⟨fun _ _ hrun => (by cases hrun; rfl), fun _ _ hrun => (by cases hrun)⟩
    · refine Triple.bind (triple_call (Q := fun _ t =>
        t = { s with activeWallet := some (firstWallet deps) }) (fun _ _ _ h => h) fun _ h => h)
        fun delegateAddress => ?_
      refine Triple.bind (triple_getCachedDSMContract (s := _)) fun _ => ?_
      exact triple_pure fun t h => ⟨rfl, h.2⟩

theorem triple_contextAtVersion (dsmAddress : String) (currentVersion : ℕ) :
    Triple (· = s) (contextAtVersion deps dsmAddress currentVersion) (fun next t =>
      next.dsmAddress = dsmAddress ∧
      Selected ((ContextThread.version dsmAddress).selects deps (.version (.ok currentVersion))) s t)
      (Selected ((ContextThread.version dsmAddress).selects deps (.version (.ok currentVersion))) s)
      := by
  unfold contextAtVersion
  dsimp only
  by_cases hsupported : currentVersion ∉ dsmContractSupportedVersions
  · rw [if_pos hsupported]
    exact triple_throw_bind fun t ht => Or.inl ht
  rw [if_neg hsupported]
  by_cases hversion : currentVersion ≠ dsmContractVersion5
  · have hselects : (ContextThread.version dsmAddress).selects deps
        (.version (.ok currentVersion)) = some (firstWallet deps) :=
      if_pos ⟨not_not.1 hsupported, hversion⟩
    rw [if_pos hversion]
    exact (triple_legacyBranch dsmAddress currentVersion).mono (fun _ h => h)
      (fun next t h => ⟨h.1, Or.inr ⟨_, hselects, h.2⟩⟩) fun t h => Or.inr ⟨_, hselects, h⟩
  rw [if_neg hversion]
  cases deps.DELEGATION_CONTRACT_ADDRESS with
  | none => exact triple_throw fun t ht => Or.inl ht
  | some configuredAddress =>
    dsimp only
    by_cases hvalid : deps.ethers.isAddress configuredAddress = true
    · rw [if_pos hvalid]
      refine Triple.bind (triple_call (Q := fun _ t => t = s) (fun _ _ _ h => h) fun _ h => Or.inl h)
        fun guardianAddress => ?_
      exact triple_pure fun t h => ⟨rfl, Or.inl h⟩
    · rw [if_neg hvalid]
      exact triple_throw fun t ht => Or.inl ht

theorem triple_contextAtDelegation (dsmAddress : String) (dsmVersion : ℕ) (guardianAddress : String)
    (answer : DelegationAnswer) :
    Triple (· = s) (contextAtDelegation deps dsmAddress dsmVersion guardianAddress answer)
      (fun context t => context.dsmAddress = dsmAddress ∧ Selected
        ((ContextThread.delegation dsmAddress dsmVersion guardianAddress).selects deps
          (.delegation (.ok answer))) s t)
      (Selected ((ContextThread.delegation dsmAddress dsmVersion guardianAddress).selects deps
        (.delegation (.ok answer))) s) := by
  unfold contextAtDelegation
  dsimp only
  by_cases hterminated : answer.terminated = true
  · rw [if_pos hterminated]
    exact triple_throw_bind fun t ht => Or.inl ht
  rw [if_neg hterminated]
  by_cases hzero : answer.effectiveDelegate = zeroAddress
  · rw [if_pos hzero]
    exact triple_throw_bind fun t ht => Or.inl ht
  rw [if_neg hzero]
  refine Triple.bind (triple_call (Q := fun delegateAddress t =>
    deps.ethers.getAddress answer.effectiveDelegate = .ok delegateAddress ∧ t = s)
    (fun _ _ h ht => ⟨h, ht⟩) fun t ht => Or.inl ht) fun delegateAddress => ?_
  by_cases hsupports : (!answer.supportsErc1271) = true
  · rw [if_pos hsupports]
    exact triple_throw_bind fun t ht => Or.inl ht.2
  rw [if_neg hsupports]
  by_cases hindex : findGuardianIndex answer.guardians guardianAddress = -1
  · rw [if_pos hindex]
    exact triple_throw_bind fun t ht => Or.inl ht.2
  rw [if_neg hindex]
  rintro t ⟨hdelegate, rfl⟩
  refine (Triple.bind ((triple_selectDelegateWallet (s := t) delegateAddress).mono (A := (· = t))
    (B := fun _ t' => Selected ((ContextThread.delegation dsmAddress dsmVersion
      guardianAddress).selects deps (.delegation (.ok answer))) t t') (fun _ h => h) ?_
    fun t' h => Or.inl h) fun _ => triple_pure fun t' h => ⟨rfl, h⟩) t rfl
  rintro _ t' ⟨wallet, hwallet, rfl⟩
  refine Or.inr ⟨wallet, ?_, rfl⟩
  rw [ContextThread.selects, hdelegate]
  exact hwallet

/-- What a segment of `getGuardianExecutionContext` does. -/
theorem triple_contextResume {thread : ContextThread} {answer : ContextAnswer}
    {m : Service SecurityState (ContextThread ⊕ GuardianExecutionContext)}
    (h : thread.resume deps answer = some m) :
    Triple (· = s) m (fun r t => Selected (thread.selects deps answer) s t ∧
      r.elim ContextThread.dsmAddress GuardianExecutionContext.dsmAddress = thread.dsmAddress)
      (Selected (thread.selects deps answer) s) := by
  cases thread with
  | version dsmAddress =>
    cases answer with
    | version answer =>
      cases h
      cases answer with
      | error e => exact triple_throw_bind fun t ht => Or.inl ht
      | ok currentVersion =>
        refine Triple.bind (triple_call (Q := fun a t => a = currentVersion ∧ t = s)
          (fun a t h ht => ⟨(Except.ok.inj h).symm, ht⟩) fun t ht => Or.inl ht) fun a => ?_
        rintro t ⟨rfl, rfl⟩
        exact (Triple.bind (triple_contextAtVersion (s := t) dsmAddress a) fun next =>
          triple_pure fun t' h => ⟨h.2, h.1⟩) t rfl
    | guardians answer => cases h
    | code answer => cases h
    | delegation answer => cases h
  | guardians dsmAddress dsmVersion delegateAddress =>
    cases answer with
    | version answer => cases h
    | guardians answer =>
      cases h
      refine Triple.bind (triple_call (Q := fun _ t => t = s) (fun _ _ _ h => h)
        fun t ht => Or.inl ht) fun guardians => ?_
      exact triple_pure fun t h => ⟨Or.inl h, rfl⟩
    | code answer => cases h
    | delegation answer => cases h
  | code dsmAddress dsmVersion guardianAddress =>
    cases answer with
    | version answer => cases h
    | guardians answer => cases h
    | code answer =>
      cases h
      refine Triple.bind (triple_call (Q := fun _ t => t = s) (fun _ _ _ h => h)
        fun t ht => Or.inl ht) fun code => ?_
      dsimp only
      split_ifs with hcode
      · exact triple_throw_bind fun t ht => Or.inl ht
      refine Triple.bind ((triple_getCachedDSMContract (s := s)).mono (fun _ h => h)
        (fun _ _ h => h.2) fun t ht => Or.inl ht) fun _ => ?_
      exact triple_pure fun t h => ⟨Or.inl h, rfl⟩
    | delegation answer => cases h
  | delegation dsmAddress dsmVersion guardianAddress =>
    cases answer with
    | version answer => cases h
    | guardians answer => cases h
    | code answer => cases h
    | delegation answer =>
      cases h
      cases answer with
      | error e => exact triple_throw_bind fun t ht => Or.inl ht
      | ok answer =>
        refine Triple.bind (triple_call (Q := fun a t => a = answer ∧ t = s)
          (fun a t h ht => ⟨(Except.ok.inj h).symm, ht⟩) fun t ht => Or.inl ht) fun a => ?_
        rintro t ⟨rfl, rfl⟩
        exact (Triple.bind (triple_contextAtDelegation (s := t) dsmAddress dsmVersion
          guardianAddress a) fun context => triple_pure fun t' h => ⟨h.2, h.1⟩) t rfl

/-! ## Signatures -/

/-- What a signing method does behind the prefix: it records one signature, made with the wallet the
context designates, or none. -/
theorem triple_signResume (thread : SignThread) (answer : Except String String) :
    Triple (· = s) (thread.resume deps answer) (fun signature t =>
      ∃ messagePrefix wallet bytes, answer = .ok messagePrefix ∧
        designatedWallet deps thread.context = some wallet ∧
        preimage deps messagePrefix thread.context thread.request = .ok bytes ∧
        signature = deps.signDigest wallet (deps.ethers.keccak256 bytes) ∧
        t = { s with
          activeWallet := some wallet
          events := .signed thread.context thread.contract messagePrefix thread.request wallet
            (deps.ethers.keccak256 bytes) :: s.events })
      (Selected (designatedWallet deps thread.context) s) := by
  unfold SignThread.resume
  refine Triple.bind (triple_call (Q := fun messagePrefix t => answer = .ok messagePrefix ∧ t = s)
    (fun _ _ h ht => ⟨h, ht⟩) fun t ht => Or.inl ht) fun messagePrefix => ?_
  refine Triple.bind (Q := fun _ t => answer = .ok messagePrefix ∧
    ∃ wallet, designatedWallet deps thread.context = some wallet ∧
      t = { s with activeWallet := some wallet }) ?_ fun _ => ?_
  · rintro t ⟨hanswer, rfl⟩
    exact (triple_selectWallet (s := t)).mono (A := (· = t)) (fun _ h => h)
      (fun _ _ h => ⟨hanswer, h⟩) (fun _ h => Or.inl h) t rfl
  refine Triple.bind (Q := fun bytes t => answer = .ok messagePrefix ∧
    preimage deps messagePrefix thread.context thread.request = .ok bytes ∧
    ∃ wallet, designatedWallet deps thread.context = some wallet ∧
      t = { s with activeWallet := some wallet }) ?_ fun bytes => ?_
  · exact triple_call (fun bytes t hbytes h => ⟨h.1, hbytes, h.2⟩) fun t h => Or.inr h.2
  rintro t ⟨hanswer, hbytes, wallet, hwallet, rfl⟩
  constructor
  · intro signature t hrun
    cases hrun
    exact ⟨messagePrefix, wallet, bytes, hanswer, hwallet, hbytes, rfl, rfl⟩
  · intro e t hrun
    cases hrun

/-! ## Transactions -/

/-- What a direct call asks the contract of the fifth version. -/
def DirectCall.v5 : DirectCall → DsmV5Call
  | pauseDeposits pauseBlockNumber _ => .pauseDeposits pauseBlockNumber emptyGuardianSignature
  | unvetSigningKeys params _ => .unvetSigningKeys params emptyGuardianSignature

/-- What a direct call asks the contract of the fourth version. -/
def DirectCall.v4 : DirectCall → TransactionCall
  | pauseDeposits pauseBlockNumber signature =>
    .pauseDeposits pauseBlockNumber (compactSignature signature)
  | unvetSigningKeys params signature => .unvetSigningKeys params (compactSignature signature)

/-- The transaction of a direct call under a context, sent from `wallet` when `contract` is the
cached contract. -/
def directTransaction (context : GuardianExecutionContext) (wallet : Wallet) (contract : String)
    (call : DirectCall) : ContractTransaction :=
  if context.dsmVersion = dsmContractVersion5 then
    ⟨wallet.address, context.guardianAddress, .execute context.dsmAddress call.v5⟩
  else ⟨wallet.address, contract, call.v4⟩

theorem triple_getTxDeps :
    Triple (· = s) (getTxDeps deps context) (fun txDeps t => ∃ wallet contract,
      designatedWallet deps context = some wallet ∧ s.dsmContract = some contract ∧
      txDeps = ⟨⟨contract, wallet.address⟩, getDelegationContractWithSigner deps context,
        context.dsmAddress⟩ ∧ t = { s with activeWallet := some wallet })
      (Selected (designatedWallet deps context) s) := by
  unfold getTxDeps
  refine Triple.bind ((triple_selectWallet (s := s)).mono (fun _ h => h) (fun _ _ h => h)
    fun _ h => Or.inl h) fun _ => ?_
  rintro t ⟨wallet, hwallet, rfl⟩
  refine (Triple.bind ((@triple_getContractWithSigner deps
    { s with activeWallet := some wallet }).mono (A := (· = _)) (fun _ h => h)
    (fun _ _ h => h) fun _ h => Or.inr ⟨wallet, hwallet, h⟩) fun connected => triple_pure ?_) _ rfl
  rintro t ⟨hcontract, hsigner, rfl⟩
  refine ⟨wallet, connected.address, hwallet, hcontract, ?_, rfl⟩
  rw [← show connected.signer = wallet.address from hsigner]

/-- The delegation contract is connected to the wallet that is selected already. -/
theorem triple_getDelegationContractWithSigner {wallet : Wallet}
    (hwallet : designatedWallet deps context = some wallet) (hactive : s.activeWallet = some wallet) :
    Triple (· = s) (getDelegationContractWithSigner deps context)
      (fun connected t => connected = ⟨context.guardianAddress, wallet.address⟩ ∧ t = s) (· = s) := by
  unfold getDelegationContractWithSigner
  refine Triple.bind triple_selectWallet fun _ => ?_
  rintro t ⟨wallet', hwallet', rfl⟩
  obtain rfl : wallet = wallet' := Option.some.inj (hwallet.symm.trans hwallet')
  have hsame : { s with activeWallet := some wallet } = s := by rw [← hactive]
  rw [hsame]
  constructor
  · intro connected t hrun
    cases hrun
    rw [hactive]
    exact ⟨rfl, rfl⟩
  · intro e t hrun
    cases hrun

/-- How the strategies send a direct call. -/
theorem triple_send {wallet : Wallet} {contract : String} (call : DirectCall)
    (hwallet : designatedWallet deps context = some wallet) (hactive : s.activeWallet = some wallet) :
    Triple (· = s) (call.send (getDsmStrategy deps.ethers (some context.dsmVersion))
        ⟨⟨contract, wallet.address⟩, getDelegationContractWithSigner deps context, context.dsmAddress⟩)
      (fun transaction t => transaction = directTransaction context wallet contract call ∧ t = s)
      (· = s) := by
  by_cases h : context.dsmVersion = dsmContractVersion5
  · have hstrategy : getDsmStrategy deps.ethers (some context.dsmVersion) =
        v5Strategy deps.ethers := by
      rw [h]
      rfl
    rw [hstrategy]
    unfold directTransaction
    rw [if_pos h]
    cases call with
    | pauseDeposits pauseBlockNumber signature =>
      refine Triple.bind (triple_getDelegationContractWithSigner hwallet hactive) fun connected => ?_
      refine triple_pure ?_
      rintro t ⟨rfl, rfl⟩
      exact ⟨rfl, rfl⟩
    | unvetSigningKeys params signature =>
      refine Triple.bind (triple_getDelegationContractWithSigner hwallet hactive) fun connected => ?_
      refine triple_pure ?_
      rintro t ⟨rfl, rfl⟩
      exact ⟨rfl, rfl⟩
  · have hstrategy : getDsmStrategy deps.ethers (some context.dsmVersion) = v4Strategy := by
      unfold getDsmStrategy
      exact if_neg fun h5 => h (Option.some.inj h5)
    rw [hstrategy]
    unfold directTransaction
    rw [if_neg h]
    cases call with
    | pauseDeposits pauseBlockNumber signature => exact triple_pure fun t ht => ⟨rfl, ht⟩
    | unvetSigningKeys params signature => exact triple_pure fun t ht => ⟨rfl, ht⟩

/-- A direct call sends one transaction, from the wallet the context designates, or none. -/
theorem triple_sendTransaction (call : DirectCall) :
    Triple (· = s) (sendTransaction deps context call) (fun _ t => ∃ wallet contract,
      designatedWallet deps context = some wallet ∧ s.dsmContract = some contract ∧
      t = { s with
        activeWallet := some wallet
        events := .sent context (directTransaction context wallet contract call) :: s.events })
      (Selected (designatedWallet deps context) s) := by
  unfold sendTransaction
  refine Triple.bind triple_getTxDeps fun txDeps => ?_
  rintro t ⟨wallet, contract, hwallet, hcontract, rfl, rfl⟩
  refine (Triple.bind ((@triple_send deps context { s with activeWallet := some wallet } wallet
    contract call hwallet rfl).mono (A := (· = _)) (fun _ h => h) (fun _ _ h => h)
    fun _ h => Or.inr ⟨wallet, hwallet, h⟩) fun transaction => triple_modify ?_) _ rfl
  rintro t ⟨rfl, rfl⟩
  exact ⟨wallet, contract, hwallet, hcontract, rfl⟩

variable (deps) in
/-- Apart from the flags, `t` is `s`, perhaps with another active wallet, and perhaps with the
transaction of the call. -/
def Transacted (context : GuardianExecutionContext) (call : DirectCall) (s t : SecurityState) :
    Prop :=
  t.dsmContract = s.dsmContract ∧
  (t.activeWallet = s.activeWallet ∨ ∃ wallet, designatedWallet deps context = some wallet ∧
    t.activeWallet = some wallet) ∧
  (t.events = s.events ∨ ∃ wallet contract, designatedWallet deps context = some wallet ∧
    s.dsmContract = some contract ∧
    t.events = .sent context (directTransaction context wallet contract call) :: s.events)

theorem setFlags_fields (method : TransactionMethod) (flags : OneAtTime) (s : SecurityState) :
    (method.setFlags flags s).dsmContract = s.dsmContract ∧
    (method.setFlags flags s).activeWallet = s.activeWallet ∧
    (method.setFlags flags s).events = s.events := by
  cases method <;> exact ⟨rfl, rfl, rfl⟩

/-- What a call of `pauseDeposits` or `unvetSigningKeys` does at once; it never throws. -/
theorem triple_callTransaction (call : DirectCall) :
    Triple (· = s) (callTransaction deps context call)
      (fun _ t => Transacted deps context call s t) (fun _ => False) := by
  unfold callTransaction
  refine Triple.bind (triple_get (Q := fun a t => a = s ∧ t = s)
    (by rintro t rfl; exact ⟨rfl, rfl⟩)) fun a => ?_
  rintro t ⟨rfl, rfl⟩
  by_cases hbusy : (call.method.flags t).busy call.method.callId = true
  · rw [if_pos hbusy]
    exact triple_pure (P := (· = t)) (fun _ ht => by subst ht; exact ⟨rfl, Or.inl rfl, Or.inl rfl⟩)
      t rfl
  rw [if_neg hbusy]
  obtain ⟨hcontract, hactive, hevents⟩ := setFlags_fields call.method
    ((call.method.flags t).enter call.method.callId) t
  refine (Triple.bind (P := (· = t)) (Q := fun _ t' => t' =
    call.method.setFlags ((call.method.flags t).enter call.method.callId) t) ?_ fun _ => ?_) t rfl
  · intro u _
    exact ⟨fun _ _ hrun => (by cases hrun; rfl), fun _ _ hrun => (by cases hrun)⟩
  refine Triple.tryCatch (F := Selected (designatedWallet deps context)
    (call.method.setFlags ((call.method.flags t).enter call.method.callId) t)) ?_ fun e => ?_
  · refine Triple.bind (triple_sendTransaction call) fun _ => triple_pure ?_
    rintro u ⟨wallet, contract, hwallet, hcached, rfl⟩
    refine ⟨hcontract, Or.inr ⟨wallet, hwallet, rfl⟩, Or.inr ⟨wallet, contract, hwallet, ?_, ?_⟩⟩
    · exact hcontract.symm.trans hcached
    · show _ :: (call.method.setFlags _ t).events = _
      rw [hevents]
  · refine triple_pure ?_
    rintro u (rfl | ⟨wallet, hwallet, rfl⟩)
    · exact ⟨hcontract, Or.inl hactive, Or.inl hevents⟩
    · exact ⟨hcontract, Or.inr ⟨wallet, hwallet, rfl⟩, Or.inl hevents⟩

/-- What becomes of a transaction later touches the flags only. -/
theorem triple_transactionResume {thread : TransactionThread} {answer : TransactionAnswer}
    {m : Service SecurityState (Option TransactionThread)} (h : thread.resume answer = some m) :
    Triple (· = s) m (fun _ t => t.dsmContract = s.dsmContract ∧ t.activeWallet = s.activeWallet ∧
      t.events = s.events) (fun _ => False) := by
  have htakeDown : ∀ (method : TransactionMethod) (next : Option TransactionThread),
      Triple (· = s) (do method.takeDown; return next) (fun _ t => t.dsmContract = s.dsmContract ∧
        t.activeWallet = s.activeWallet ∧ t.events = s.events) (fun _ => False) := by
    intro method next
    refine Triple.bind (triple_modify (Q := fun _ t => t.dsmContract = s.dsmContract ∧
      t.activeWallet = s.activeWallet ∧ t.events = s.events) ?_) fun _ => triple_pure fun _ h => h
    rintro t rfl
    exact setFlags_fields method _ t
  have hkeep : ∀ next : Option TransactionThread, Triple (· = s)
      (pure next : Service SecurityState (Option TransactionThread)) (fun _ t =>
        t.dsmContract = s.dsmContract ∧ t.activeWallet = s.activeWallet ∧ t.events = s.events)
      (fun _ => False) := by
    intro next
    refine triple_pure ?_
    rintro t rfl
    exact ⟨rfl, rfl, rfl⟩
  cases thread with
  | waiting method =>
    cases answer with
    | settled => cases h; exact hkeep _
    | timeout => cases h; exact htakeDown method _
  | timedOut =>
    cases answer with
    | settled => cases h; exact hkeep _
    | timeout => cases h
  | leaving method =>
    cases answer with
    | settled => cases h; exact htakeDown method _
    | timeout => cases h

end SecurityService

end CouncilDaemon
