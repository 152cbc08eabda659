import CouncilDaemon.Security.Payloads
import CouncilDaemon.Security.ServiceSpec

/-!
# Every signature and transaction comes from the right wallet

The calls of the security service share one active wallet and run in any interleaving, also with
the renewal of the cached contract. Each signature is made with, and each transaction is sent from,
the wallet that the call's own context designates (`signer_consistent`): a call selects the wallet
in the segment in which it uses it.
-/

namespace CouncilDaemon

namespace SecurityService

open Service

/-! ## The calls -/

/-- The calls of the service, and the renewal of the cached contract. -/
inductive SecurityCall where
  | getGuardianExecutionContext
  | signDepositData (depositRoot : String) (nonce blockNumber : ℕ) (blockHash : String)
      (stakingModuleId : ℕ) (context : GuardianExecutionContext)
  | signPauseData (blockNumber : ℕ) (blockHash : String) (context : GuardianExecutionContext)
  | signUnvetData (nonce blockNumber : ℕ) (blockHash : String) (stakingModuleId : ℕ)
      (operatorIds vettedKeysByOperator : String) (context : GuardianExecutionContext)
  | pauseDeposits (pauseBlockNumber : ℕ) (signature : Signature)
      (context : GuardianExecutionContext)
  | unvetSigningKeys (nonce blockNumber : ℕ) (blockHash : String) (stakingModuleId : ℕ)
      (operatorIds vettedKeysByOperator : String) (signature : Signature)
      (context : GuardianExecutionContext)
  | setDSMContractCache (address : String)

inductive SecurityThread where
  | context (thread : ContextThread)
  | sign (thread : SignThread)
  | transaction (thread : TransactionThread)

inductive SecurityAnswer where
  | context (answer : ContextAnswer)
  | messagePrefix (answer : Except String String)
  | transaction (answer : TransactionAnswer)

section Interleavings

variable (deps : SecurityDeps)

def SecurityCall.start : SecurityCall → Service SecurityState (List SecurityThread)
  | getGuardianExecutionContext => do
    let thread ← SecurityService.getGuardianExecutionContext deps
    return [.context thread]
  | signDepositData depositRoot nonce blockNumber blockHash stakingModuleId context => do
    let thread ← SecurityService.signDepositData depositRoot nonce blockNumber blockHash
      stakingModuleId context
    return [.sign thread]
  | signPauseData blockNumber blockHash context => do
    let thread ← SecurityService.signPauseData blockNumber blockHash context
    return [.sign thread]
  | signUnvetData nonce blockNumber blockHash stakingModuleId operatorIds vettedKeysByOperator
      context => do
    let thread ← SecurityService.signUnvetData nonce blockNumber blockHash stakingModuleId
      operatorIds vettedKeysByOperator context
    return [.sign thread]
  | pauseDeposits pauseBlockNumber signature context => do
    let thread ← SecurityService.pauseDeposits deps pauseBlockNumber signature context
    return thread.toList.map .transaction
  | unvetSigningKeys nonce blockNumber blockHash stakingModuleId operatorIds vettedKeysByOperator
      signature context => do
    let thread ← SecurityService.unvetSigningKeys deps nonce blockNumber blockHash stakingModuleId
      operatorIds vettedKeysByOperator signature context
    return thread.toList.map .transaction
  | setDSMContractCache address => do
    RepositoryService.setDSMContractCache address
    return []

def SecurityThread.resume : SecurityThread → SecurityAnswer →
    Option (Service SecurityState (List SecurityThread))
  | context thread, .context answer => do
    let m ← thread.resume deps answer
    return do
      let r ← m
      return r.elim (fun next => [.context next]) fun _ => []
  | sign thread, .messagePrefix answer => some do
    let _ ← thread.resume deps answer
    return []
  | transaction thread, .transaction answer => do
    let m ← thread.resume answer
    return do
      let next ← m
      return next.toList.map .transaction
  | _, _ => none

/-- The calls in any interleaving. -/
def securityProgram :
    Program SecurityState SecurityCall SecurityThread SecurityAnswer where
  start call := Program.segment (call.start deps)
  resume thread answer s := (thread.resume deps answer).map fun m => Program.segment m s

/-! ## Events -/

/-- The event comes from the wallet its context designates. -/
def ByDesignatedWallet (event : SecurityEvent) : Prop :=
  ∃ wallet, designatedWallet deps event.context = some wallet ∧
    event.signer = wallet.address

/-- All events come from the wallets their contexts designate. -/
def Signed (s : SecurityState) : Prop := ∀ event ∈ s.events, ByDesignatedWallet deps event

variable {deps} {s t : SecurityState}

theorem Signed.selected {selects : Option Wallet} (hs : Signed deps s)
    (h : Selected selects s t) : Signed deps t := by
  rcases h with rfl | ⟨wallet, _, rfl⟩
  · exact hs
  · exact hs

theorem directTransaction_sender (context : GuardianExecutionContext) (wallet : Wallet)
    (contract : String) (call : DirectCall) :
    (directTransaction context wallet contract call).sender = wallet.address := by
  unfold directTransaction
  split_ifs <;> rfl

theorem Signed.transacted {context : GuardianExecutionContext} {call : DirectCall}
    (hs : Signed deps s) (h : Transacted deps context call s t) : Signed deps t := by
  obtain ⟨_, _, hevents | ⟨wallet, contract, hwallet, _, hevents⟩⟩ := h
  · intro event hevent
    rw [hevents] at hevent
    exact hs event hevent
  · intro event hevent
    rw [hevents] at hevent
    rcases List.mem_cons.1 hevent with rfl | hevent
    · exact ⟨wallet, hwallet, directTransaction_sender context wallet contract call⟩
    · exact hs event hevent

/-! ## Segments -/

theorem triple_getMessagePrefix (request : SignRequest) (context : GuardianExecutionContext) :
    Triple (· = s) (getMessagePrefix request context) (fun thread t =>
      s.dsmContract = some thread.contract ∧ thread.request = request ∧ thread.context = context ∧
      t = s) (· = s) := by
  unfold getMessagePrefix
  refine Triple.bind triple_getCachedDSMContract fun contract => triple_pure ?_
  rintro t ⟨hcontract, rfl⟩
  exact ⟨hcontract, rfl, rfl, rfl⟩

/-- A method that keeps what was signed does so when it returns threads. -/
theorem signed_bind {α : Type} {m : Service SecurityState α} {Q : α → SecurityState → Prop}
    {E : SecurityState → Prop} {threads : α → List SecurityThread} (hs : Signed deps s)
    (h : Triple (· = s) m Q E) (hQ : ∀ a t, Signed deps s → Q a t → Signed deps t)
    (hE : ∀ t, Signed deps s → E t → Signed deps t) :
    Program.Asserts (Signed deps) (fun _ _ => True)
      (Program.segment (do let a ← m; return threads a) s).1
      (Program.segment (do let a ← m; return threads a) s).2 := by
  refine Program.asserts_segment (P := (· = s)) ?_ rfl
  refine Triple.bind (h.mono (fun _ h => h) (B := fun _ t => Signed deps t)
    (fun a t h => hQ a t hs h) fun t h => hE t hs h) fun a => ?_
  exact triple_pure fun t ht => ⟨ht, fun _ _ => trivial⟩

theorem signed_start (call : SecurityCall) (hs : Signed deps s) :
    Program.Asserts (Signed deps) (fun _ _ => True) (Program.segment (call.start deps) s).1
      (Program.segment (call.start deps) s).2 := by
  have hprefix : ∀ request context, Program.Asserts (Signed deps) (fun _ _ => True)
      (Program.segment (do
        let thread ← getMessagePrefix request context
        return [SecurityThread.sign thread]) s).1
      (Program.segment (do
        let thread ← getMessagePrefix request context
        return [SecurityThread.sign thread]) s).2 := fun request context =>
    signed_bind hs (triple_getMessagePrefix request context) (fun _ _ hs h => h.2.2.2 ▸ hs)
      fun _ hs h => h ▸ hs
  have htransaction : ∀ context call, Program.Asserts (Signed deps) (fun _ _ => True)
      (Program.segment (do
        let thread ← callTransaction deps context call
        return thread.toList.map SecurityThread.transaction) s).1
      (Program.segment (do
        let thread ← callTransaction deps context call
        return thread.toList.map SecurityThread.transaction) s).2 := fun context call =>
    signed_bind hs (triple_callTransaction call) (fun _ _ hs h => hs.transacted h)
      fun _ _ h => h.elim
  cases call with
  | getGuardianExecutionContext =>
    exact signed_bind hs triple_getGuardianExecutionContext (fun _ _ hs h => h.2 ▸ hs)
      fun _ hs h => h ▸ hs
  | signDepositData depositRoot nonce blockNumber blockHash stakingModuleId context =>
    exact hprefix _ _
  | signPauseData blockNumber blockHash context => exact hprefix _ _
  | signUnvetData nonce blockNumber blockHash stakingModuleId operatorIds vettedKeysByOperator
      context => exact hprefix _ _
  | pauseDeposits pauseBlockNumber signature context => exact htransaction _ _
  | unvetSigningKeys nonce blockNumber blockHash stakingModuleId operatorIds vettedKeysByOperator
      signature context => exact htransaction _ _
  | setDSMContractCache address => exact ⟨hs, fun _ h => by cases h⟩

theorem signed_resume {thread : SecurityThread} {answer : SecurityAnswer}
    {m : Service SecurityState (List SecurityThread)} (h : thread.resume deps answer = some m)
    (hs : Signed deps s) :
    Program.Asserts (Signed deps) (fun _ _ => True) (Program.segment m s).1
      (Program.segment m s).2 := by
  cases thread with
  | context thread =>
    cases answer with
    | context answer =>
      simp only [SecurityThread.resume, Option.bind_eq_bind, Option.bind_eq_some_iff,
        Option.pure_def, Option.some.injEq] at h
      obtain ⟨m', hm', rfl⟩ := h
      exact signed_bind hs (triple_contextResume hm') (fun _ _ hs h => hs.selected h.1)
        fun _ hs h => hs.selected h
    | messagePrefix answer => cases h
    | transaction answer => cases h
  | sign thread =>
    cases answer with
    | context answer => cases h
    | messagePrefix answer =>
      cases h
      refine signed_bind hs (triple_signResume thread answer) ?_ fun _ hs h => hs.selected h
      rintro _ t hs ⟨messagePrefix, wallet, bytes, _, hwallet, _, _, rfl⟩ event hevent
      rcases List.mem_cons.1 hevent with rfl | hevent
      · exact ⟨wallet, hwallet, rfl⟩
      · exact hs event hevent
    | transaction answer => cases h
  | transaction thread =>
    cases answer with
    | context answer => cases h
    | messagePrefix answer => cases h
    | transaction answer =>
      simp only [SecurityThread.resume, Option.bind_eq_bind, Option.bind_eq_some_iff,
        Option.pure_def, Option.some.injEq] at h
      obtain ⟨m', hm', rfl⟩ := h
      refine signed_bind hs (triple_transactionResume hm') ?_ fun _ _ h => h.elim
      rintro _ t hs ⟨_, _, hevents⟩ event hevent
      rw [hevents] at hevent
      exact hs event hevent

/-! ## Main result -/

variable (deps) in
/-- **Signer consistency.** In every interleaving of calls, under any contexts, each signature is
made with and each transaction sent from the wallet its own context designates: the legacy wallet
on the fourth version, the configured wallet at the delegate's address on the fifth. A context
without such a wallet leaves neither a signature nor a transaction. -/
theorem signer_consistent (dsmContract : Option String) (activeWallet : Option Wallet)
    {c : Configuration SecurityState SecurityThread}
    (h : (securityProgram deps).Reachable (fun _ _ => True)
      ⟨{ dsmContract := dsmContract, activeWallet := activeWallet }, []⟩ c) :
    ∀ event ∈ c.shared.events,
      (∃ wallet ∈ deps.wallets, designatedWallet deps event.context = some wallet ∧
        event.signer = wallet.address ∧
        (event.context.dsmVersion ≠ dsmContractVersion5 →
          wallet = deps.wallets.head deps.wallets_ne_nil) ∧
        (event.context.dsmVersion = dsmContractVersion5 →
          deps.ethers.getAddress event.context.delegateAddress =
            .ok wallet.address)) ∧
      ∀ context, designatedWallet deps context = none → event.context ≠ context := by
  have hsigned : Program.Asserts (Signed deps) (fun _ _ => True) c.shared c.threads := by
    refine h.threads ⟨fun event hevent => (by cases hevent), fun _ _ => trivial⟩ ?_ ?_
    · intro call s threads hs _
      exact ⟨signed_start call hs.1, fun _ _ => trivial⟩
    · intro before thread after answer s next hs _ hnext
      obtain ⟨m, hm, rfl⟩ := Option.map_eq_some_iff.1 hnext
      exact ⟨signed_resume hm hs.1, fun _ _ => trivial⟩
  intro event hevent
  obtain ⟨wallet, hwallet, hsigner⟩ := hsigned.1 event hevent
  refine ⟨?_, ?_⟩
  · by_cases hversion : event.context.dsmVersion = dsmContractVersion5
    · obtain ⟨hmem, haddress⟩ := designatedWallet_v5 hversion hwallet
      exact ⟨wallet, hmem, hwallet, hsigner, fun h => absurd hversion h, fun _ => haddress⟩
    · have hfirst : designatedWallet deps event.context = some (WalletService.firstWallet deps) :=
        designatedWallet_v4 hversion
      obtain rfl : WalletService.firstWallet deps = wallet :=
        Option.some.inj (hfirst.symm.trans hwallet)
      exact ⟨_, List.head_mem _, hwallet, hsigner, fun _ => rfl, fun h => absurd h hversion⟩
  · rintro context hnone rfl
    rw [hnone] at hwallet
    cases hwallet

end Interleavings

/-! ## A sample -/

namespace SecuritySample

/-- The hashes of the messages signed in the samples, which differ in their lengths. -/
def keccak256 (bytes : Bytes) : String :=
  match bytes.length with
  | 64 => "0xd1d8722bbf78c49cb4df1a27588a7cb613f43ec279761018c422048ae0f7f998"
  | 84 => "0x2e81952aa3d22c86b97ef79d2d3cb25daf77e06008a6fcb3c7dca9ce24b9de25"
  | 192 => "0x2adf16a1076eb68c8a07fb77223c8f797f72e9e4c9b7a8eb6b4d3a16ff58359f"
  | _ => "0xb64a8f374eef5d055ce78c84f7cfc39b6a36d455786ca319bbae7c91181cc561"

def deps : SecurityDeps where
  ethers := { PayloadsSample.sampleEthers with keccak256 := keccak256 }
  wallets := [⟨"0x1111111111111111111111111111111111111111"⟩,
    ⟨"0x2222222222222222222222222222222222222222"⟩]
  wallets_ne_nil := by decide
  DELEGATION_CONTRACT_ADDRESS := some "0x3333333333333333333333333333333333333333"
  signDigest wallet digest := ⟨wallet.address, digest, digest, 27⟩

/-- The fourth version, the second wallet as delegate of the fifth, and a delegate without wallet. -/
def context (dsmVersion : ℕ) (delegateAddress : String) : GuardianExecutionContext where
  dsmAddress := "0x4444444444444444444444444444444444444444"
  dsmVersion := dsmVersion
  delegateAddress := delegateAddress
  guardianAddress := "0x3333333333333333333333333333333333333333"
  guardianIndex := 0
  mode := "edf"

def legacy : GuardianExecutionContext := context 4 "0x1111111111111111111111111111111111111111"

def delegate : GuardianExecutionContext := context 5 "0x2222222222222222222222222222222222222222"

def unknown : GuardianExecutionContext := context 5 "0x5555555555555555555555555555555555555555"

/-- Three pause signatures wait for their prefixes together; the transactions come in between. -/
def moves : List (Move SecurityCall SecurityAnswer) := [
  .start (.signPauseData 17 "0xaa" delegate),
  .start (.signPauseData 17 "0xaa" legacy),
  .start (.signPauseData 17 "0xaa" unknown),
  .start (.pauseDeposits 17 ⟨"0x", "0x", "0x", 27⟩ delegate),
  .resume 1 (.messagePrefix (.ok PayloadsSample.lowerPrefix)),
  .resume 0 (.messagePrefix (.ok PayloadsSample.lowerPrefix)),
  .resume 0 (.messagePrefix (.ok PayloadsSample.lowerPrefix)),
  .start (.unvetSigningKeys 1 17 "0xaa" 1 "0x" "0x" ⟨"0x", "0x", "0x", 27⟩ legacy)]

def start : Configuration SecurityState SecurityThread :=
  ⟨{ dsmContract := some "0x4444444444444444444444444444444444444444", activeWallet := none }, []⟩

def sampleRun : Option (Configuration SecurityState SecurityThread) :=
  (securityProgram deps).run (fun _ _ => true) start moves

theorem sampleRun_isSome : sampleRun.isSome = true := by
  decide +kernel

theorem signer_consistent_sample :
    (sampleRun.get sampleRun_isSome).shared.events.map (·.signer) =
      ["0x1111111111111111111111111111111111111111", "0x2222222222222222222222222222222222222222",
       "0x1111111111111111111111111111111111111111", "0x2222222222222222222222222222222222222222"] ∧
    ∀ event ∈ (sampleRun.get sampleRun_isSome).shared.events, event.context ≠ unknown := by
  constructor
  · decide +kernel
  · intro event hevent
    have hreach : (securityProgram deps).Reachable (fun _ _ => True) start
        (sampleRun.get sampleRun_isSome) :=
      Program.Reachable.refl.run (fun _ _ _ => trivial) (Option.some_get sampleRun_isSome).symm
    refine (signer_consistent deps _ _ hreach event hevent).2 unknown ?_
    decide +kernel

end SecuritySample

end SecurityService

end CouncilDaemon
