import CouncilDaemon.Deposits.DepositData
import CouncilDaemon.Guardian.KeysValidation

/-!
# Deposit signatures

`verify` checks the signature of a deposit against the signing root of its message: the root of the
message together with the domain of deposits on the chain. The genesis validators root of that domain
is zero, as it is on every chain.

For a deposit that the contract took, `verify` does not throw once the fork version is set, and its
verdict is a function of the deposit (`verify_nodeData`). The signing root determines what the
signature does not cover otherwise: the pubkey, the credentials, the amount and the domain
(`computeSigningRoot_injective`).
-/

namespace CouncilDaemon

open BlsContainers

/-- What is used of the BLS package. -/
structure Blst where
  PublicKey : Type
  Signature : Type
  publicKeyFromBytes : Bytes → Except String PublicKey
  signatureFromBytes : Bytes → Except String Signature
  verify : (message : Bytes) → PublicKey → Signature → Except String Bool

def domainDeposit : Bytes := [3, 0, 0, 0]

/-- `target.set(source, offset)`, for a source that fits. -/
def setBytes (target source : Bytes) (offset : ℕ) : Bytes :=
  target.take offset ++ source ++ target.drop (offset + source.length)

structure BlsService where
  forkVersion : Option Bytes

namespace BlsService

/-- A service before `onModuleInit`. -/
def new : BlsService := { forkVersion := none }

def onModuleInit (getNetwork : Except String ℕ) : Service BlsService Unit := do
  let chainId ← Service.call getNetwork
  modify fun service => { service with forkVersion := genesisForkVersionByChainId chainId }
  if (genesisForkVersionByChainId chainId).isNone then
    throw ("GENESIS_FORK_VERSION not found for chain ID: " ++ toString chainId ++ ". " ++
      "Please add the fork version to GENESIS_FORK_VERSION_BY_CHAIN_ID in bls.constants.ts")

section Verify

variable {C : Crypto} (ssz : SszPackage C) (blst : Blst)

def computeForkDataRoot (currentVersion genesisValidatorsRoot : Bytes) : Bytes :=
  ssz.forkDataRoot { currentVersion, genesisValidatorsRoot }

def computeDomain (domainType forkVersion genesisValidatorRoot : Bytes) : Bytes :=
  let forkDataRoot := computeForkDataRoot ssz forkVersion genesisValidatorRoot
  let domain := setBytes (List.replicate 32 0) domainType 0
  setBytes domain (forkDataRoot.take 28) 4

def computeSigningRoot (depositMessage : DepositMessage) (domain : Bytes) : Bytes :=
  let objectRoot := ssz.depositMessageRoot depositMessage
  ssz.signingDataRoot { objectRoot, domain }

/-- The `try` block of `verify`. -/
def tryVerify (forkVersion : Bytes) (depositData : NodeData) : Except String Bool := do
  let pubkey ← ssz.byteVectorFromJson 48 depositData.pubkey
  let withdrawalCredentials ← ssz.byteVectorFromJson 32 depositData.wc
  let amount ← ssz.deserializeUintNum64 (← ssz.fromHexString depositData.amount)
  let depositMessage : DepositMessage := { pubkey, withdrawalCredentials, amount }
  let domain := computeDomain ssz domainDeposit forkVersion zeroHash
  let signingRoot := computeSigningRoot ssz depositMessage domain
  let blsPublicKey ← blst.publicKeyFromBytes depositMessage.pubkey
  let blsSignature ← blst.signatureFromBytes (← ssz.fromHexString depositData.signature)
  blst.verify signingRoot blsPublicKey blsSignature

/-- The `catch` block of `verify`. -/
def orFalse : Except String Bool → Bool
  | .ok verdict => verdict
  | .error _ => false

/-- `verify`; its parameter is a `DepositData` of the interfaces, which has the fields of a
`NodeData`. -/
def verify (service : BlsService) (depositData : NodeData) : Except String Bool :=
  match service.forkVersion with
  | none => .error "Fork version is not set"
  | some forkVersion => .ok (orFalse (tryVerify ssz blst forkVersion depositData))

end Verify

theorem orFalse_eq_true {verdict : Except String Bool} :
    orFalse verdict = true ↔ verdict = .ok true := by
  cases verdict with
  | ok verdict => simp [orFalse]
  | error e => simp [orFalse]

/-! ## The signing root -/

section SigningRoot

variable {C : Crypto} {ssz : SszPackage C} {blst : Blst}

/-- An initialised service has the fork version of its chain. -/
theorem genesis_of_onModuleInit {chainId : ℕ} {service service' : BlsService}
    (h : (onModuleInit (.ok chainId)).run service = .ok () service') :
    ∃ forkVersion, genesisForkVersionByChainId chainId = some forkVersion ∧
      service'.forkVersion = some forkVersion := by
  unfold onModuleInit at h
  cases hversion : genesisForkVersionByChainId chainId with
  | none =>
    simp [hversion] at h
  | some forkVersion =>
    simp [hversion] at h
    exact ⟨forkVersion, rfl, by rw [← h]⟩

theorem length_setBytes {target source : Bytes} {offset : ℕ}
    (h : offset + source.length ≤ target.length) :
    (setBytes target source offset).length = target.length := by
  simp only [setBytes, List.length_append, List.length_take, List.length_drop]
  omega

theorem length_computeDomain (forkVersion genesisValidatorRoot : Bytes) :
    (computeDomain ssz domainDeposit forkVersion genesisValidatorRoot).length = 32 := by
  unfold computeDomain
  have htype : (setBytes (List.replicate 32 0) domainDeposit 0).length = 32 := by rfl
  rw [length_setBytes]
  · exact htype
  · rw [htype, List.length_take]
    omega

/-- The root of a message is a digest. -/
theorem depositMessageRoot_digest {message : DepositMessage} (h : message.IsValue) :
    ∃ a b, ssz.depositMessageRoot message = C.digest2Bytes32 a b := by
  rw [ssz.depositMessageRoot_eq message h]
  exact ⟨_, _, Ssz.merkleize_three C.digest2Bytes32 0 _ _ _⟩

theorem computeSigningRoot_eq {message : DepositMessage} {domain : Bytes} (h : message.IsValue)
    (hdomain : domain.length = 32) : computeSigningRoot ssz message domain =
      C.digest2Bytes32 (Ssz.hashTreeRoot C.digest2Bytes32 0 message.toValue) domain := by
  rw [← ssz.depositMessageRoot_eq message h]
  exact ssz.signingDataRoot_eq _ (depositMessageRoot_digest h) hdomain

/-- **The signing root determines what is signed**, collisions apart. -/
theorem computeSigningRoot_injective (hdigest : Function.Injective2 C.digest2Bytes32)
    {message message' : DepositMessage} {domain domain' : Bytes} (h : message.IsValue)
    (h' : message'.IsValue) (hdomain : domain.length = 32) (hdomain' : domain'.length = 32)
    (hroot : computeSigningRoot ssz message domain = computeSigningRoot ssz message' domain') :
    message = message' ∧ domain = domain' := by
  rw [computeSigningRoot_eq h hdomain, computeSigningRoot_eq h' hdomain'] at hroot
  obtain ⟨hobject, rfl⟩ := hdigest hroot
  refine ⟨?_, rfl⟩
  obtain ⟨hpubkey, hcredentials, hamount⟩ := h
  obtain ⟨hpubkey', hcredentials', hamount'⟩ := h'
  have htype : Ssz.SameType message.toValue message'.toValue := by
    simp [DepositMessage.toValue, uint64, Ssz.SameType, Ssz.SameTypes, hpubkey, hpubkey',
      hcredentials, hcredentials', DepositTree.length_littleEndian]
  have hvalue := Ssz.hashTreeRoot_injective hdigest htype hobject
  simp only [DepositMessage.toValue, uint64, Ssz.Value.container.injEq, List.cons.injEq,
    Ssz.Value.vector.injEq, and_true] at hvalue
  have hnumber := DepositTree.littleEndian_injective (by omega) (by omega) hvalue.2.2
  cases message
  cases message'
  simp only at hvalue hnumber
  rw [hvalue.1, hvalue.2.1, hnumber]

end SigningRoot

end BlsService

/-! ## The verdict on a deposit -/

namespace Deposit

variable {C : Crypto}

def toDepositMessage (d : Deposit) : DepositMessage where
  pubkey := d.pubkey
  withdrawalCredentials := d.withdrawalCredentials
  amount := d.amount

theorem isValue_toDepositMessage (d : Deposit) : d.toDepositMessage.IsValue :=
  ⟨d.length_pubkey, d.length_withdrawalCredentials, d.amount_lt⟩

/-- The root that the signature of the deposit signs. -/
def signingRoot (ssz : SszPackage C) (forkVersion : Bytes) (d : Deposit) : Bytes :=
  C.digest2Bytes32 (Ssz.hashTreeRoot C.digest2Bytes32 0 d.toDepositMessage.toValue)
    (BlsService.computeDomain ssz domainDeposit forkVersion zeroHash)

/-- The signature of the deposit is valid: its pubkey and its signature are points, and the signature
is one of the signing root. -/
def SignatureValid (ssz : SszPackage C) (blst : Blst) (forkVersion : Bytes) (d : Deposit) : Prop :=
  ∃ publicKey signature, blst.publicKeyFromBytes d.pubkey = .ok publicKey ∧
    blst.signatureFromBytes d.signature = .ok signature ∧
    blst.verify (d.signingRoot ssz forkVersion) publicKey signature = .ok true

end Deposit

namespace BlsService

variable {C : Crypto} (ssz : SszPackage C) (blst : Blst)

theorem tryVerify_nodeData (forkVersion : Bytes) (d : Deposit) :
    tryVerify ssz blst forkVersion d.nodeData = (do
      let publicKey ← blst.publicKeyFromBytes d.pubkey
      let signature ← blst.signatureFromBytes d.signature
      blst.verify (d.signingRoot ssz forkVersion) publicKey signature) := by
  have hpubkey : ssz.byteVectorFromJson 48 d.nodeData.pubkey = .ok d.pubkey :=
    (ssz.byteVectorFromJson_eq_ok _ _ _).2 ⟨ssz.fromHexString_toHexString _, d.length_pubkey⟩
  have hcredentials : ssz.byteVectorFromJson 32 d.nodeData.wc = .ok d.withdrawalCredentials :=
    (ssz.byteVectorFromJson_eq_ok _ _ _).2
      ⟨ssz.fromHexString_toHexString _, d.length_withdrawalCredentials⟩
  have hamount : ssz.fromHexString d.nodeData.amount = .ok (littleEndian 8 d.amount) :=
    ssz.fromHexString_toHexString _
  have hsignature : ssz.fromHexString d.nodeData.signature = .ok d.signature :=
    ssz.fromHexString_toHexString _
  have hroot : computeSigningRoot ssz d.toDepositMessage
      (computeDomain ssz domainDeposit forkVersion zeroHash) = d.signingRoot ssz forkVersion :=
    computeSigningRoot_eq d.isValue_toDepositMessage (length_computeDomain _ _)
  unfold tryVerify
  rw [hpubkey, hcredentials, hamount, hsignature]
  show (do
    let amount ← ssz.deserializeUintNum64 (littleEndian 8 d.amount)
    _ : Except String Bool) = _
  rw [ssz.deserializeUintNum64_littleEndian _ d.amount_lt, ← hroot]
  rfl

/-- **The verdict on a deposit.** -/
theorem verify_nodeData {service : BlsService} {forkVersion : Bytes}
    (h : service.forkVersion = some forkVersion) (d : Deposit) :
    ∃ verdict, verify ssz blst service d.nodeData = .ok verdict ∧
      (verdict = true ↔ d.SignatureValid ssz blst forkVersion) := by
  unfold verify Deposit.SignatureValid
  rw [h]
  refine ⟨_, rfl, ?_⟩
  rw [orFalse_eq_true, tryVerify_nodeData]
  cases hkey : blst.publicKeyFromBytes d.pubkey with
  | error e => simp [bind, Except.bind]
  | ok publicKey =>
    cases hsignature : blst.signatureFromBytes d.signature with
    | error e => simp [bind, Except.bind]
    | ok signature => simp [bind, Except.bind]

end BlsService

end CouncilDaemon
