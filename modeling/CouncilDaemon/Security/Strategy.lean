import CouncilDaemon.Guardian.Unvetting
import CouncilDaemon.Lib.SolidityPack

/-!
# The strategies of the DSM versions

What differs between the versions of the deposit security module: the bytes whose hash the guardian
signs, the layout of the published signature, the event that carries it, the wallet that signs, and
how a direct transaction reaches the contract.
-/

namespace CouncilDaemon

open SolidityPack (arrayify)

/-! ## Data -/

/-- What is used of the package for addresses and hashes. `getAddress` gives the checksummed text of
an address: one text for each address. -/
structure Ethers extends Unvetting.EthersUtils where
  isAddress : String → Bool
  getAddress : String → Except String String
  keccak256 : Bytes → String
  hexlify_unsafe : ∀ n ≥ 2 ^ 53, ∃ e, hexlify n = .error e
  getAddress_ok : ∀ address, isAddress address = true →
    ∃ checksummed bytes, getAddress address = .ok checksummed ∧
      arrayify checksummed = .ok bytes ∧ bytes.length = 20
  getAddress_inj : ∀ {address address' checksummed checksummed'},
    getAddress address = .ok checksummed → getAddress address' = .ok checksummed' →
    arrayify checksummed = arrayify checksummed' → checksummed = checksummed'

structure Signature where
  r : String
  s : String
  _vs : String
  v : ℕ
  deriving DecidableEq

structure CompactSignature where
  r : String
  vs : String
  deriving DecidableEq

/-- The compact pair on v4, the 65-byte blob on v5. -/
inductive WireSignature where
  | compact (signature : CompactSignature)
  | blob (signature : String)
  deriving DecidableEq

/-- The parameters of a deposit message; `messagePrefix` is the `prefix` of the contract. -/
structure SignDepositDataParams where
  messagePrefix : String
  blockNumber : ℕ
  blockHash : String
  depositRoot : String
  nonce : ℕ
  stakingModuleId : ℕ
  guardianAddress : Option String
  deriving DecidableEq

structure SignPauseDataParams where
  messagePrefix : String
  blockNumber : ℕ
  guardianAddress : Option String
  deriving DecidableEq

structure SignUnvetDataParams where
  messagePrefix : String
  blockNumber : ℕ
  blockHash : String
  stakingModuleId : ℕ
  nonce : ℕ
  operatorIds : String
  vettedKeysByOperator : String
  guardianAddress : Option String
  deriving DecidableEq

structure UnvetTxParams where
  nonce : ℕ
  blockNumber : ℕ
  blockHash : String
  stakingModuleId : ℕ
  operatorIds : String
  vettedKeysByOperator : String
  deriving DecidableEq

inductive SignerKind where
  | legacy
  | delegate
  deriving DecidableEq

/-- `MessagesNames`: the events of the data bus. -/
inductive MessagesNames where
  | messagePingV1
  | messageDepositV1
  | messageUnvetV1
  | messagePauseV3
  | messageDepositV2
  | messagePauseV4
  | messageUnvetV2
  deriving DecidableEq

structure BusEvents where
  deposit : MessagesNames
  pause : MessagesNames
  unvet : MessagesNames

/-- `GuardianSignature` of the fifth version. -/
structure GuardianSignature where
  guardian : String
  signature : String
  deriving DecidableEq

/-- A call of the fifth version of the contract, as `v5Interface` encodes it. -/
inductive DsmV5Call where
  | pauseDeposits (blockNumber : ℕ) (signature : GuardianSignature)
  | unvetSigningKeys (params : UnvetTxParams) (signature : GuardianSignature)
  deriving DecidableEq

/-- The call that a direct transaction makes on the contract it is sent to. -/
inductive TransactionCall where
  | pauseDeposits (blockNumber : ℕ) (signature : CompactSignature)
  | unvetSigningKeys (params : UnvetTxParams) (signature : CompactSignature)
  | execute (target : String) (data : DsmV5Call)
  deriving DecidableEq

/-- A contract connected to a wallet: its address, and the address of the wallet. -/
structure ConnectedContract where
  address : String
  signer : String
  deriving DecidableEq

/-- The wallet a transaction is sent from, the contract it is sent to, and the call. -/
structure ContractTransaction where
  sender : String
  contract : String
  call : TransactionCall
  deriving DecidableEq

/-- `delegation` is evaluated when a strategy asks for it. -/
structure DsmTxDeps (σ : Type) where
  dsm : ConnectedContract
  delegation : Service σ ConnectedContract
  dsmAddress : String

structure DsmVersionStrategy where
  signer : SignerKind
  /-- What `depositDigest` hashes. -/
  depositPreimage : SignDepositDataParams → Except String Bytes
  /-- What `pauseDigest` hashes. -/
  pausePreimage : SignPauseDataParams → Except String Bytes
  /-- What `unvetDigest` hashes. -/
  unvetPreimage : SignUnvetDataParams → Except String Bytes
  wireSignature : Signature → Except String WireSignature
  busEvents : BusEvents
  sendPause {σ : Type} : DsmTxDeps σ → (blockNumber : ℕ) → Signature →
    Service σ ContractTransaction
  sendUnvet {σ : Type} : DsmTxDeps σ → UnvetTxParams → Signature → Service σ ContractTransaction

/-! ## The strategies -/

variable (ethers : Ethers)

def dsmContractVersion5 : ℕ := 5

def zeroAddress : String := "0x0000000000000000000000000000000000000000"

def requireGuardianAddress (guardianAddress : Option String) : Except String String :=
  match guardianAddress with
  | none => .error "A valid guardian address is required for DSM version 5"
  | some address =>
    if ethers.isAddress address then ethers.getAddress address
    else .error "A valid guardian address is required for DSM version 5"

def compactSignature (signature : Signature) : CompactSignature :=
  { r := signature.r, vs := signature._vs }

/-- `hexConcat`: the digits of hexadecimal texts one after the other, in lower case. -/
def hexConcat (items : List String) : Except String String := do
  let digits ← items.mapM fun item => do
    let _ ← arrayify item
    return (item.toList.drop 2).map Char.toLower
  return String.ofList ('0' :: 'x' :: digits.flatten)

/-- The push path authorizes `msg.sender`; the signature argument is unread. -/
def emptyGuardianSignature : GuardianSignature where
  guardian := zeroAddress
  signature := "0x"

/-- On the types of 32 bytes `defaultAbiCoder.encode` packs its arguments too. -/
def v4Strategy : DsmVersionStrategy where
  signer := .legacy
  depositPreimage params := SolidityPack.pack [
    .bytes32 params.messagePrefix, .uint256 params.blockNumber, .bytes32 params.blockHash,
    .bytes32 params.depositRoot, .uint256 params.stakingModuleId, .uint256 params.nonce]
  pausePreimage params := SolidityPack.pack [
    .bytes32 params.messagePrefix, .uint256 params.blockNumber]
  unvetPreimage params := SolidityPack.pack [
    .bytes32 params.messagePrefix, .uint256 params.blockNumber, .bytes32 params.blockHash,
    .uint256 params.stakingModuleId, .uint256 params.nonce, .bytes params.operatorIds,
    .bytes params.vettedKeysByOperator]
  wireSignature signature := .ok (.compact (compactSignature signature))
  busEvents := { deposit := .messageDepositV1, pause := .messagePauseV3, unvet := .messageUnvetV1 }
  sendPause deps blockNumber signature := do
    return ⟨deps.dsm.signer, deps.dsm.address,
      .pauseDeposits blockNumber (compactSignature signature)⟩
  sendUnvet deps params signature := do
    return ⟨deps.dsm.signer, deps.dsm.address,
      .unvetSigningKeys params (compactSignature signature)⟩

def v5Strategy : DsmVersionStrategy where
  signer := .delegate
  depositPreimage params := do
    let guardianAddress ← requireGuardianAddress ethers params.guardianAddress
    SolidityPack.pack [
      .bytes32 params.messagePrefix, .address guardianAddress, .uint256 params.blockNumber,
      .bytes32 params.blockHash, .bytes32 params.depositRoot, .uint256 params.stakingModuleId,
      .uint256 params.nonce]
  pausePreimage params := do
    let guardianAddress ← requireGuardianAddress ethers params.guardianAddress
    SolidityPack.pack [
      .bytes32 params.messagePrefix, .address guardianAddress, .uint256 params.blockNumber]
  unvetPreimage params := do
    let guardianAddress ← requireGuardianAddress ethers params.guardianAddress
    SolidityPack.pack [
      .bytes32 params.messagePrefix, .address guardianAddress, .uint256 params.blockNumber,
      .bytes32 params.blockHash, .uint256 params.stakingModuleId, .uint256 params.nonce,
      .bytes params.operatorIds, .bytes params.vettedKeysByOperator]
  wireSignature signature := do
    let v ← ethers.hexlify signature.v
    let blob ← hexConcat [signature.r, signature.s, v]
    return .blob blob
  busEvents := { deposit := .messageDepositV2, pause := .messagePauseV4, unvet := .messageUnvetV2 }
  sendPause deps blockNumber _ := do
    let delegation ← deps.delegation
    return ⟨delegation.signer, delegation.address,
      .execute deps.dsmAddress (.pauseDeposits blockNumber emptyGuardianSignature)⟩
  sendUnvet deps params _ := do
    let delegation ← deps.delegation
    return ⟨delegation.signer, delegation.address,
      .execute deps.dsmAddress (.unvetSigningKeys params emptyGuardianSignature)⟩

/-- The single version switch. -/
def getDsmStrategy (dsmVersion : Option ℕ) : DsmVersionStrategy :=
  if dsmVersion = some dsmContractVersion5 then v5Strategy ethers else v4Strategy

end CouncilDaemon
