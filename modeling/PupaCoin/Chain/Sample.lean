import PupaCoin.Chain.AcceptBlock
import PupaCoin.Chain.Serialize

/-!
# A chain of coinbase-only blocks

A family of node states to evaluate the model on: `chainNode best` is the node after a chain of
`best` blocks, each with nothing but a coinbase, on top of a genesis block. Hashes are readable: the
hash of a block is its nonce and the hash of a transaction its lock time.
-/

namespace PupaCoin.Sample

def env : Env where
  params := { mainParams with hashGenesisBlock := 1, mapCheckpoints := [] }
  getHash tx := BitVec.ofNat 256 tx.nLockTime.toNat
  hashHeader header := BitVec.ofNat 256 header.nNonce.toNat
  hashPair a b := a + b
  hashKernel _ _ _ _ := 0
  hashModifier _ _ := 0
  computeNextStakeModifier _ := some (0, false)
  verifySignature _ _ _ _ := true
  verifyBlockSignature _ _ _ := true
  addressOf _ := ""
  fAddrIndex := false
  buildAddrIndex _ := []
  velocity :=
    { height := fun _ => 175, rate := fun _ => blockSpacing, minRate := fun _ => blockSpacingMin
      minTx := fun _ => 0, minValue := fun _ => coin / 100, minFee := fun _ => coin / 10000, explicit := fun _ => false
      height_zero := rfl, rate_zero := rfl, minRate_zero := rfl, minTx_zero := rfl
      minValue_zero := rfl, minFee_zero := rfl, explicit_zero := rfl }
  acceptToMemoryPool n _ := (n.mempool, [])

def layout : Layout := ⟨64, 40, 80, by decide, by decide, by decide⟩

def blockHash (k : Nat) : UInt256 := BitVec.ofNat 256 (k + 1)

def blockTime (k : Nat) : UInt32 := UInt32.ofNat (1600000000 + 600 * k)

def blockPos (k : Nat) : UInt32 := UInt32.ofNat (1000 * k + 8)

def coinbaseTx (k : Nat) : CTransaction where
  nVersion := 1
  nTime := blockTime k
  vin := [⟨.null, CScript.pushInt64 k ++ [0, 0], 0xffffffff⟩]
  vout := [⟨5 * coin, [0x51]⟩]
  nLockTime := UInt32.ofNat (k + 1)

def nBits : UInt32 := 0x1f00ffff

def chainBlock (k : Nat) : CBlock where
  nVersion := 7
  hashPrevBlock := if k = 0 then 0 else blockHash (k - 1)
  hashMerkleRoot := BitVec.ofNat 256 (k + 1)
  nTime := blockTime k
  nBits := nBits
  nNonce := UInt32.ofNat (k + 1)
  vtx := [coinbaseTx k]
  vchBlockSig := []

def chainEntry (best k : Nat) : CBlockIndex where
  phashBlock := blockHash k
  pprev := if k = 0 then none else some (blockHash (k - 1))
  pnext := if k < best then some (blockHash (k + 1)) else none
  nFile := 1
  nBlockPos := blockPos k
  nChainTrust := BitVec.ofNat 256 (k + 1) * CBlockIndex.blockTrust nBits
  nHeight := k
  nMint := if k = 0 then 0 else 5 * coin
  nMoneySupply := 5 * coin * k
  nFlags := indexFlags false ((blockHash k).getLsbD 0) false
  nStakeModifier := 0
  bnStakeModifierV2 := 0
  prevoutStake := .null
  nStakeTime := 0
  hashProof := blockHash k
  nVersion := 7
  hashMerkleRoot := BitVec.ofNat 256 (k + 1)
  nTime := blockTime k
  nBits := nBits
  nNonce := UInt32.ofNat (k + 1)

def chainEntries (best : Nat) (h : UInt256) : Option CBlockIndex :=
  if 1 ≤ h.toNat ∧ h.toNat ≤ best + 1 then some (chainEntry best (h.toNat - 1)) else none

def chainTree (best : Nat) : BlockTree where
  entries := chainEntries best
  hash_eq := by
    intro h e he
    unfold chainEntries at he
    split at he
    · rename_i hh
      cases he
      simp [chainEntry, blockHash, Nat.sub_add_cancel hh.1]
    · cases he
  root_height := by
    intro h e he hp
    unfold chainEntries at he
    split at he
    · cases he
      simp only [chainEntry] at hp ⊢
      split at hp
      · assumption
      · cases hp
    · cases he
  prev_height := by
    intro h e p he hp
    unfold chainEntries at he
    split at he
    · rename_i hh
      cases he
      simp only [chainEntry] at hp ⊢
      split at hp
      · cases hp
      · rename_i hk
        have hlt := h.isLt
        have hp' : (blockHash (h.toNat - 1 - 1)).toNat = h.toNat - 1 := by
          simp only [blockHash, BitVec.toNat_ofNat]
          rw [Nat.mod_eq_of_lt (by omega)]
          omega
        cases hp
        refine ⟨chainEntry best (h.toNat - 1 - 1), ?_, by simp only [chainEntry]; omega⟩
        unfold chainEntries
        rw [hp', if_pos (by omega)]
    · cases he

def chainDb (best : Nat) : Db
  | .tx h =>
    if 2 ≤ h.toNat ∧ h.toNat ≤ best + 1 then
      let pos := blockPos (h.toNat - 1)
      some (.txIndex ⟨⟨1, pos, pos + 81⟩, [.null]⟩)
    else none
  | .blockIndex h => (chainEntries best h).map fun e => .blockIndex (.ofIndex e)
  | .hashBestChain => some (.hash (blockHash best))
  | _ => none

def chainFiles : BlockFiles where
  readBlock f p :=
    if f = 1 ∧ p.toNat % 1000 = 8 then some (chainBlock (p.toNat / 1000)) else none
  readHeader f p :=
    if f = 1 ∧ p.toNat % 1000 = 8 then some (chainBlock (p.toNat / 1000)).toCBlockHeader else none
  readTx f p := if f = 1 ∧ p.toNat % 1000 = 89 then some (coinbaseTx (p.toNat / 1000)) else none

def ext (best : Nat) : Ext where
  getTime := 1700000000
  getAdjustedTime := 1700000000
  fInstantXFiltering := false
  mapLockedInputs _ := none
  isPayeeAValidMasternode _ := false
  fMnAdvRelay := false
  fDemiNodes := false
  fDemiPeerRelay := false
  nFreeBytesAvailable := 2 ^ 40
  appendPos := some (1, blockPos (best + 1))
  blocksDir _ := some []

def chainNode (best : Nat) : Node where
  mapBlockIndex := chainTree best
  pindexGenesisBlock := some (blockHash 0)
  pindexBest := some (blockHash best)
  hashBestChain := blockHash best
  nBestHeight := best
  nBestChainTrust := BitVec.ofNat 256 (best + 1) * CBlockIndex.blockTrust nBits
  nBestInvalidTrust := 0
  pdb := chainDb best
  activeBatch := none
  commitFaults := []
  files := chainFiles
  mempool := .empty
  maxBlockSize := if best = 0 then 15256128 else minBlockSize
  maxBlockSigops := (if best = 0 then 15256128 else minBlockSize) / 50
  maxTxSigops := (if best = 0 then 15256128 else minBlockSize) / 50 / 5
  blocksizes := if best < 25 then [] else List.replicate 25 0
  sorted := best ≠ 0
  pblockindexFBBHLast := none
  nMasterNodeChecksDelayBaseTime := (ext best).getTime
  fRollingCheckpoint := false
  rollingBlock := 0
  rollingHeight := 0
  velocityFactor := false
  walletSignals := (List.range best).map fun k => ⟨coinbaseTx (k + 1), chainBlock (k + 1), true⟩
  ext := ext best

def runNode : Nat → Node
  | 0 => chainNode 0
  | k + 1 => { ((chainBlock (k + 1)).acceptBlock env (runNode k)).2 with ext := ext (k + 1) }

def forkHash (k : Nat) : UInt256 := BitVec.ofNat 256 (k + 100000)

def forkBlock (fork k : Nat) : CBlock :=
  { chainBlock k with
    hashPrevBlock := if k = fork + 1 then blockHash fork else forkHash (k - 1)
    hashMerkleRoot := forkHash k
    nNonce := UInt32.ofNat (k + 100000)
    vtx := [{ coinbaseTx k with nLockTime := UInt32.ofNat (k + 100000) }] }

def withBlock (n : Node) (nFile nBlockPos : UInt32) (block : CBlock) : Node :=
  if hnew : n.mapBlockIndex.entries (block.getHash env) = none then
    { n with
      mapBlockIndex := n.mapBlockIndex.addBlock env nFile nBlockPos block (block.getHash env) (0, false) hnew
      files := CBlock.writeFiles n.files block nFile nBlockPos }
  else n

def forkNode : Node :=
  { [499, 500, 501].foldl (fun n k => withBlock n 2 (blockPos k) (forkBlock 498 k)) (chainNode 500) with
    activeBatch := some [] }

def greedyBlock : CBlock :=
  { forkBlock 498 501 with
    vtx := [{ coinbaseTx 501 with
      nLockTime := UInt32.ofNat (501 + 100000)
      vout := [⟨1000000 * coin, [0x51]⟩] }] }

def greedyNode : Node :=
  withBlock ([499, 500].foldl (fun n k => withBlock n 2 (blockPos k) (forkBlock 498 k)) (chainNode 500))
    2 (blockPos 501) greedyBlock

def orphanTx : CTransaction where
  nVersion := 1
  nTime := blockTime 502
  vin := [⟨⟨0xdead, 0⟩, [], 0xffffffff⟩]
  vout := [⟨5 * coin, [0x51]⟩]
  nLockTime := 900001

def besideBlock : CBlock :=
  { forkBlock 501 502 with
    hashMerkleRoot := forkHash 502 + env.getHash orphanTx
    vtx := (forkBlock 501 502).vtx ++ [orphanTx] }

def misplacedBlock : CBlock :=
  { chainBlock 14 with vtx := [{ coinbaseTx 14 with vin := [⟨.null, [0, 0], 0xffffffff⟩] }] }

def stakeBlock (k : Nat) (hashPrev : UInt256) : CBlock :=
  { chainBlock 14 with
    hashPrevBlock := hashPrev
    hashMerkleRoot := BitVec.ofNat 256 (k + 700001)
    nNonce := UInt32.ofNat k
    vtx := [{ coinbaseTx 14 with vout := [⟨0, []⟩], nLockTime := UInt32.ofNat k },
      { nVersion := 1
        nTime := blockTime 14
        vin := [⟨⟨blockHash 1, 0⟩, [], 0xffffffff⟩]
        vout := [⟨0, []⟩, ⟨5 * coin, [0x51]⟩]
        nLockTime := 700001 }]
    vchBlockSig := [0x30, 7, 2, 2, 1, 1, 2, 1, 1] }

def payTx : CTransaction where
  nVersion := 1
  nTime := blockTime 499
  vin := [⟨⟨blockHash 1, 0⟩, [], 0xffffffff⟩]
  vout := [⟨5 * coin, [0x51]⟩]
  nLockTime := 900000

def payTxPos (k : Nat) : CDiskTxPos :=
  ⟨1, blockPos k, blockPos k + 81 + UInt32.ofNat (coinbaseTx k).serializeSize⟩

def payBlock (k : Nat) : CBlock := { chainBlock k with vtx := [coinbaseTx k, payTx] }

/-- The fork of `forkNode`, with an ordinary transaction in the block at height `k`. -/
def payNode (k : Nat) : Node :=
  { forkNode with
    pdb := Function.update
      (Function.update forkNode.pdb (.tx (env.getHash payTx)) (some (.txIndex ⟨payTxPos k, [.null]⟩)))
      (.tx (blockHash 1)) (some (.txIndex ⟨⟨1, blockPos 1, blockPos 1 + 81⟩, [payTxPos k]⟩))
    files := CBlock.writeFiles forkNode.files (payBlock k) 1 (blockPos k) }

end PupaCoin.Sample
