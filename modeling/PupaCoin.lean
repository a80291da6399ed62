import PupaCoin.Chain.Proofs.AncestryProofs
import PupaCoin.Chain.Proofs.KernelProofs
import PupaCoin.Chain.Proofs.OrphanPoolProofs
import PupaCoin.Chain.Proofs.TargetRangeProofs
import PupaCoin.Net.Proofs.DownloadProofs
import PupaCoin.Net.Proofs.MasternodeRankProofs
import PupaCoin.Net.Proofs.BlockHashCacheProofs
import PupaCoin.Net.Proofs.MasternodeListProofs
import PupaCoin.Net.Proofs.LockCollectionProofs
import PupaCoin.Net.Proofs.AgreementProofs
import PupaCoin.Wallet.Proofs.StealthProofs
import PupaCoin.Net.Proofs.AddrManStoreProofs
import PupaCoin.Script.Proofs.SharedRulesProofs
import PupaCoin.Wallet.Proofs.KeyPoolProofs
import PupaCoin.Wallet.Proofs.KeyStoreProofs
import PupaCoin.Wallet.Proofs.SignBlockProofs
import PupaCoin.Chain.Proofs.CurveProofs
import PupaCoin.Chain.Proofs.MempoolProofs
import PupaCoin.Net.Proofs.AlertProofs
import PupaCoin.Net.Proofs.MixingPoolProofs
import PupaCoin.Chain.Proofs.VelocityProofs
import PupaCoin.Smsg.Proofs.BucketProofs
import PupaCoin.Chain.Proofs.FindBlockProofs
import PupaCoin.Chain.Proofs.StakeModifierProofs
import PupaCoin.Chain.Proofs.StandardInputsProofs
import PupaCoin.Chain.Proofs.AcceptTxProofs
import PupaCoin.Chain.Proofs.BlockFileProofs
import PupaCoin.Chain.Proofs.MerkleProofs
import PupaCoin.Chain.Proofs.DbHandleProofs
import PupaCoin.Wallet.Proofs.BlockLocationProofs
import PupaCoin.Net.Proofs.SelectTriedProofs
import PupaCoin.Net.Proofs.LockStepsProofs
import PupaCoin.Net.Proofs.SporkProofs
import PupaCoin.Net.Proofs.MasternodePaymentsProofs
import PupaCoin.Chain.Proofs.UndoProofs
import PupaCoin.Script.Proofs.EncodingProofs
import PupaCoin.Wallet.Proofs.StealthAddressProofs
import PupaCoin.Script.Proofs.CompressorProofs
import PupaCoin.Script.Proofs.CombineProofs
import PupaCoin.Wallet.Proofs.MinConfProofs
import PupaCoin.Wallet.Proofs.SyncProofs
import PupaCoin.Smsg.Proofs.BunchProofs
import PupaCoin.Smsg.Proofs.SendQueueProofs
import PupaCoin.Wallet.Proofs.ReorderTransactionsProofs
import PupaCoin.Wallet.Proofs.AddressGroupingsProofs
import PupaCoin.Net.Proofs.MixingSessionProofs
import PupaCoin.Chain.VarInt
import PupaCoin.Util.Money
import PupaCoin.Util.TimeData
import PupaCoin.Util.LimitedMap
import PupaCoin.Wallet.Proofs.AddressProofs
import PupaCoin.Net.SubNet
