import VoiceChatCrypto.Braid.Agreement
import VoiceChatCrypto.Braid.Chunks
import VoiceChatCrypto.Braid.Epoch
import VoiceChatCrypto.Braid.Field
import VoiceChatCrypto.Braid.InPlace
import VoiceChatCrypto.Braid.Persist
import VoiceChatCrypto.Braid.Recovery
import VoiceChatCrypto.Braid.Restored
import VoiceChatCrypto.Braid.Rs
import VoiceChatCrypto.Braid.Scka
import VoiceChatCrypto.Data.BTree
import VoiceChatCrypto.Data.Checked
import VoiceChatCrypto.Data.Party
import VoiceChatCrypto.Data.Potential
import VoiceChatCrypto.Data.Simulation
import VoiceChatCrypto.Data.Stock
import VoiceChatCrypto.Data.System
import VoiceChatCrypto.Engine.Api
import VoiceChatCrypto.Engine.AtMostOnce
import VoiceChatCrypto.Engine.Atomic
import VoiceChatCrypto.Engine.Binding
import VoiceChatCrypto.Engine.Canonical
import VoiceChatCrypto.Engine.Compromise
import VoiceChatCrypto.Engine.Connection
import VoiceChatCrypto.Engine.Contacts
import VoiceChatCrypto.Engine.Durable
import VoiceChatCrypto.Engine.EndToEnd
import VoiceChatCrypto.Engine.Genuine
import VoiceChatCrypto.Engine.Handshake
import VoiceChatCrypto.Engine.Lifecycle
import VoiceChatCrypto.Engine.Lineage
import VoiceChatCrypto.Engine.Lossless
import VoiceChatCrypto.Engine.Once
import VoiceChatCrypto.Engine.Positions
import VoiceChatCrypto.Engine.Pqxdh
import VoiceChatCrypto.Engine.PrekeySpec
import VoiceChatCrypto.Engine.PrekeyUse
import VoiceChatCrypto.Engine.Prekeys
import VoiceChatCrypto.Engine.Profiles
import VoiceChatCrypto.Engine.Reload
import VoiceChatCrypto.Engine.Replay
import VoiceChatCrypto.Engine.Runs
import VoiceChatCrypto.Engine.SafetyNumber
import VoiceChatCrypto.Engine.Session
import VoiceChatCrypto.Engine.Sizes
import VoiceChatCrypto.Engine.Slots
import VoiceChatCrypto.Engine.Storage
import VoiceChatCrypto.Engine.Stored
import VoiceChatCrypto.Engine.Trackers
import VoiceChatCrypto.Engine.Transactions
import VoiceChatCrypto.Engine.Trust
import VoiceChatCrypto.Engine.TrustPersist
import VoiceChatCrypto.Engine.Window
import VoiceChatCrypto.Envelope.Codec
import VoiceChatCrypto.Ffi.Calls
import VoiceChatCrypto.Ffi.Handles
import VoiceChatCrypto.Ffi.Retry
import VoiceChatCrypto.MlKem.Code
import VoiceChatCrypto.MlKem.Encaps
import VoiceChatCrypto.MlKem.Encoding
import VoiceChatCrypto.MlKem.Fips
import VoiceChatCrypto.MlKem.KeyCheck
import VoiceChatCrypto.MlKem.Layers
import VoiceChatCrypto.MlKem.Machine
import VoiceChatCrypto.MlKem.Packing
import VoiceChatCrypto.MlKem.Residue
import VoiceChatCrypto.MlKem.Sampling
import VoiceChatCrypto.MlKem.Transform
import VoiceChatCrypto.Parsers.Checked
import VoiceChatCrypto.Parsers.Padding
import VoiceChatCrypto.Primitives.Ideal
import VoiceChatCrypto.Primitives.Symbolic
import VoiceChatCrypto.Primitives.Xeddsa
import VoiceChatCrypto.Ratchet.Agreement
import VoiceChatCrypto.Ratchet.Bounded
import VoiceChatCrypto.Ratchet.Conversation
import VoiceChatCrypto.Ratchet.Double
import VoiceChatCrypto.Ratchet.Epochs
import VoiceChatCrypto.Ratchet.HeaderAgreement
import VoiceChatCrypto.Ratchet.HeaderChains
import VoiceChatCrypto.Ratchet.HeaderEncrypt
import VoiceChatCrypto.Ratchet.HeaderLadder
import VoiceChatCrypto.Ratchet.InOrder
import VoiceChatCrypto.Ratchet.InStep
import VoiceChatCrypto.Ratchet.KeyDeletion
import VoiceChatCrypto.Ratchet.Ladder
import VoiceChatCrypto.Ratchet.Losses
import VoiceChatCrypto.Ratchet.MlKemCka
import VoiceChatCrypto.Ratchet.Persist
import VoiceChatCrypto.Ratchet.Recovery
import VoiceChatCrypto.Ratchet.Triple
import VoiceChatCrypto.Ratchet.TriplePersist
import VoiceChatCrypto.Session.Bound
import VoiceChatCrypto.Session.Counter
import VoiceChatCrypto.Session.Failed
import VoiceChatCrypto.Session.Identity
import VoiceChatCrypto.Session.Inbox
import VoiceChatCrypto.Session.Manager
import VoiceChatCrypto.Session.MessageIds
import VoiceChatCrypto.Session.Refusals
import VoiceChatCrypto.Session.Retries
import VoiceChatCrypto.Session.Sesame
