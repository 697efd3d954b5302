import BedrockProtocol.Lib.Outcome
import BedrockProtocol.Lib.Reader
import BedrockProtocol.Lib.Words
import BedrockProtocol.Lib.Leb128
import BedrockProtocol.Lib.BackReference
import BedrockProtocol.Lib.FloatBits
import BedrockProtocol.Lib.Text
import BedrockProtocol.Lib.Interleaving
import BedrockProtocol.BedrockFramer
import BedrockProtocol.BinaryStream
import BedrockProtocol.Encryption
import BedrockProtocol.Item.AuxValue
import BedrockProtocol.Item.ItemStates
import BedrockProtocol.LoginPacket
import BedrockProtocol.Protocol.SnappyCodec
import BedrockProtocol.Protocol.Zlib
import BedrockProtocol.Protocol.PacketPayloadReader
import BedrockProtocol.Protocol.ProtocolDefinition
import BedrockProtocol.Protocol.VersionedBatchCodec
import BedrockProtocol.Protocol.VersionedMcpeCodec
import BedrockProtocol.Protocol.SnappyRoundTrip
import BedrockProtocol.Nbt.BedrockNbt
import BedrockProtocol.Nbt.RoundTrip
import BedrockProtocol.Protodef.ProtoDefValue
import BedrockProtocol.Protodef.ProtoDefJson
import BedrockProtocol.Auth.BedrockAuthJwt
import BedrockProtocol.Server.BedrockLoginVerifier
import BedrockProtocol.Server.BedrockServer
import BedrockProtocol.Server.SessionSteps
import BedrockProtocol.Server.OutboundMutex
import BedrockProtocol.Server.Secrecy
import BedrockProtocol.Server.WireSecrecy
import BedrockProtocol.Server.LoginGate
import BedrockProtocol.Server.ClientAccounting
import BedrockProtocol.Server.OutboundQueue
import BedrockProtocol.Client.BedrockNetworkClient
import BedrockProtocol.Lib.PackedWords
import BedrockProtocol.World.PalettedStorage
import BedrockProtocol.World.BedrockSubChunk
import BedrockProtocol.Lib.Histogram
import BedrockProtocol.World.SubChunkPalette
import BedrockProtocol.World.SubChunkRoundTrip
import BedrockProtocol.World.BedrockBiomeSection
import BedrockProtocol.World.BiomeRoundTrip
import BedrockProtocol.World.BedrockChunkColumn
import BedrockProtocol.World.BuiltColumn
import BedrockProtocol.World.ColumnRoundTrip
import BedrockProtocol.Util.XxHash64
import BedrockProtocol.Lib.LastWins
import BedrockProtocol.World.BlobCache
import BedrockProtocol.World.PersistentSubChunk
import BedrockProtocol.World.BiomeBlob
import BedrockProtocol.World.BlobCacheRoundTrip
import BedrockProtocol.Lib.Handover
import BedrockProtocol.Relay.BedrockLiveRelay
import BedrockProtocol.Relay.SessionLifecycle
import BedrockProtocol.Relay.HeldChunks
import BedrockProtocol.Relay.UndisturbedSession
import BedrockProtocol.Relay.ClientboundOrder
import BedrockProtocol.Relay.ServerboundOrder
import BedrockProtocol.Relay.BedrockRelay
import BedrockProtocol.Relay.RelayFrames
import BedrockProtocol.Relay.LevelChunkQueue
import BedrockProtocol.Client.QueuePump
import BedrockProtocol.Client.CloseExclusion
import BedrockProtocol.Client.QueueOrder
import BedrockProtocol.Lib.Lockstep
import BedrockProtocol.Protocol.SnappyBuffers
import BedrockProtocol.Protocol.SnappyGrammar
import BedrockProtocol.World.ColumnBlocks
import BedrockProtocol.World.ColumnBiomes
import BedrockProtocol.World.BedrockWorld
import BedrockProtocol.Lib.Answered
import BedrockProtocol.World.ColumnSaving
import BedrockProtocol.World.SubChunkPersistence
import BedrockProtocol.World.LevelChunkReaders
import BedrockProtocol.World.LevelChunkAgreement
import BedrockProtocol.Auth.JsPromise
import BedrockProtocol.Auth.ReactionOrder
import BedrockProtocol.Lib.Attempt
import BedrockProtocol.World.BedrockSubChunkPacket
import BedrockProtocol.World.SubChunkPacketRoundTrip
import BedrockProtocol.World.ColumnSubChunks
import BedrockProtocol.World.PalettedStorageParser
import BedrockProtocol.World.BlockWrites
import BedrockProtocol.Client.ChunkTracker
import BedrockProtocol.Client.CacheRequests
import BedrockProtocol.Client.CacheCompletion
import BedrockProtocol.World.BedrockLegacyChunk
import BedrockProtocol.Protodef.JsonRoundTrip
import BedrockProtocol.Protodef.SchemaText
import BedrockProtocol.Lib.BitString
import BedrockProtocol.Protodef.ProtoDefNumber
import BedrockProtocol.Protodef.ProtoDefContext
import BedrockProtocol.Protodef.ProtoDefReader
import BedrockProtocol.Protodef.Bitfield
import BedrockProtocol.Protodef.ProtoDefTypes
import BedrockProtocol.Protodef.VarintWidths
import BedrockProtocol.Protodef.Bitflags
import BedrockProtocol.Protodef.ElementCounts
import BedrockProtocol.Nbt.BedrockNbtFile
import BedrockProtocol.Protodef.ProtoDefNbt
import BedrockProtocol.Protodef.NbtConversion
import BedrockProtocol.Nbt.Reencoding
import BedrockProtocol.Nbt.LevelDat
import BedrockProtocol.Nbt.EncodingDetection
import BedrockProtocol.Relay.LoginSuccess
import BedrockProtocol.Relay.FlushQueues
import BedrockProtocol.Client.BedrockClient
import BedrockProtocol.Item.BedrockItem
import BedrockProtocol.Lib.Simulation
import BedrockProtocol.Lib.SelfContained
import BedrockProtocol.Nbt.Lookahead
import BedrockProtocol.Protodef.ProtoDefDecoder
import BedrockProtocol.Protodef.DecodedTexts
import BedrockProtocol.Protodef.DecoderSimulation
import BedrockProtocol.Protodef.ProtoDefPacketDecoder
import BedrockProtocol.Protodef.StrictDecoding
import BedrockProtocol.Protodef.ValidatingDecoder
import BedrockProtocol.Server.PacketValidation
import BedrockProtocol.Lib.Leb128Loops
import BedrockProtocol.Util.VarInt
import BedrockProtocol.Lib.FiniteDouble
import BedrockProtocol.Lib.Iteration
import BedrockProtocol.World.WorldIterators
import BedrockProtocol.World.ManhattanOrder
import BedrockProtocol.World.SpiralOrder
import BedrockProtocol.World.OctahedronOrder
import BedrockProtocol.World.BlockEntities
import BedrockProtocol.Protodef.ProtoDefEncoder
import BedrockProtocol.Protodef.WireSchema
import BedrockProtocol.Protodef.ScalarCodec
import BedrockProtocol.Protodef.SchemaDescription
import BedrockProtocol.Protodef.SchemaEncoding
import BedrockProtocol.Protodef.SchemaRecords
import BedrockProtocol.Protodef.SchemaDecoding
import BedrockProtocol.Protodef.JsonPieces
import BedrockProtocol.Protodef.JsonTypes
import BedrockProtocol.Protodef.FlatSchema
import BedrockProtocol.Protodef.FlatText
import BedrockProtocol.Protodef.FlatValues
import BedrockProtocol.Protodef.FlatCodec
import BedrockProtocol.Protodef.CompactJson
import BedrockProtocol.Protodef.SwitchText
import BedrockProtocol.Protodef.CompactTypes
import BedrockProtocol.Protodef.SchemaRendering
import BedrockProtocol.Protodef.SchemaCodec
import BedrockProtocol.Protodef.ProtoDefPacketEncoder
