import RlnGifter.Program
import RlnGifter.Pool
import RlnGifter.Hex
import RlnGifter.Wire
import RlnGifter.WireRoundTrip
import RlnGifter.JsonText
import RlnGifter.Platform
import RlnGifter.Json
import RlnGifter.AuthVector
import RlnGifter.Store
import RlnGifter.World
import RlnGifter.Lp
import RlnGifter.Server
import RlnGifter.ServerRuns
import RlnGifter.Gifter
import RlnGifter.Replay
import RlnGifter.Requests
import RlnGifter.Merging
import RlnGifter.Keys
import RlnGifter.Restart
import RlnGifter.Isolation
import RlnGifter.Authorisation
import RlnGifter.Alone
import RlnGifter.WireGrammar
import RlnGifter.WireTruncation
import RlnGifter.Appending
import RlnGifter.Contract
import RlnGifter.Serving
import RlnGifter.AllOrNothing
import RlnGifter.Client
import RlnGifter.Base64
import RlnGifter.Agreement
import RlnGifter.Worker
import RlnGifter.Node
import RlnGifter.Streams
import RlnGifter.Interference
import RlnGifter.Opened
import RlnGifter.Conversations
import RlnGifter.OneWorker
import RlnGifter.Network
import RlnGifter.Weaving
import RlnGifter.Refinement
import RlnGifter.Captured
import RlnGifter.Lasting
import RlnGifter.Doubling
import RlnGifter.Primality
import RlnGifter.ShortCurve
import RlnGifter.Ecdsa
import RlnGifter.Secp256k1
import RlnGifter.Keccak
import RlnGifter.Attest
import RlnGifter.Mint
import RlnGifter.Minting
import RlnGifter.Minted
import RlnGifter.Doubles
import RlnGifter.Vectors
import RlnGifter.Credentials
import RlnGifter.Varint
import RlnGifter.Loops
import RlnGifter.Apdu
import RlnGifter.Tlv
import RlnGifter.DerivationPath
import RlnGifter.Replies
import RlnGifter.Chaining
import RlnGifter.KeycardCrypto
import RlnGifter.Methods
import RlnGifter.KeycardClient
import RlnGifter.SecureChannel
import RlnGifter.KeycardSteps
import RlnGifter.KeycardOperations
import RlnGifter.KeycardCapture
import RlnGifter.KeycardSessions
import RlnGifter.ShortApdu
import RlnGifter.KeycardCommands
import RlnGifter.MacCoverage
