import NetworkPrograms.EventMachine
import NetworkPrograms.WireBytes
import NetworkPrograms.RegistryState
import NetworkPrograms.RegistryPublish
import NetworkPrograms.RegistryJoin
import NetworkPrograms.RegistrySearch
import NetworkPrograms.RegistryServe
import NetworkPrograms.RegistryTable
import NetworkPrograms.RegistryHistory
import NetworkPrograms.RegistryReplies
import NetworkPrograms.RegistryLookup
import NetworkPrograms.RegistryMembership
import NetworkPrograms.RegistryLoop
import NetworkPrograms.ByteStreams
import NetworkPrograms.PeerListener
import NetworkPrograms.PeerFetch
import NetworkPrograms.PeerTransfer
import NetworkPrograms.PeerPublish
import NetworkPrograms.CPeerPublish
import NetworkPrograms.PublishDelivery
import NetworkPrograms.RegistryGrammar
import NetworkPrograms.PeerAnswer
import NetworkPrograms.RegistryBlocks
import NetworkPrograms.RegistryBuffer
import NetworkPrograms.PeerSession
import NetworkPrograms.TextBuffers
import NetworkPrograms.GetAction
import NetworkPrograms.Lab03
import NetworkPrograms.PeerPaths
import NetworkPrograms.FetchFiles
import NetworkPrograms.CPeerSearch
import NetworkPrograms.PeerReplies
import NetworkPrograms.CPeerFetch
import NetworkPrograms.CPeerCommands
import NetworkPrograms.H1Counter
import NetworkPrograms.Loops
import NetworkPrograms.PartialSends
import NetworkPrograms.SendBytes
import NetworkPrograms.H1Reader
import NetworkPrograms.Lab03Send
import NetworkPrograms.SocketClient
import NetworkPrograms.Heaps
import NetworkPrograms.RegistryHeap
import NetworkPrograms.ReadyScans
import NetworkPrograms.Lab10
import NetworkPrograms.RegistryScan
import NetworkPrograms.EchoService
import NetworkPrograms.TextParts
import NetworkPrograms.CPeerPrompt
import NetworkPrograms.H1Sizes
import NetworkPrograms.H1Totals
import NetworkPrograms.RegistryAnswers
import NetworkPrograms.PeerPrompt
import NetworkPrograms.FileDownload
import NetworkPrograms.ListenerThreads
import NetworkPrograms.Addresses
import NetworkPrograms.Lab04
import NetworkPrograms.Lab10Echo
import NetworkPrograms.PublishesAgree
import NetworkPrograms.EarlierPeer
import NetworkPrograms.Lab03Clients
import NetworkPrograms.CFileDownload
